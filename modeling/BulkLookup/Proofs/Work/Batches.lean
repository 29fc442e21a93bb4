import BulkLookup.Proofs.Work.Flows

/-!
# Batches of tasks

A batch of tasks is admitted to a pool one task after the other, and then worked off. If every task
comes to a result, if the queue loses nothing, and if it has room for as many tasks as can be in
flight at a time, then no fault is met on the way and the results are those that the tasks come to
on their own. In which order they come in is up to the queue.

## Main definitions

* `Progress.Truthful` — the results of an operation are those of the tasks that finished in it
* `StreamPool.Underway` — how far a pool is with a batch

## Main results

* `StreamPool.Underway.spawn`, `StreamPool.Underway.foldl_spawn`, `StreamPool.Underway.run` — a
  batch goes on without a fault, and neither a task nor a result is lost
* `StreamPool.perm_results_of_batch` — the results are those of the tasks of the batch
-/

namespace BulkLookup

universe u v w

open ReadyQueue Resumable

variable {Q : Type w} {τ : Type u} {ρ : Type v}

/-! ### Results -/

/-- If tasks finish with the results to which they come, then these are all results. -/
theorem Turn.map_results [Resumable τ ρ] {turns : List (Turn τ ρ)}
    (h : ∀ turn ∈ turns, ∀ r, turn.result = some r → result? turn.task = some r) :
    (turns.filterMap (·.result)).map some = (Turn.finishers turns).map result? := by
  induction turns with
  | nil => rfl
  | cons turn turns ih =>
    have hturns := ih fun turn hmem => h turn (List.mem_cons_of_mem _ hmem)
    cases hresult : turn.result with
    | none =>
      have hfinish : ¬ turn.isFinish = true := by simp [Turn.isFinish, hresult]
      rw [List.filterMap_cons_none hresult, Turn.finishers, List.filter_cons_of_neg hfinish]
      exact hturns
    | some r =>
      have hfinish : turn.isFinish = true := by simp [Turn.isFinish, hresult]
      rw [List.filterMap_cons_some hresult, Turn.finishers, List.filter_cons_of_pos hfinish,
        List.map_cons, List.map_cons, List.map_cons, h turn List.mem_cons_self r hresult]
      exact congrArg _ hturns

namespace Progress

variable {σ : Type w} {d : Progress σ τ ρ}

theorem results_andThen_of_none {next : σ → Progress σ τ ρ} (h : d.fault = none) :
    (d.andThen next).results.toList = d.results.toList ++ (next d.state).results.toList := by
  rw [andThen_of_none h, results, results, results, Array.toList_filterMap, Array.toList_append,
    List.filterMap_append, Array.toList_filterMap, Array.toList_filterMap]

variable [Resumable τ ρ]

/-- The results of an operation are those to which the tasks that finished in it come. -/
def Truthful (d : Progress σ τ ρ) : Prop :=
  ∀ turn ∈ d.turns.toList, ∀ r, turn.result = some r → result? turn.task = some r

theorem Truthful.andThen {next : σ → Progress σ τ ρ} (h : d.Truthful)
    (hnext : (next d.state).Truthful) : (d.andThen next).Truthful := by
  cases hfault : d.fault with
  | none =>
    rw [andThen_of_none hfault]
    intro turn hmem r hr
    rw [Array.toList_append] at hmem
    rcases List.mem_append.1 hmem with hmem | hmem
    · exact h turn hmem r hr
    · exact hnext turn hmem r hr
  | some fault => rwa [andThen_of_some hfault]

/-- Truthful results are those of the tasks that finished. -/
theorem Truthful.map_results (h : d.Truthful) :
    d.results.toList.map some = (Turn.finishers d.turns.toList).map result? := by
  rw [results, Array.toList_filterMap, Turn.map_results h]

end Progress

theorem ReadyQueue.truthful_drain [ReadyQueue Q τ] [Resumable τ ρ] (q : Q) :
    (drain q : Progress Q τ ρ).Truthful := by
  cases (drains q : Drains q (drain q : Progress Q τ ρ)) with
  | idle hworks => exact fun _ hmem _ => hworks.result_eq hmem
  | failed hworks => exact fun _ hmem _ => hworks.result_eq hmem

theorem ReadyQueue.truthful_drainToFinish [ReadyQueue Q τ] [Resumable τ ρ] (q : Q) :
    (drainToFinish q : Progress Q τ ρ).Truthful := by
  cases (awaits q : Awaits q (drainToFinish q : Progress Q τ ρ)) with
  | finished hworks => exact fun _ hmem _ => hworks.result_eq hmem
  | idle hworks => exact fun _ hmem _ => hworks.result_eq hmem
  | failed hworks => exact fun _ hmem _ => hworks.result_eq hmem

namespace StreamPool

variable [ReadyQueue Q τ] [Resumable τ ρ] {p : StreamPool Q} {t : τ}

theorem truthful_launch (p : StreamPool Q) (t : τ) :
    (p.launch t : Progress (StreamPool Q) τ ρ).Truthful := by
  rcases hschedule : schedule p.queue t with ⟨_ | fault, queue⟩
  · rw [launch_of_accepted hschedule]
    exact fun turn hmem => absurd hmem List.not_mem_nil
  · rw [launch_of_refused hschedule]
    exact fun turn hmem => absurd hmem List.not_mem_nil

theorem truthful_makeRoom (p : StreamPool Q) :
    (p.makeRoom : Progress (StreamPool Q) τ ρ).Truthful := by
  unfold makeRoom
  split
  · exact truthful_drainToFinish p.queue
  · exact fun turn hmem => absurd hmem List.not_mem_nil

theorem truthful_spawn (p : StreamPool Q) (t : τ) :
    (p.spawn t : Progress (StreamPool Q) τ ρ).Truthful := by
  rw [spawn_eq]
  exact (truthful_makeRoom p).andThen (truthful_launch _ t)

theorem truthful_run (p : StreamPool Q) : (p.run : Progress (StreamPool Q) τ ρ).Truthful :=
  truthful_drain p.queue

/-! ### Nothing is lost -/

/-- Where all tasks in flight are in the queue, before and after, no result is lost. -/
theorem Settles.perm_results {d : Progress (StreamPool Q) τ ρ} {admitted : List τ}
    (h : Settles (result? : τ → Option ρ) p d admitted) (hp : p.Complete) (hd : d.state.Complete)
    (htruth : d.Truthful) : ((tasks p.queue ++ admitted).map result?).Perm
      (d.results.toList.map some ++ (tasks d.state.queue).map result?) := by
  obtain ⟨lost, hlost⟩ := h.perm
  have hlength := hlost.length_eq
  simp only [List.length_append, List.length_map, ← d.finishes_eq] at hlength
  -- As many tasks left the queue as gave their streams back.
  have hnil : lost = [] := by
    have hfree := h.free_eq
    have hlimit := h.limit_eq
    unfold Complete at hp hd
    exact List.eq_nil_of_length_eq_zero (by omega)
  rw [hnil, List.append_nil] at hlost
  rwa [htruth.map_results]

/-- A queue accepts a task that is spawned if it does so while fewer tasks are in it than there are
streams, and no more than at the start. -/
theorem Flows.spawn [LosesNothing Q] {fits : Q → Prop} (hsteady : Steady fits) (h : p.Flows fits)
    (hresult : (result? t : Option ρ).isSome = true)
    (haccepts : ∀ q, fits q → (tasks q).length < p.limit →
      (tasks q).length ≤ (tasks p.queue).length →
        (schedule q t).1 = none ∧ fits (schedule q t).2) :
    (p.spawn t : Progress (StreamPool Q) τ ρ).fault = none ∧
      (p.spawn t : Progress (StreamPool Q) τ ρ).state.Flows fits ∧
      (p.spawn t : Progress (StreamPool Q) τ ρ).state.limit = p.limit := by
  obtain ⟨hfault, hflows, hlimit⟩ := h.makeRoom hsteady
  have hfree := free_pos_of_makeRoom hfault
  -- A stream is free once room was made, and waiting puts no task into the queue.
  have hlt : (tasks (p.makeRoom : Progress (StreamPool Q) τ ρ).state.queue).length < p.limit := by
    rw [← hlimit, ← hflows.complete]
    exact Nat.lt_add_of_pos_right hfree
  have hle : (tasks (p.makeRoom : Progress (StreamPool Q) τ ρ).state.queue).length ≤
      (tasks p.queue).length := by
    have hroom : Settles result? p (p.makeRoom : Progress (StreamPool Q) τ ρ) [] :=
      settles_makeRoom keeps_result? h.complete.bounded
    obtain ⟨lost, hlost⟩ := hroom.exists_length_eq
    rw [List.length_nil] at hlost
    omega
  obtain ⟨haccepted, hfits⟩ := haccepts _ hflows.fits hlt hle
  obtain ⟨hflows', hlimit'⟩ := hflows.launch hfree hresult hfits
  rw [spawn_eq, Progress.andThen_of_none hfault]
  refine ⟨?_, hflows', hlimit'.trans hlimit⟩
  dsimp only
  rw [launch_of_accepted (Prod.ext haccepted rfl)]

/-- What a pool of `streams` streams has come to after it has admitted the tasks `ts`, without a
fault: each of them has come to its result or is in the queue. -/
structure Underway (fits : Q → Prop) (streams : Nat) (ts : List τ)
    (d : Progress (StreamPool Q) τ ρ) : Prop where
  fault_eq : d.fault = none
  flows : d.state.Flows fits
  limit_eq : d.state.limit = streams
  perm : (ts.map result?).Perm
    (d.results.toList.map some ++ (tasks d.state.queue).map result?)

namespace Underway

variable {fits : Q → Prop} {streams : Nat} {ts : List τ} {d : Progress (StreamPool Q) τ ρ}

/-- A pool over an empty queue has not admitted any task. -/
theorem start (hp : p.Flows fits) (hlimit : p.limit = streams) (hnil : tasks p.queue = []) :
    Underway fits streams [] ({ state := p } : Progress (StreamPool Q) τ ρ) := by
  refine ⟨rfl, hp, hlimit, ?_⟩
  rw [hnil]
  exact .nil

/-- Once the queue is empty, the results are those to which the tasks of the batch come. -/
theorem done (h : Underway fits streams ts d) (hnil : tasks d.state.queue = []) :
    (ts.map result?).Perm (d.results.toList.map some) := by
  have hperm := h.perm
  rwa [hnil, List.map_nil, List.append_nil] at hperm

/-- How many tasks are in the queue. -/
theorem length_le (h : Underway fits streams ts d) : (tasks d.state.queue).length ≤ ts.length := by
  have hlength := h.perm.length_eq
  rw [List.length_append, List.length_map, List.length_map, List.length_map] at hlength
  rw [hlength]
  exact Nat.le_add_left _ _

/-- A pool goes on with its batch in an operation that meets no fault. -/
theorem andThen (h : Underway fits streams ts d)
    {next : StreamPool Q → Progress (StreamPool Q) τ ρ} {admitted : List τ}
    (hsettles : Settles (result? : τ → Option ρ) d.state (next d.state) admitted)
    (hfault : (next d.state).fault = none) (hflows : (next d.state).state.Flows fits)
    (htruth : (next d.state).Truthful) :
    Underway fits streams (ts ++ admitted) (d.andThen next) := by
  have hperm := hsettles.perm_results h.flows.complete hflows.complete htruth
  rw [List.map_append, ← List.append_nil (_ ++ (tasks (next d.state).state.queue).map _)] at hperm
  have hsteps := perm_of_steps (h.perm.trans (.of_eq (List.append_nil _).symm)) hperm
  rw [List.append_nil, List.append_nil, ← List.map_append, ← List.map_append,
    ← Progress.results_andThen_of_none h.fault_eq] at hsteps
  rw [Progress.andThen_of_none h.fault_eq] at hsteps ⊢
  exact ⟨hfault, hflows, hsettles.limit_eq.trans h.limit_eq, hsteps⟩

variable [LosesNothing Q]

/-- To spawn one more task of the batch meets no fault, if the queue has room for `room` tasks: as
many as there are streams, or as there are tasks in the batch up to this one. -/
theorem spawn (h : Underway fits streams ts d) (hsteady : Steady fits)
    (hresult : (result? t : Option ρ).isSome = true) {room : Nat}
    (hroom : streams ≤ room ∨ ts.length < room)
    (haccepts : ∀ q, fits q → (tasks q).length < room →
      (schedule q t).1 = none ∧ fits (schedule q t).2) :
    Underway fits streams (ts ++ [t]) (d.andThen (·.spawn t)) := by
  have hle := h.length_le
  obtain ⟨hfault, hflows, -⟩ := h.flows.spawn hsteady hresult fun q hq hstreams hqueued => by
    apply haccepts q hq
    rw [h.limit_eq] at hstreams
    omega
  have hsettles : Settles result? d.state (d.state.spawn t : Progress (StreamPool Q) τ ρ)
      ((d.state.spawn t : Progress (StreamPool Q) τ ρ).admits t) :=
    settles_spawn keeps_result? h.flows.complete.bounded t
  rw [Progress.admits, hfault] at hsettles
  exact h.andThen hsettles hfault hflows (truthful_spawn _ t)

/-- To work off what is in the queue meets no fault, and leaves nothing in it. -/
theorem run (h : Underway fits streams ts d) (hsteady : Steady fits) :
    Underway fits streams ts (d.andThen (·.run)) ∧
      tasks (d.andThen (·.run)).state.queue = [] := by
  obtain ⟨hfault, hnil, hflows, -⟩ := h.flows.run hsteady
  have hsettles : Settles result? d.state (d.state.run : Progress (StreamPool Q) τ ρ) [] :=
    settles_run keeps_result? h.flows.complete.bounded
  have hunderway := h.andThen hsettles hfault hflows (truthful_run _)
  rw [List.append_nil] at hunderway
  refine ⟨hunderway, ?_⟩
  rw [Progress.andThen_of_none h.fault_eq]
  exact hnil

/-- To spawn the rest of a batch meets no fault, if the queue has room for as many tasks as there
are streams, or as there are tasks in the batch. -/
theorem foldl_spawn (h : Underway fits streams ts d) (hsteady : Steady fits) {rest : List τ}
    (hresults : ∀ t ∈ rest, (result? t : Option ρ).isSome = true) {room : Nat}
    (hroom : streams ≤ room ∨ (ts ++ rest).length ≤ room)
    (haccepts : ∀ q t, fits q → (tasks q).length < room →
      (schedule q t).1 = none ∧ fits (schedule q t).2) :
    Underway fits streams (ts ++ rest)
      (rest.foldl (fun progress t => progress.andThen (·.spawn t)) d) := by
  induction rest generalizing ts d with
  | nil => rwa [List.append_nil]
  | cons t rest ih =>
    rw [List.append_cons] at hroom ⊢
    apply ih _ (fun t' hmem => hresults t' (List.mem_cons_of_mem t hmem)) hroom
    apply h.spawn hsteady (hresults t List.mem_cons_self) _ fun q => haccepts q t
    simp only [List.length_append, List.length_singleton] at hroom
    omega

/-- A pool that is closed over an empty queue gives no turn any more. -/
theorem close (h : Underway fits streams ts d) (hsteady : Steady fits)
    (hnil : tasks d.state.queue = []) :
    (d.state.close : Progress Q τ ρ).fault = none ∧
      tasks (d.state.close : Progress Q τ ρ).state = [] ∧
      (d.state.close : Progress Q τ ρ).results = #[] := by
  obtain ⟨hfault, hempty, hfinishes, -⟩ := hsteady.drain_spec h.flows.fits h.flows.allFinish
  refine ⟨hfault, hempty, ?_⟩
  rw [hnil, Progress.finishes_eq] at hfinishes
  have htruth : (d.state.close : Progress Q τ ρ).Truthful := truthful_drain d.state.queue
  have hresults := htruth.map_results
  rw [StreamPool.close_eq_drain] at hresults ⊢
  rw [List.eq_nil_of_length_eq_zero hfinishes] at hresults
  exact Array.toList_eq_nil_iff.1 (List.map_eq_nil_iff.1 hresults)

end Underway

/-- To admit a batch to a pool over an empty queue, to run and to close the pool: no fault is met,
no task is left, and the results are those to which the tasks come, in some order. -/
theorem perm_results_of_batch [LosesNothing Q] {queue : Q} {streams : Nat} {ts : List τ}
    (hstreams : 0 < streams) (hempty : isEmpty queue = true)
    (hroom : HasRoom queue (min streams ts.length))
    (hresults : ∀ t ∈ ts, (result? t : Option ρ).isSome = true) :
    let p : StreamPool Q := ⟨queue, streams, streams, 0⟩
    let ran : Progress (StreamPool Q) τ ρ := (p.spawnAll ts).andThen (·.run)
    let closed : Progress Q τ ρ := ran.state.close
    ran.fault = none ∧ closed.fault = none ∧ tasks closed.state = [] ∧
      (ts.map result?).Perm
        (((ran.turns ++ closed.turns).filterMap (·.result)).toList.map some) := by
  intro p ran closed
  have hnil : tasks queue = [] := isEmpty_iff.1 hempty
  obtain ⟨fits, hfits, hsteady, haccepts⟩ := hroom.exists_steady (by
    rw [hnil]
    exact Nat.zero_le _)
  have hflows : p.Flows fits := .of_tasks_eq_nil hnil hstreams hfits
  have hspawned : Underway fits streams ts (p.spawnAll ts) := by
    have hstart : Underway fits streams [] ({ state := p } : Progress (StreamPool Q) τ ρ) :=
      .start hflows rfl hnil
    apply hstart.foldl_spawn hsteady hresults _ haccepts
    rw [List.nil_append]
    omega
  obtain ⟨hran, hqueue⟩ := hspawned.run hsteady
  obtain ⟨hfault, hclosed, hnone⟩ := hran.close hsteady hqueue
  have hall : ((ran.turns ++ closed.turns).filterMap (·.result)).toList = ran.results.toList := by
    rw [Array.toList_filterMap, Array.toList_append, List.filterMap_append,
      ← Array.toList_filterMap, ← Array.toList_filterMap]
    change ran.results.toList ++ closed.results.toList = ran.results.toList
    rw [hnone, List.append_nil]
  refine ⟨hran.fault_eq, hfault, hclosed, ?_⟩
  rw [hall]
  exact hran.done hqueue

end StreamPool

end BulkLookup
