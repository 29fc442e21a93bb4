import BulkLookup.Proofs.Work.Batches
import BulkLookup.Proofs.Work.Journeys
import Mathlib.Data.List.Nodup

/-!
# Every task completes exactly once

On a queue that loses nothing, every task that a pool admits is resumed until it finishes and not
once more, whatever the order in which the queue hands its tasks out, however many streams there
are, and wherever runs come in between. A task that the queue refuses is not resumed at all. Hence
it is known beforehand how many tasks the queue will accept until the pool is closed: each task once
for its admission and once for every suspension.

## Main definitions

* `PoolCall.spawned` — the tasks that a sequence of calls spawns
* `ReadyQueue.Counts` — a count of the tasks that a queue accepted

## Main results

* `Ledger.exists_flows_of_room` — where there is room for it, every task spawned is admitted
* `Ledger.close_spec` — where no task can be lost, closing a pool lets every task finish
* `ReadyQueue.Counts.attempt` — what a count has to do with the turns taken
* `Ledger.record_completes` — every task admitted completes exactly once
-/

namespace BulkLookup

universe u v w x

open ReadyQueue Resumable

variable {Q : Type w} {τ : Type u} {ρ : Type v} {ι : Type x}

/-! ### Calls and the tasks they admit -/

/-- The tasks that a sequence of calls spawns, whether or not they are admitted. -/
def PoolCall.spawned (calls : List (PoolCall τ)) : List τ :=
  calls.filterMap fun
    | .spawn t => some t
    | .run => none

theorem PoolCall.mem_spawned {calls : List (PoolCall τ)} {t : τ} :
    t ∈ spawned calls ↔ .spawn t ∈ calls := by
  rw [spawned, List.mem_filterMap]
  constructor
  · rintro ⟨_ | _, hmem, heq⟩
    · obtain rfl := Option.some.inj heq
      exact hmem
    · cases heq
  · exact fun hmem => ⟨_, hmem, rfl⟩

namespace Ledger

variable [ReadyQueue Q τ] [Resumable τ ρ] {l : Ledger Q τ ρ}

/-- The tasks admitted are among those spawned, in the same order. -/
theorem exists_admitted_record (l : Ledger Q τ ρ) (calls : List (PoolCall τ)) :
    ∃ more, (l.record calls).admitted = l.admitted ++ more ∧
      more.Sublist (PoolCall.spawned calls) := by
  induction calls generalizing l with
  | nil => exact ⟨[], (List.append_nil _).symm, .refl _⟩
  | cons call calls ih =>
    obtain ⟨more, hmore, hsub⟩ := ih (l.enter call)
    refine ⟨call.admitted (l.pool.call call : Progress (StreamPool Q) τ ρ) ++ more, ?_, ?_⟩
    · rw [← List.append_assoc]
      exact hmore
    · cases call with
      | spawn t =>
        have hadmits : ((l.pool.call (.spawn t) : Progress (StreamPool Q) τ ρ).admits t).Sublist
            [t] := by
          rw [Progress.admits]
          split
          · exact .refl _
          · exact List.nil_sublist _
        exact hadmits.append hsub
      | run => exact hsub

theorem admitted_record_sublist (pool : StreamPool Q) (calls : List (PoolCall τ)) :
    ((ofPool pool : Ledger Q τ ρ).record calls).admitted.Sublist (PoolCall.spawned calls) := by
  obtain ⟨more, hmore, hsub⟩ := (ofPool pool : Ledger Q τ ρ).exists_admitted_record calls
  rw [hmore]
  exact hsub

/-- Where a queue has room for as many tasks as there are streams, every task spawned is admitted.
-/
theorem flows_record_of_room [LosesNothing Q] {fits : Q → Prop} (hsteady : Steady fits)
    {streams : Nat} (haccepts : ∀ q t, fits q → (tasks q).length < streams →
      (schedule q t).1 = none ∧ fits (schedule q t).2)
    {l : Ledger Q τ ρ} (hflows : l.pool.Flows fits) (hlimit : l.pool.limit = streams)
    {calls : List (PoolCall τ)}
    (hresults : ∀ t ∈ PoolCall.spawned calls, (result? t : Option ρ).isSome = true) :
    (l.record calls).pool.Flows fits ∧
      (l.record calls).admitted = l.admitted ++ PoolCall.spawned calls := by
  induction calls generalizing l with
  | nil => exact ⟨hflows, (List.append_nil _).symm⟩
  | cons call calls ih =>
    cases call with
    | spawn t =>
      obtain ⟨hfault, hspawned, hlimit'⟩ := hflows.spawn hsteady (hresults t List.mem_cons_self)
        fun q hq hlt _ => haccepts q t hq (hlimit ▸ hlt)
      have hadmits : (l.pool.spawn t : Progress (StreamPool Q) τ ρ).admits t = [t] := by
        rw [Progress.admits, hfault]
      have hcalls := ih (l := l.enter (.spawn t)) hspawned (hlimit'.trans hlimit)
        fun t' hmem => hresults t' (List.mem_cons_of_mem t hmem)
      refine ⟨hcalls.1, hcalls.2.trans ?_⟩
      change l.admitted ++ (l.pool.spawn t : Progress (StreamPool Q) τ ρ).admits t ++ _ = _
      rw [hadmits, List.append_assoc]
      rfl
    | run =>
      obtain ⟨-, -, hran, hlimit'⟩ := hflows.run hsteady
      have hcalls := ih (l := l.enter .run) hran (hlimit'.trans hlimit) hresults
      refine ⟨hcalls.1, hcalls.2.trans ?_⟩
      change l.admitted ++ [] ++ _ = _
      rw [List.append_nil]
      rfl

/-- A pool over an empty queue with room for as many tasks as there are streams admits every task
spawned, and loses none. -/
theorem exists_flows_of_room [LosesNothing Q] {queue : Q} {streams : Nat} {pool : StreamPool Q}
    (hpool : StreamPool.ofQueue queue streams = .ok pool) (hroom : HasRoom queue streams)
    {calls : List (PoolCall τ)}
    (hresults : ∀ t ∈ PoolCall.spawned calls, (result? t : Option ρ).isSome = true) :
    let l : Ledger Q τ ρ := (ofPool pool).record calls
    ∃ fits : Q → Prop, Steady fits ∧ l.pool.Flows fits ∧ l.admitted = PoolCall.spawned calls := by
  intro l
  obtain ⟨hstreams, hempty, hopened⟩ := StreamPool.ofQueue_eq_ok hpool
  have hnil : tasks queue = [] := isEmpty_iff.1 hempty
  obtain ⟨fits, hfits, hsteady, haccepts⟩ := hroom.exists_steady (by
    rw [hnil]
    exact Nat.zero_le _)
  have hstart : (ofPool pool : Ledger Q τ ρ).pool.Flows fits := by
    rw [hopened]
    exact .of_tasks_eq_nil hnil hstreams hfits
  have hlimit : pool.limit = streams := by rw [hopened]
  obtain ⟨hflows, hadmitted⟩ := flows_record_of_room hsteady haccepts hstart hlimit hresults
  exact ⟨fits, hsteady, hflows, hadmitted⟩

/-- Where no task can be lost, closing the pool meets no fault, leaves no task in the queue, and
every task admitted has finished then. -/
theorem close_spec [LosesNothing Q] {fits : Q → Prop} (hsteady : Steady fits)
    (hflows : l.pool.Flows fits) {mark : τ → ι} {streams : Nat}
    (hbalanced : Balanced mark streams l) :
    let closed : Progress Q τ ρ := l.pool.close
    closed.fault = none ∧ tasks closed.state = [] ∧
      (Turn.finishers (l.turns ++ closed.turns.toList)).length = l.admitted.length := by
  intro closed
  obtain ⟨hfault, hnil, hfinishes, -⟩ := hsteady.drain_spec hflows.fits hflows.allFinish
  refine ⟨hfault, hnil, ?_⟩
  -- A stream is taken for every task in the queue, and for every task admitted that did not finish.
  have hcomplete : (tasks l.pool.queue).length + l.pool.free = l.pool.limit := hflows.complete
  have hfree := hbalanced.free_eq
  have hlimit := hbalanced.limit_eq
  rw [Progress.finishes_eq] at hfinishes
  rw [Turn.finishers_append, List.length_append]
  rw [finished] at hfree
  change _ + (Turn.finishers (drain l.pool.queue : Progress Q τ ρ).turns.toList).length = _
  omega

end Ledger

/-! ### Counting what a queue accepts -/

namespace ReadyQueue

variable [ReadyQueue Q τ]

/-- A count of the tasks that a queue accepted. -/
structure Counts (count : Q → Nat) : Prop where
  accept : ∀ {q q' : Q} {t : τ}, schedule q t = (none, q') → count q' = count q + 1
  refuse : ∀ {q q' : Q} {t : τ} {fault : Fault}, schedule q t = (some fault, q') →
    count q' = count q
  takeNext : ∀ {q q' : Q} {t? : Option τ}, takeNext q = (t?, q') → count q' = count q

/-- The meter of a queue counts the tasks that it accepted. -/
theorem counts_scheduled : Counts (Metered.scheduled : Metered Q → Nat) where
  accept {m m' t} h := by
    change m.schedule t = (none, m') at h
    rw [Metered.schedule] at h
    split at h
    · cases h
    · cases h
      rfl
  refuse {m m' t fault} h := by
    change m.schedule t = (some fault, m') at h
    rw [Metered.schedule] at h
    split at h
    · cases h
      rfl
    · cases h
  takeNext h := by
    cases h
    rfl

variable [LosesNothing Q] [Resumable τ ρ] {count : Q → Nat} {q : Q}

/-- A turn in which a task suspends has it accepted again, and a turn in which it finishes leaves
one task less; thus the count goes along with the tasks that the queue holds and the turns taken. -/
theorem Counts.attempt (hcount : Counts count) (hfinish : AllFinish q) {a : Advance Q τ ρ}
    (ha : Advanced q a) :
    count a.queue + (tasks q).length = count q + a.turns.length + (tasks a.queue).length := by
  rw [ha.length_eq]
  cases ha with
  | @idle q' htake =>
    change count q' + (0 + (tasks q').length + 0) = count q + 0 + (tasks q').length
    rw [hcount.takeNext htake, Nat.zero_add]
    rfl
  | @finished q' t t' r htake hresume =>
    change count q' + (1 + (tasks q').length + 0) = count q + 1 + (tasks q').length
    rw [hcount.takeNext htake, Nat.add_zero, Nat.add_assoc]
  | @suspended q₁ q' t t' htake hresume hschedule =>
    change count q' + (0 + (tasks q').length + 0) = count q + 1 + (tasks q').length
    rw [hcount.accept hschedule, hcount.takeNext htake, Nat.zero_add]
    rfl
  | @broke q' t fault htake hresume =>
    exact absurd hresume (hfinish.resume_ne_error htake)
  | @refused q₁ q' t t' fault htake hresume hschedule =>
    change count q' + (0 + (tasks q').length + 1) = count q + 1 + (tasks q').length
    rw [hcount.refuse hschedule, hcount.takeNext htake, Nat.zero_add, Nat.add_assoc,
      Nat.add_comm 1]

/-- If the tasks come to results, then what a queue accepted is what it holds and the turns taken.
-/
theorem Counts.lasting (hcount : Counts count) (start : Nat) :
    Invariant.Lasting fun (q : Q) (ts : List τ) (turns : List (Turn τ ρ)) =>
      (∀ t ∈ ts, (result? t : Option ρ).isSome = true) →
        AllFinish q ∧ count q = start + turns.length + (tasks q).length where
  attempt {q ts turns a} h ha hts := by
    obtain ⟨hfinish, hq⟩ := h hts
    have hattempt := hcount.attempt hfinish ha
    refine ⟨hfinish.attempt ha, ?_⟩
    rw [List.length_append]
    omega
  accept {q q' ts turns t} h hschedule hts := by
    obtain ⟨hfinish, hq⟩ := h fun t' hmem => hts t' (List.mem_append_left _ hmem)
    have haccepted := hfinish.schedule (hts t (List.mem_append_right _ List.mem_cons_self))
    rw [hschedule] at haccepted
    refine ⟨haccepted, ?_⟩
    rw [hcount.accept hschedule, hq, (perm_of_accepted hschedule).length_eq]
    rfl
  refuse {q q' ts turns t fault} h hschedule hts := by
    obtain ⟨hfinish, hq⟩ := h hts
    have hperm := perm_of_refused hschedule
    refine ⟨fun t' hmem => hfinish t' (hperm.mem_iff.1 hmem), ?_⟩
    rw [hcount.refuse hschedule, hq, hperm.length_eq]

end ReadyQueue

namespace Ledger

variable [ReadyQueue Q τ] [Resumable τ ρ]

/-- Pools over queues that lose nothing and take back what they hand out, for tasks each of which
suspends a known number of times and then finishes. After any sequence of calls, closing the pool
meets no fault and leaves the queue empty, and all the turns taken until then interleave the whole
journeys of the tasks admitted: each of them is resumed once more than it suspends, finishes in the
last of its turns and in no other, and is not resumed again. A task that was not admitted is never
resumed; and if the queue has room for as many tasks as there are streams, then every task is
admitted. Whatever counts the tasks that the queue accepts goes up by all of these turns. -/
theorem record_completes [LosesNothing Q] [TakesBack Q] [DecidableEq ι] {queue : Q} {streams : Nat}
    {pool : StreamPool Q} (hpool : StreamPool.ofQueue queue streams = .ok pool)
    {calls : List (PoolCall τ)} {pauses : τ → Nat}
    (hpauses : ∀ t ∈ PoolCall.spawned calls, FinishesAfter t (pauses t)) :
    let l : Ledger Q τ ρ := (ofPool pool).record calls
    let closed : Progress Q τ ρ := l.pool.close
    let turns : List (Turn τ ρ) := l.turns ++ closed.turns.toList
    closed.fault = none ∧ tasks closed.state = [] ∧ isEmpty closed.state = true ∧
      l.admitted.Sublist (PoolCall.spawned calls) ∧
      (HasRoom queue streams → l.admitted = PoolCall.spawned calls) ∧
      Interleaves (l.admitted.map journey) turns (l.admitted.map fun _ => []) ∧
      (∀ t ∈ l.admitted,
        (journey t).map Turn.isFinish = List.replicate (pauses t) false ++ [true]) ∧
      (∀ mark : τ → ι, Keeps mark → ((PoolCall.spawned calls).map mark).Nodup →
        ∀ t ∈ PoolCall.spawned calls,
          (t ∈ l.admitted → turns.filter (fun turn => mark turn.task = mark t) = journey t) ∧
          (t ∉ l.admitted → turns.filter (fun turn => mark turn.task = mark t) = [])) ∧
      ∀ count : Q → Nat, Counts count →
        count closed.state = count queue + (l.admitted.map fun t => pauses t + 1).sum := by
  intro l closed turns
  obtain ⟨hstreams, hempty, hopened⟩ := StreamPool.ofQueue_eq_ok hpool
  have hnil : tasks queue = [] := isEmpty_iff.1 hempty
  have hadmitted : l.admitted.Sublist (PoolCall.spawned calls) :=
    admitted_record_sublist pool calls
  have hresults : ∀ t ∈ PoolCall.spawned calls, (result? t : Option ρ).isSome = true :=
    fun t hmem => (hpauses t hmem).isSome_result?
  -- No task is lost, and so every one of them has finished in the end.
  have hflows : l.pool.Flows fun _ => True := by
    apply flows_record (l := ofPool pool) _ fun t hmem => hresults t (PoolCall.mem_spawned.2 hmem)
    rw [hopened]
    exact .of_tasks_eq_nil hnil hstreams trivial
  have hbalanced : Balanced result? streams l :=
    (balanced_ofPool hnil hpool _).record keeps_result? calls
  obtain ⟨hfault, hclosed, hfinished⟩ := close_spec steady_of_takesBack hflows hbalanced
  have hunrolled : Unrolled l.admitted turns closed.state := by
    apply lasting_unrolled.drain
    apply lasting_unrolled.record
    rw [hopened]
    exact .of_tasks_eq_nil hnil
  obtain ⟨-, hjourneys⟩ := hunrolled.of_finished hfinished
  refine ⟨hfault, hclosed, isEmpty_iff.2 hclosed, hadmitted, fun hroom => ?_, hjourneys,
    fun t hmem => ?_, fun mark hmark hdistinct t hmem => ⟨fun hin => ?_, fun hout => ?_⟩,
    fun count hcount => ?_⟩
  · obtain ⟨fits, -, -, hall⟩ := exists_flows_of_room hpool hroom hresults
    exact hall
  · exact (hpauses t (hadmitted.mem hmem)).map_isFinish_journey
  · obtain ⟨rest, hrest, hfilter⟩ :=
      hjourneys.exists_filter_append hmark (hdistinct.sublist (hadmitted.map mark)) hin
    obtain ⟨-, -, rfl⟩ := List.mem_map.1 hrest
    rwa [List.append_nil] at hfilter
  · apply hjourneys.filter_eq_nil hmark
    intro hin
    obtain ⟨t', hin, heq⟩ := List.mem_map.1 hin
    rw [List.inj_on_of_nodup_map hdistinct (hadmitted.mem hin) hmem heq] at hin
    exact hout hin
  · have hcounted : AllFinish closed.state ∧
        count closed.state = count queue + turns.length + (tasks closed.state).length := by
      apply (hcount.lasting (count queue)).drain _ fun t hmem => hresults t (hadmitted.mem hmem)
      apply (hcount.lasting (count queue)).record
      rw [hopened]
      refine fun _ => ⟨.of_tasks_eq_nil hnil, ?_⟩
      change count queue = count queue + 0 + (tasks queue).length
      rw [hnil]
      rfl
    rw [hcounted.2, hclosed, hjourneys.length_eq_sum fun t hmem => hpauses t (hadmitted.mem hmem)]
    rfl

/-- A metered ring with room for two countdowns refuses a third, though a stream is free. After a
run there is room for another one, which is still in the ring when the pool is closed. The first of
them takes three turns, the one refused takes none, and six times in all the ring accepts one. -/
theorem record_completes_on_full_ring :
    let ring : Ring Countdown :=
      ⟨#[none, none], 0, 0, by decide, by decide, fun i hi => absurd hi (Nat.not_lt_zero i)⟩
    let calls : List (PoolCall Countdown) :=
      [.spawn ⟨1, 2⟩, .spawn ⟨2, 0⟩, .spawn ⟨3, 1⟩, .run, .spawn ⟨4, 1⟩]
    let l : Ledger (Metered (Ring Countdown)) Countdown Int :=
      (ofPool ⟨.ofQueue ring, 3, 3, 0⟩).record calls
    let closed : Progress (Metered (Ring Countdown)) Countdown Int := l.pool.close
    let turns : List (Turn Countdown Int) := l.turns ++ closed.turns.toList
    l.admitted = [⟨1, 2⟩, ⟨2, 0⟩, ⟨4, 1⟩] ∧ closed.fault = none ∧
      turns.filter (fun turn => turn.task.id = 1) =
        [⟨⟨1, 2⟩, none⟩, ⟨⟨1, 1⟩, none⟩, ⟨⟨1, 0⟩, some 1⟩] ∧
      turns.filter (fun turn => turn.task.id = 3) = [] ∧ closed.state.scheduled = 6 := by
  intro ring calls l closed turns
  have hadmitted : l.admitted = [⟨1, 2⟩, ⟨2, 0⟩, ⟨4, 1⟩] := by cbv
  have hpool : StreamPool.ofQueue (Metered.ofQueue ring) 3 = .ok ⟨.ofQueue ring, 3, 3, 0⟩ := rfl
  have hpauses : ∀ t ∈ PoolCall.spawned calls, FinishesAfter t t.pauses :=
    fun t _ => t.finishesAfter
  obtain ⟨hfault, -, -, -, -, -, -, hfilter, hcount⟩ :=
    record_completes (ι := Int) hpool hpauses
  have htasks := hfilter Countdown.id Countdown.keeps_id (by decide)
  refine ⟨hadmitted, hfault, ?_, ?_, ?_⟩
  · exact ((htasks ⟨1, 2⟩ (by decide)).1 (by rw [hadmitted]; decide)).trans (by cbv)
  · exact (htasks ⟨3, 1⟩ (by decide)).2 (by rw [hadmitted]; decide)
  · rw [hcount _ counts_scheduled, hadmitted]
    rfl

end Ledger

end BulkLookup
