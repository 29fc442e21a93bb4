import BulkLookup.Proofs.Work.Journeys

/-!
# Batches on queues that promise nothing

Every ready queue hands out only what was put in, and that no more often. Beyond that, it may do as
it pleases: hand tasks out in any order, lose them, hold them back, or refuse them. Even so, it
cannot do more to a batch of tasks than keep it from coming to an end. The turns taken interleave
the journeys of the tasks of the batch, and where all of them come to results, any fault that is met
is one of the queue.

## Main definitions

* `ReadyQueue.IsToBlame` — a fault that a queue has brought about
* `Accounted`, `Progress.Accounts` — what can be said of a batch, whatever the queue does

## Main results

* `Accounted.drain`, `Accounted.drainToFinish` — what can be said once a loop has ended
* `StreamPool.accounts_andThen` — what can be said of an operation and the next one
* `StreamPool.accounted_of_batch` — what can be said of a batch in the end
-/

namespace BulkLookup

universe u v w

open ReadyQueue Resumable

variable {Q : Type w} {τ : Type u} {ρ : Type v}

/-- A queue has brought a fault about: it handed no task out when one was waited for, or it refused
a task and is as it was left then. -/
def ReadyQueue.IsToBlame [ReadyQueue Q τ] (q : Q) (fault : Fault) : Prop :=
  fault = .nothingQueued ∨ ∃ (q₀ : Q) (t : τ), schedule q₀ t = (some fault, q)

/-- What can be said of the tasks `ts` and of the turns taken, once an operation has left the queue
behind, with or without a fault: the turns interleave the journeys of the tasks; if there was a
fault, then the queue is to blame; and if there was none, then the tasks that have not finished are
in the queue or lost, and those in the queue come to results. -/
structure Accounted [ReadyQueue Q τ] [Resumable τ ρ] (ts : List τ) (turns : List (Turn τ ρ)) (q : Q)
    (fault : Option Fault) : Prop where
  exists_interleaves : ∃ left, Interleaves (ts.map journey) turns left
  isToBlame : ∀ cause, fault = some cause → IsToBlame q cause
  unrolled : fault = none → Unrolled ts turns q
  allFinish : fault = none → AllFinish q

variable [ReadyQueue Q τ] [Resumable τ ρ] {q q' : Q} {ts more : List τ} {t : τ}
  {turns : List (Turn τ ρ)} {fault : Option Fault}

/-! ### Loops -/

/-- Where all tasks come to results, an attempt that fails is the fault of the queue. -/
theorem ReadyQueue.Advanced.isToBlame {turn : Option (Turn τ ρ)} {cause : Fault}
    (h : Advanced q (.failed q' turn cause)) (hfinish : AllFinish q) : IsToBlame q' cause := by
  cases h with
  | broke htake hresume => exact absurd hresume (hfinish.resume_ne_error htake)
  | refused htake hresume hschedule => exact .inr ⟨_, _, hschedule⟩

/-- So is a loop that ends with such an attempt. -/
theorem ReadyQueue.Works.isToBlame {d : Progress Q τ ρ} {earlier : List (Turn τ ρ)}
    {turn : Option (Turn τ ρ)} {cause : Fault} (h : Works q d earlier (.failed q' turn cause))
    (hfinish : AllFinish q) : IsToBlame d.state cause := by
  obtain ⟨q₀, hturns, hlast⟩ := h.exists_turns
  obtain ⟨lost, hlost⟩ := hturns.perm keeps_result?
  rw [h.state_eq]
  exact hlast.isToBlame (hfinish.of_perm hlost)

namespace Accounted

/-- Nothing was done yet. -/
theorem of_unrolled (h : Unrolled ts turns q) (hfinish : AllFinish q) :
    Accounted ts turns q none where
  exists_interleaves := h.exists_interleaves
  isToBlame cause hcause := by cases hcause
  unrolled _ := h
  allFinish _ := hfinish

/-- It is of no account to what a task comes that was never admitted. -/
theorem of_fault (h : Accounted ts turns q fault) (hfault : fault ≠ none) (more : List τ) :
    Accounted (ts ++ more) turns q fault where
  exists_interleaves := by
    obtain ⟨left, hleft⟩ := h.exists_interleaves
    refine ⟨left ++ more.map journey, ?_⟩
    rw [List.map_append]
    exact hleft.append_idle _
  isToBlame := h.isToBlame
  unrolled hnone := absurd hnone hfault
  allFinish hnone := absurd hnone hfault

/-- A loop, whatever ended it. -/
theorem of_works (h : Unrolled ts turns q) (hfinish : AllFinish q) {d : Progress Q τ ρ}
    {earlier : List (Turn τ ρ)} {last : Advance Q τ ρ} (hworks : Works q d earlier last)
    (hblame : ∀ cause, fault = some cause → IsToBlame d.state cause) :
    Accounted ts (turns ++ d.turns.toList) d.state fault := by
  have hunrolled := invariant_unrolled.of_works h hworks
  obtain ⟨lost, hlost⟩ := hworks.perm keeps_result?
  exact ⟨hunrolled.exists_interleaves, hblame, fun _ => hunrolled, fun _ => hfinish.of_perm hlost⟩

theorem drain (h : Unrolled ts turns q) (hfinish : AllFinish q) :
    Accounted ts (turns ++ (ReadyQueue.drain q : Progress Q τ ρ).turns.toList)
      (ReadyQueue.drain q : Progress Q τ ρ).state (ReadyQueue.drain q : Progress Q τ ρ).fault := by
  cases (drains q : Drains q (ReadyQueue.drain q : Progress Q τ ρ)) with
  | idle hworks hfault =>
    rw [hfault]
    exact of_works h hfinish hworks fun cause hcause => by cases hcause
  | failed hworks hfault =>
    rw [hfault]
    refine of_works h hfinish hworks fun cause hcause => ?_
    cases hcause
    exact hworks.isToBlame hfinish

theorem drainToFinish (h : Unrolled ts turns q) (hfinish : AllFinish q) :
    Accounted ts (turns ++ (ReadyQueue.drainToFinish q : Progress Q τ ρ).turns.toList)
      (ReadyQueue.drainToFinish q : Progress Q τ ρ).state
      (ReadyQueue.drainToFinish q : Progress Q τ ρ).fault := by
  cases (awaits q : Awaits q (ReadyQueue.drainToFinish q : Progress Q τ ρ)) with
  | finished hworks _ _ hfault =>
    rw [hfault]
    exact of_works h hfinish hworks fun cause hcause => by cases hcause
  | idle hworks _ hfault =>
    rw [hfault]
    refine of_works h hfinish hworks fun cause hcause => ?_
    cases hcause
    exact .inl rfl
  | failed hworks _ hfault =>
    rw [hfault]
    refine of_works h hfinish hworks fun cause hcause => ?_
    cases hcause
    exact hworks.isToBlame hfinish

end Accounted

/-! ### Pools -/

/-- What can be said of the tasks `ts`, after the turns `past` and an operation on a pool. -/
def Progress.Accounts (d : Progress (StreamPool Q) τ ρ) (ts : List τ) (past : List (Turn τ ρ)) :
    Prop :=
  Accounted ts (past ++ d.turns.toList) d.state.queue d.fault

namespace StreamPool

variable {p : StreamPool Q} {d : Progress (StreamPool Q) τ ρ}

/-- A pool on which nothing was done. -/
theorem accounts_of_unrolled (h : Unrolled ts turns p.queue) (hfinish : AllFinish p.queue) :
    Progress.Accounts { state := p } ts turns := by
  rw [Progress.Accounts, Array.toList_empty, List.append_nil]
  exact .of_unrolled h hfinish

/-- An operation, and the next one, which is to admit the tasks `more`. -/
theorem accounts_andThen (h : d.Accounts ts turns)
    {next : StreamPool Q → Progress (StreamPool Q) τ ρ}
    (hnext : ∀ past, Unrolled ts past d.state.queue → AllFinish d.state.queue →
      (next d.state).Accounts (ts ++ more) past) :
    (d.andThen next).Accounts (ts ++ more) turns := by
  unfold Progress.Accounts at h ⊢
  cases hfault : d.fault with
  | none =>
    rw [Progress.andThen_of_none hfault, Array.toList_append, ← List.append_assoc]
    exact hnext _ (h.unrolled hfault) (h.allFinish hfault)
  | some cause =>
    rw [Progress.andThen_of_some hfault]
    exact h.of_fault (by rw [hfault]; exact Option.some_ne_none cause) more

theorem accounts_run (h : Unrolled ts turns p.queue) (hfinish : AllFinish p.queue) :
    (p.run : Progress (StreamPool Q) τ ρ).Accounts ts turns :=
  Accounted.drain h hfinish

theorem accounts_makeRoom (h : Unrolled ts turns p.queue) (hfinish : AllFinish p.queue) :
    (p.makeRoom : Progress (StreamPool Q) τ ρ).Accounts ts turns := by
  unfold makeRoom
  split
  · exact Accounted.drainToFinish h hfinish
  · exact accounts_of_unrolled h hfinish

theorem accounts_launch (h : Unrolled ts turns p.queue) (hfinish : AllFinish p.queue)
    (ht : (result? t : Option ρ).isSome = true) :
    (p.launch t : Progress (StreamPool Q) τ ρ).Accounts (ts ++ [t]) turns := by
  have hscheduled := h.schedule t
  have hfinish' := hfinish.schedule ht
  rcases hschedule : schedule p.queue t with ⟨_ | cause, queue⟩
  · rw [hschedule] at hscheduled hfinish'
    rw [launch_of_accepted hschedule]
    exact accounts_of_unrolled hscheduled hfinish'
  · rw [launch_of_refused hschedule, Progress.Accounts, Array.toList_empty, List.append_nil]
    refine ⟨hscheduled.exists_interleaves, fun cause' hcause => ?_, fun hnone => ?_,
      fun hnone => ?_⟩
    · cases hcause
      exact .inr ⟨p.queue, t, hschedule⟩
    · cases hnone
    · cases hnone

theorem accounts_spawn (h : Unrolled ts turns p.queue) (hfinish : AllFinish p.queue)
    (ht : (result? t : Option ρ).isSome = true) :
    (p.spawn t : Progress (StreamPool Q) τ ρ).Accounts (ts ++ [t]) turns := by
  rw [spawn_eq]
  exact accounts_andThen (accounts_makeRoom h hfinish) fun _ hunrolled hfinish =>
    accounts_launch hunrolled hfinish ht

/-- To admit the tasks of a batch one after the other. -/
theorem accounts_foldl_spawn (h : d.Accounts ts turns)
    (hmore : ∀ t ∈ more, (result? t : Option ρ).isSome = true) :
    (more.foldl (fun progress t => progress.andThen (·.spawn t)) d).Accounts (ts ++ more)
      turns := by
  induction more generalizing ts d with
  | nil => rwa [List.append_nil]
  | cons t more ih =>
    rw [List.append_cons, List.foldl_cons]
    apply ih _ fun t' hmem => hmore t' (List.mem_cons_of_mem t hmem)
    exact accounts_andThen h fun _ hunrolled hfinish =>
      accounts_spawn hunrolled hfinish (hmore t List.mem_cons_self)

/-- To admit a batch to a pool over an empty queue, to run and to close the pool: whatever the queue
does, nothing is done twice or in a wrong order, and no task is to blame for a fault. -/
theorem accounted_of_batch {queue : Q} {streams : Nat} (hpool : ofQueue queue streams = .ok p)
    (hnil : tasks queue = []) (hresults : ∀ t ∈ ts, (result? t : Option ρ).isSome = true) :
    let ran : Progress (StreamPool Q) τ ρ := (p.spawnAll ts).andThen (·.run)
    let closed : Progress Q τ ρ := ran.state.close
    Accounted ts ran.turns.toList ran.state.queue ran.fault ∧
      (ran.fault = none →
        Accounted ts (ran.turns ++ closed.turns).toList closed.state closed.fault) := by
  intro ran closed
  obtain ⟨-, -, hopened⟩ := ofQueue_eq_ok hpool
  have hempty : tasks p.queue = [] := by rwa [hopened]
  have hstart : Progress.Accounts ({ state := p } : Progress (StreamPool Q) τ ρ) [] [] :=
    accounts_of_unrolled (.of_tasks_eq_nil hempty) (.of_tasks_eq_nil hempty)
  have hspawned : (p.spawnAll ts : Progress (StreamPool Q) τ ρ).Accounts ts [] :=
    accounts_foldl_spawn hstart hresults
  have hran : ran.Accounts (ts ++ []) [] := by
    apply accounts_andThen hspawned
    rw [List.append_nil]
    exact fun _ hunrolled hfinish => accounts_run hunrolled hfinish
  rw [List.append_nil] at hran
  refine ⟨hran, fun hfault => ?_⟩
  rw [Array.toList_append]
  exact .drain (hran.unrolled hfault) (hran.allFinish hfault)

end StreamPool

end BulkLookup
