import BulkLookup.Proofs.Work.Ledger

/-!
# Invariants of pools

Whatever a pool does comes down to three things that happen to its queue: an attempt to advance it,
and a task that it accepts or refuses. What these keep, a pool keeps, through every loop, every call
and every sequence of calls. Here this is said once, for relations between the queue, the tasks
admitted so far and the turns taken so far.

Not every queue that refuses a task is as it was before. Therefore refusals stand apart: what holds
up to the first of them needs less than what holds of any sequence of calls.

## Main definitions

* `Invariant` — what is kept when the queue is advanced or accepts a task
* `Invariant.Lasting` — what is kept also when the queue refuses a task

## Main results

* `Invariant.drain`, `Invariant.drainToFinish` — loops keep invariants
* `Invariant.Lasting.call`, `Invariant.Lasting.record` — calls keep lasting invariants
-/

namespace BulkLookup

universe u v w

open ReadyQueue

variable {Q : Type w} {τ : Type u} {ρ : Type v} [ReadyQueue Q τ] [Resumable τ ρ]

/-- What holds of a queue, of the tasks admitted and of the turns taken so far is kept when the
queue is advanced, and when it accepts a task. -/
structure Invariant (R : Q → List τ → List (Turn τ ρ) → Prop) : Prop where
  attempt : ∀ {q : Q} {ts : List τ} {turns : List (Turn τ ρ)} {a : Advance Q τ ρ},
    R q ts turns → Advanced q a → R a.queue ts (turns ++ a.turns)
  accept : ∀ {q q' : Q} {ts : List τ} {turns : List (Turn τ ρ)} {t : τ},
    R q ts turns → schedule q t = (none, q') → R q' (ts ++ [t]) turns

/-- It is also kept when the queue refuses a task. -/
structure Invariant.Lasting (R : Q → List τ → List (Turn τ ρ) → Prop) : Prop extends
    Invariant R where
  refuse : ∀ {q q' : Q} {ts : List τ} {turns : List (Turn τ ρ)} {t : τ} {fault : Fault},
    R q ts turns → schedule q t = (some fault, q') → R q' ts turns

variable {R : Q → List τ → List (Turn τ ρ) → Prop} {q q' : Q} {ts : List τ}
  {turns turns' : List (Turn τ ρ)} {p : StreamPool Q}

namespace Invariant

/-! ### Loops -/

theorem of_turns (h : Invariant R) (hR : R q ts turns) (hturns : Turns q turns' q') :
    R q' ts (turns ++ turns') := by
  induction hturns generalizing turns with
  | nil q => rwa [List.append_nil]
  | cons hturn _ ih =>
    rw [List.append_cons]
    exact ih (h.attempt hR hturn)

theorem of_works (h : Invariant R) (hR : R q ts turns) {d : Progress Q τ ρ}
    {earlier : List (Turn τ ρ)} {last : Advance Q τ ρ} (hworks : Works q d earlier last) :
    R d.state ts (turns ++ d.turns.toList) := by
  obtain ⟨q', hturns, hlast⟩ := hworks.exists_turns
  rw [hworks.state_eq, hworks.turns_eq, ← List.append_assoc]
  exact h.attempt (h.of_turns hR hturns) hlast

theorem drain (h : Invariant R) (hR : R q ts turns) :
    R (ReadyQueue.drain q : Progress Q τ ρ).state ts
      (turns ++ (ReadyQueue.drain q : Progress Q τ ρ).turns.toList) := by
  cases (drains q : Drains q (ReadyQueue.drain q : Progress Q τ ρ)) with
  | idle hworks => exact h.of_works hR hworks
  | failed hworks => exact h.of_works hR hworks

theorem drainToFinish (h : Invariant R) (hR : R q ts turns) :
    R (ReadyQueue.drainToFinish q : Progress Q τ ρ).state ts
      (turns ++ (ReadyQueue.drainToFinish q : Progress Q τ ρ).turns.toList) := by
  cases (awaits q : Awaits q (ReadyQueue.drainToFinish q : Progress Q τ ρ)) with
  | finished hworks => exact h.of_works hR hworks
  | idle hworks => exact h.of_works hR hworks
  | failed hworks => exact h.of_works hR hworks

/-! ### Pools -/

theorem makeRoom (h : Invariant R) (hR : R p.queue ts turns) :
    R (p.makeRoom : Progress (StreamPool Q) τ ρ).state.queue ts
      (turns ++ (p.makeRoom : Progress (StreamPool Q) τ ρ).turns.toList) := by
  unfold StreamPool.makeRoom
  split
  · exact h.drainToFinish hR
  · rwa [Array.toList_empty, List.append_nil]

theorem run (h : Invariant R) (hR : R p.queue ts turns) :
    R (p.run : Progress (StreamPool Q) τ ρ).state.queue ts
      (turns ++ (p.run : Progress (StreamPool Q) τ ρ).turns.toList) :=
  h.drain hR

namespace Lasting

theorem launch (h : Lasting R) (hR : R p.queue ts turns) (t : τ) :
    R (p.launch t : Progress (StreamPool Q) τ ρ).state.queue
      (ts ++ (p.launch t : Progress (StreamPool Q) τ ρ).admits t)
      (turns ++ (p.launch t : Progress (StreamPool Q) τ ρ).turns.toList) := by
  rcases hschedule : schedule p.queue t with ⟨_ | fault, queue⟩
  · rw [StreamPool.launch_of_accepted hschedule, Array.toList_empty, List.append_nil]
    exact h.accept hR hschedule
  · rw [StreamPool.launch_of_refused hschedule, Array.toList_empty, List.append_nil]
    have hrefused := h.refuse hR hschedule
    rwa [← List.append_nil ts] at hrefused

theorem spawn (h : Lasting R) (hR : R p.queue ts turns) (t : τ) :
    R (p.spawn t : Progress (StreamPool Q) τ ρ).state.queue
      (ts ++ (p.spawn t : Progress (StreamPool Q) τ ρ).admits t)
      (turns ++ (p.spawn t : Progress (StreamPool Q) τ ρ).turns.toList) := by
  have hroom := h.makeRoom hR
  rw [StreamPool.spawn_eq]
  cases hfault : (p.makeRoom : Progress (StreamPool Q) τ ρ).fault with
  | none =>
    have hlaunch := h.launch hroom t
    rw [Progress.admits_congr (Progress.fault_andThen_of_none hfault),
      Progress.andThen_of_none hfault, Array.toList_append, ← List.append_assoc]
    exact hlaunch
  | some fault =>
    rwa [Progress.andThen_of_some hfault, Progress.admits, hfault, List.append_nil]

theorem call (h : Lasting R) (hR : R p.queue ts turns) (call : PoolCall τ) :
    R (p.call call : Progress (StreamPool Q) τ ρ).state.queue (ts ++ call.admitted (p.call call))
      (turns ++ (p.call call : Progress (StreamPool Q) τ ρ).turns.toList) := by
  cases call with
  | spawn t => exact h.spawn hR t
  | run =>
    have hrun := h.run hR
    rwa [← List.append_nil ts] at hrun

/-- What a queue and an empty ledger satisfy, the ledger satisfies after any sequence of calls. -/
theorem record (h : Lasting R) {l : Ledger Q τ ρ} (hR : R l.pool.queue l.admitted l.turns)
    (calls : List (PoolCall τ)) :
    R (l.record calls).pool.queue (l.record calls).admitted (l.record calls).turns := by
  induction calls generalizing l with
  | nil => exact hR
  | cons call calls ih => exact ih (h.call hR call)

end Lasting

end Invariant

/-! ### Tasks that come to results -/

section AllFinish

open Resumable

theorem ReadyQueue.AllFinish.attempt (h : AllFinish q) {a : Advance Q τ ρ} (ha : Advanced q a) :
    AllFinish a.queue := by
  obtain ⟨lost, hlost⟩ := ha.perm keeps_result?
  exact h.of_perm hlost

theorem ReadyQueue.AllFinish.schedule (h : AllFinish q) {t : τ}
    (ht : (result? t : Option ρ).isSome = true) : AllFinish (schedule q t).2 := by
  intro t' hmem
  obtain ⟨lost, hlost⟩ := tasks_schedule q t
  rcases List.mem_cons.1 (hlost.mem_iff.2 (List.mem_append_left lost hmem)) with rfl | hmem
  · exact ht
  · exact h t' hmem

end AllFinish

end BulkLookup
