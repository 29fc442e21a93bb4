import BulkLookup.Proofs.Work.Turns

/-!
# Queues that are worked off without a fault

A loop over a queue fails when a task meets a fault of its own, or when the queue does not take a
task back after its turn. On a queue that loses nothing, neither happens as long as every task comes
to a result and the queue is in a state from which it takes back whatever it hands out. Such states
are given by a predicate that the loops do not leave.

## Main definitions

* `ReadyQueue.TakesBack` — queues that always take back what they have handed out
* `ReadyQueue.Steady` — states from which a queue takes back whatever it hands out
* `ReadyQueue.AllFinish` — every task in a queue comes to a result

## Main results

* `ReadyQueue.HasRoom.exists_steady` — a queue with room for what it holds is in such a state
* `ReadyQueue.Steady.drain_spec` — working a queue off meets no fault and leaves no task
* `ReadyQueue.Steady.drainToFinish_spec` — waiting ends with a task that finishes, if there is one
-/

namespace BulkLookup

universe u v w

variable {Q : Type w} {τ : Type u} {ρ : Type v}

namespace ReadyQueue

section Laws

variable (Q) [ReadyQueue Q τ]

/-- A queue that accepts every task in place of one that it has just handed out. -/
class TakesBack : Prop where
  schedule_takeNext : ∀ (q : Q) (t : τ), (takeNext q).1.isSome = true →
    (schedule (takeNext q).2 t).1 = none

end Laws

instance : TakesBack (Ring τ) where
  schedule_takeNext r t h := by
    apply Ring.schedule_eq_none_iff.2
    have htasks := congrArg List.length r.tasks_takeNext
    obtain ⟨first, hfirst⟩ := Option.isSome_iff_exists.1 h
    change r.takeNext.1 = some first at hfirst
    rw [hfirst, Ring.length_tasks, Option.toList_some, List.singleton_append, List.length_cons,
      Ring.length_tasks] at htasks
    change r.takeNext.2.length < r.takeNext.2.capacity
    rw [r.capacity_takeNext]
    have hle : r.length ≤ r.capacity := r.length_le
    omega

instance : TakesBack (Fifo τ) := ⟨fun _ _ _ => rfl⟩

instance : TakesBack (Stack τ) := ⟨fun _ _ _ => rfl⟩

instance [ReadyQueue Q τ] [TakesBack Q] : TakesBack (Metered Q) where
  schedule_takeNext m t h := by
    change (Metered.schedule m.takeNext.2 t).1 = none
    rw [Metered.fst_schedule]
    exact TakesBack.schedule_takeNext m.queue t h

variable [ReadyQueue Q τ]

/-- States that taking a task out does not leave, and from which a queue takes back whatever it
hands out. -/
structure Steady (fits : Q → Prop) : Prop where
  takeNext : ∀ q, fits q → fits (takeNext q).2
  accepts : ∀ q t, fits q → (ReadyQueue.takeNext q).1.isSome = true →
    (schedule (ReadyQueue.takeNext q).2 t).1 = none
  schedule : ∀ q t, fits q → (ReadyQueue.takeNext q).1.isSome = true →
    fits (schedule (ReadyQueue.takeNext q).2 t).2

theorem steady_of_takesBack [TakesBack Q] : Steady fun _ : Q => True where
  takeNext _ _ := trivial
  accepts q t _ h := TakesBack.schedule_takeNext q t h
  schedule _ _ _ _ := trivial

/-- A queue that loses nothing knows whether it is empty. -/
theorem isEmpty_iff [LosesNothing Q] {q : Q} : isEmpty q = true ↔ tasks q = [] := by
  rw [isEmpty, LosesNothing.length_eq, beq_iff_eq, List.length_eq_zero_iff]

/-- A queue with room for a number of tasks has room for fewer. -/
theorem HasRoom.mono {q : Q} {m n : Nat} (h : HasRoom q n) (hle : m ≤ n) : HasRoom q m := by
  obtain ⟨fits, hq, haccepts, hfits⟩ := h
  exact ⟨fits, hq, fun q t hq hlt => haccepts q t hq (Nat.lt_of_lt_of_le hlt hle), hfits⟩

/-- A queue that loses nothing and has room for as many tasks as it holds takes back whatever it
hands out, and goes on accepting tasks as long as there is room. -/
theorem HasRoom.exists_steady [LosesNothing Q] {q : Q} {n : Nat} (h : HasRoom q n)
    (hle : (tasks q).length ≤ n) :
    ∃ fits : Q → Prop, fits q ∧ Steady fits ∧ ∀ q t, fits q → (tasks q).length < n →
      (ReadyQueue.schedule q t).1 = none ∧ fits (ReadyQueue.schedule q t).2 := by
  obtain ⟨fits, hq, haccepts, hschedule, htake⟩ := h
  -- What is put in where there is room is accepted, and fills the queue no further than that.
  have hroom : ∀ q t, fits q → (tasks q).length < n →
      (schedule q t).1 = none ∧ fits (schedule q t).2 ∧ (tasks (schedule q t).2).length ≤ n := by
    intro q t hq hlt
    have haccepted := haccepts q t hq hlt
    refine ⟨haccepted, hschedule q t hq, ?_⟩
    rw [(LosesNothing.perm_schedule q t haccepted).length_eq]
    exact hlt
  -- A task that was handed out leaves room behind.
  have hhanded : ∀ q, fits q → (tasks q).length ≤ n → (ReadyQueue.takeNext q).1.isSome = true →
      (tasks (ReadyQueue.takeNext q).2).length < n := by
    intro q _ hle hsome
    obtain ⟨t, ht⟩ := Option.isSome_iff_exists.1 hsome
    rw [length_of_takeNext (Prod.ext ht rfl)] at hle
    exact hle
  refine ⟨fun q => fits q ∧ (tasks q).length ≤ n, ⟨hq, hle⟩, ⟨?_, ?_, ?_⟩, ?_⟩
  · rintro q ⟨hq, hle⟩
    refine ⟨htake q hq, ?_⟩
    rw [length_takeNext q] at hle
    exact Nat.le_trans (Nat.le_add_left _ _) hle
  · rintro q t ⟨hq, hle⟩ hsome
    exact (hroom _ t (htake q hq) (hhanded q hq hle hsome)).1
  · rintro q t ⟨hq, hle⟩ hsome
    exact (hroom _ t (htake q hq) (hhanded q hq hle hsome)).2
  · rintro q t ⟨hq, hle⟩ hlt
    exact hroom q t hq hlt

variable [Resumable τ ρ]

/-- Every task in a queue comes to a result. -/
def AllFinish (q : Q) : Prop := ∀ t ∈ tasks q, (Resumable.result? t : Option ρ).isSome = true

variable {q q' : Q} {fits : Q → Prop}

theorem AllFinish.of_tasks_eq_nil (h : tasks q = []) : AllFinish q := by
  intro t hmem
  rw [h] at hmem
  cases hmem

theorem mem_of_takeNext {t : τ} (h : takeNext q = (some t, q')) : t ∈ tasks q := by
  obtain ⟨lost, hlost⟩ := exists_perm_of_takeNext h
  exact hlost.mem_iff.2 List.mem_cons_self

/-- A task that comes to a result meets no fault. -/
theorem AllFinish.resume_ne_error (h : AllFinish q) {t : τ} (htake : takeNext q = (some t, q'))
    {fault : Fault} : Resumable.resume t ≠ .error fault := by
  intro hresume
  have hsome := h t (mem_of_takeNext htake)
  rw [Resumable.result?_of_error hresume] at hsome
  cases hsome

/-- Tasks among those that come to results come to results. -/
theorem AllFinish.of_perm (h : AllFinish q) {others lost : List (Option ρ)}
    (hperm : ((tasks q).map (Resumable.result? : τ → Option ρ)).Perm
      (others ++ (tasks q').map Resumable.result? ++ lost)) : AllFinish q' := by
  intro t hmem
  have hmem' : (Resumable.result? t : Option ρ) ∈ (tasks q).map Resumable.result? := by
    apply hperm.mem_iff.2
    exact List.mem_append_left _ (List.mem_append_right _ (List.mem_map_of_mem hmem))
  obtain ⟨t', hmem, heq⟩ := List.mem_map.1 hmem'
  rw [← heq]
  exact h t' hmem

namespace Steady

/-- Where every task comes to a result, an attempt does not fail. -/
theorem not_failed (h : Steady fits) (hq : fits q) (hfinish : AllFinish q)
    {turn : Option (Turn τ ρ)} {fault : Fault} : ¬ Advanced q (.failed q' turn fault) := by
  intro hfailed
  cases hfailed with
  | broke htake hresume => exact hfinish.resume_ne_error htake hresume
  | @refused _ _ t t' _ htake hresume hschedule =>
    have haccepts := h.accepts q t' hq (by rw [htake]; rfl)
    rw [htake, hschedule] at haccepts
    cases haccepts

theorem fits_of_took (h : Steady fits) (hq : fits q) {turn : Turn τ ρ}
    (htook : Advanced q (.took q' turn)) : fits q' := by
  cases htook with
  | finished htake hresume =>
    have hfits := h.takeNext q hq
    rwa [htake] at hfits
  | @suspended _ _ t t' htake hresume hschedule =>
    have hfits := h.schedule q t' hq (by rw [htake]; rfl)
    rwa [htake, hschedule] at hfits

/-- Turns do not leave the states from which the queue takes tasks back. -/
theorem fits_of_turns (h : Steady fits) {turns : List (Turn τ ρ)} (hturns : Turns q turns q')
    (hq : fits q) (hfinish : AllFinish q) : fits q' ∧ AllFinish q' := by
  induction hturns with
  | nil q => exact ⟨hq, hfinish⟩
  | cons htook _ ih =>
    obtain ⟨lost, hlost⟩ := htook.perm Resumable.keeps_result?
    exact ih (h.fits_of_took hq htook) (hfinish.of_perm hlost)

/-- A loop whose last attempt failed cannot have been worked from such a state. -/
theorem not_works (h : Steady fits) (hq : fits q) (hfinish : AllFinish q) {p : Progress Q τ ρ}
    {earlier : List (Turn τ ρ)} {turn : Option (Turn τ ρ)} {fault : Fault} :
    ¬ Works q p earlier (.failed q' turn fault) := by
  intro hworks
  obtain ⟨q₁, hturns, hfailed⟩ := hworks.exists_turns
  obtain ⟨hq₁, hfinish₁⟩ := h.fits_of_turns hturns hq hfinish
  exact h.not_failed hq₁ hfinish₁ hfailed

/-- After a loop, the queue still takes tasks back. -/
theorem fits_of_works (h : Steady fits) (hq : fits q) (hfinish : AllFinish q)
    {p : Progress Q τ ρ} {earlier : List (Turn τ ρ)} {last : Advance Q τ ρ}
    (hworks : Works q p earlier last) : fits p.state ∧ AllFinish p.state := by
  obtain ⟨lost, hlost⟩ := hworks.perm Resumable.keeps_result?
  refine ⟨?_, hfinish.of_perm hlost⟩
  obtain ⟨q₁, hturns, hlast⟩ := hworks.exists_turns
  obtain ⟨hq₁, hfinish₁⟩ := h.fits_of_turns hturns hq hfinish
  rw [hworks.state_eq]
  cases last with
  | idle q' =>
    cases hlast with
    | idle htake =>
      have hfits := h.takeNext q₁ hq₁
      rwa [htake] at hfits
  | took q' turn => exact h.fits_of_took hq₁ hlast
  | failed q' turn fault => exact absurd hlast (h.not_failed hq₁ hfinish₁)

/-- Working a queue off meets no fault, lets every task finish and leaves none. -/
theorem drain_spec [LosesNothing Q] (h : Steady fits) (hq : fits q) (hfinish : AllFinish q) :
    (drain q).fault = none ∧ tasks (drain q).state = [] ∧ (drain q).finishes = (tasks q).length ∧
      fits (drain q).state := by
  cases drains q with
  | idle hworks hfault =>
    obtain ⟨q₁, -, hidle⟩ := hworks.exists_turns
    have hnil : tasks (drain q).state = [] := by
      rw [hworks.state_eq]
      exact hidle.tasks_eq_nil
    have hlength := hworks.length_eq
    rw [hnil, Advance.losses] at hlength
    exact ⟨hfault, hnil, hlength.symm, (h.fits_of_works hq hfinish hworks).1⟩
  | failed hworks => exact absurd hworks (h.not_works hq hfinish)

/-- In a queue that loses nothing and holds a task, waiting ends with one that finishes. -/
theorem drainToFinish_spec [LosesNothing Q] (h : Steady fits) (hq : fits q)
    (hfinish : AllFinish q) (hne : tasks q ≠ []) :
    (drainToFinish q).fault = none ∧ (drainToFinish q).finishes = 1 ∧
      (tasks q).length = (tasks (drainToFinish q).state).length + 1 ∧
      fits (drainToFinish q).state ∧ AllFinish (drainToFinish q).state := by
  cases awaits q with
  | @finished earlier q' turn hworks hearlier hturn hfault =>
    have hone := hworks.finishes_eq_one hearlier hturn
    have hlength := hworks.length_eq
    rw [hone, Advance.losses] at hlength
    refine ⟨hfault, hone, ?_, h.fits_of_works hq hfinish hworks⟩
    omega
  | idle hworks hearlier hfault =>
    -- No task has left the queue, and yet it is empty.
    exfalso
    obtain ⟨q₁, hturns, hidle⟩ := hworks.exists_turns
    have hlength := hturns.length_eq
    have hempty := hidle.length_eq
    rw [hearlier] at hlength
    rw [Advance.queue, hidle.tasks_eq_nil] at hempty
    apply hne
    apply List.eq_nil_of_length_eq_zero
    rw [hlength, hempty]
    rfl
  | failed hworks => exact absurd hworks (h.not_works hq hfinish)

end Steady

end ReadyQueue

end BulkLookup
