import BulkLookup.Proofs.Work.Interleaves
import BulkLookup.Proofs.Work.Invariants
import Mathlib.Algebra.GroupWithZero.Nat

/-!
# The journeys of tasks

The journey of a task is the list of the turns that it takes when it is resumed again and again,
until it finishes. Which journeys there are is up to the tasks alone. Whatever a queue does, the
turns taken on it interleave the journeys of the tasks that were put in: a task is never resumed but
where its journey goes on, and never beyond the end. Where the queue loses tasks, their journeys
break off.

## Main definitions

* `Resumable.journey` — the turns of a task that is resumed until it finishes
* `Resumable.FinishesAfter` — a task suspends a given number of times and then finishes
* `ReadyQueue.Unrolled` — the turns taken so far interleave the journeys of some tasks

## Main results

* `Resumable.FinishesAfter.map_isFinish_journey` — only the last turn of a journey is a finish
* `ReadyQueue.Advanced.interleaves` — an attempt to advance a queue carries on one journey
* `ReadyQueue.Unrolled.attempt`, `ReadyQueue.Unrolled.schedule` — turns interleave journeys for good
-/

namespace BulkLookup

universe u v w x

variable {Q : Type w} {τ : Type u} {ρ : Type v} {ι : Type x}

namespace Resumable

variable [Resumable τ ρ]

/-! ### Journeys -/

/-- The turns that a task takes when it is resumed until it finishes, or until it meets a fault. -/
def journey (t : τ) : List (Turn τ ρ) :=
  match _h : resume t with
  | .error _ => []
  | .ok (_, .finished r) => [⟨t, some r⟩]
  | .ok (t', .suspended) => ⟨t, none⟩ :: journey t'
termination_by pausesLeft t
decreasing_by exact pausesLeft_lt ‹_›

variable {t t' : τ} {r : ρ} {n : Nat}

theorem journey_of_finished (h : resume t = .ok (t', .finished r)) : journey t = [⟨t, some r⟩] := by
  rw [journey]
  split <;> simp_all

theorem journey_of_suspended (h : resume t = .ok (t', .suspended)) :
    journey t = ⟨t, none⟩ :: journey t' := by
  rw [journey]
  split <;> simp_all

/-- A mark that resuming keeps stays on a task throughout its journey. -/
theorem Keeps.eq_of_mem_journey {mark : τ → ι} (hmark : Keeps mark) :
    ∀ turn ∈ journey t, mark turn.task = mark t := by
  fun_induction journey t with
  | case1 t fault hresume => exact fun turn hmem => absurd hmem List.not_mem_nil
  | case2 t t' r hresume =>
    intro turn hmem
    rw [List.mem_singleton.1 hmem]
  | case3 t t' hresume ih =>
    intro turn hmem
    rcases List.mem_cons.1 hmem with rfl | hmem
    · rfl
    · rw [ih turn hmem, hmark hresume]

/-- The result that a journey comes to, if any, comes with its last turn. -/
theorem filterMap_result_journey (t : τ) :
    (journey t).filterMap (·.result) = (result? t).toList := by
  fun_induction journey t with
  | case1 t fault hresume =>
    rw [result?_of_error hresume]
    rfl
  | case2 t t' r hresume =>
    rw [result?_of_finished hresume]
    rfl
  | case3 t t' hresume ih =>
    rw [List.filterMap_cons_none rfl, ih, result?_of_suspended hresume]

theorem result?_of_mem_journey {turn : Turn τ ρ} (hmem : turn ∈ journey t)
    (hr : turn.result = some r) : result? t = some r := by
  have hresult : r ∈ (journey t).filterMap (·.result) := List.mem_filterMap.2 ⟨turn, hmem, hr⟩
  rw [filterMap_result_journey] at hresult
  exact Option.mem_toList.1 hresult

/-! ### Tasks that finish -/

/-- A task suspends a given number of times and then finishes. -/
inductive FinishesAfter : τ → Nat → Prop where
  | now {t t' : τ} {r : ρ} : resume t = .ok (t', .finished r) → FinishesAfter t 0
  | later {t t' : τ} {n : Nat} : resume t = .ok (t', .suspended) → FinishesAfter t' n →
    FinishesAfter t (n + 1)

namespace FinishesAfter

/-- A task that suspends is one suspension nearer to its finish. -/
theorem of_suspended (h : FinishesAfter t n) (hresume : resume t = .ok (t', .suspended)) :
    ∃ m, n = m + 1 ∧ FinishesAfter t' m := by
  cases h with
  | now hresume' =>
    rw [hresume] at hresume'
    cases hresume'
  | later hresume' h =>
    rw [hresume] at hresume'
    cases hresume'
    exact ⟨_, rfl, h⟩

/-- A task that finishes has no suspension left. -/
theorem eq_zero_of_finished (h : FinishesAfter t n) (hresume : resume t = .ok (t', .finished r)) :
    n = 0 := by
  cases h with
  | now => rfl
  | later hresume' =>
    rw [hresume] at hresume'
    cases hresume'

theorem isSome_result? (h : FinishesAfter t n) : (result? t : Option ρ).isSome = true := by
  induction h with
  | now hresume => rw [result?_of_finished hresume, Option.isSome_some]
  | later hresume _ ih => rwa [← result?_of_suspended hresume]

/-- Only the last turn of a journey is a finish. -/
theorem map_isFinish_journey (h : FinishesAfter t n) :
    (journey t).map Turn.isFinish = List.replicate n false ++ [true] := by
  induction h with
  | now hresume =>
    rw [journey_of_finished hresume]
    rfl
  | later hresume _ ih =>
    rw [journey_of_suspended hresume, List.map_cons, ih]
    rfl

theorem length_journey (h : FinishesAfter t n) : (journey t).length = n + 1 := by
  have hlength := congrArg List.length h.map_isFinish_journey
  rwa [List.length_map, List.length_append, List.length_replicate] at hlength

end FinishesAfter

/-- A task that comes to a result does so after some number of suspensions. -/
theorem exists_finishesAfter (h : (result? t : Option ρ).isSome = true) :
    ∃ n, FinishesAfter t n := by
  fun_induction result? t with
  | case1 t fault hresume => cases h
  | case2 t t' r hresume => exact ⟨0, .now hresume⟩
  | case3 t t' hresume ih =>
    obtain ⟨n, hn⟩ := ih h
    exact ⟨n + 1, .later hresume hn⟩

end Resumable

open Resumable

/-- A countdown suspends as often as it says. -/
theorem Countdown.finishesAfter (c : Countdown) : FinishesAfter c c.pauses := by
  obtain ⟨id, pauses⟩ := c
  induction pauses with
  | zero => exact .now rfl
  | succ n ih => exact .later rfl ih

/-! ### Interleaved journeys -/

namespace Interleaves

variable [Resumable τ ρ] {ts : List τ} {turns : List (Turn τ ρ)} {left : List (List (Turn τ ρ))}
  {mark : τ → ι}

/-- A turn belongs to the journey of one of the tasks. -/
theorem exists_mem_journey (h : Interleaves (ts.map journey) turns left) {turn : Turn τ ρ}
    (hmem : turn ∈ turns) : ∃ t ∈ ts, turn ∈ journey t := by
  obtain ⟨run, hrun, hmem⟩ :=
    List.mem_flatten.1 (h.perm_flatten.mem_iff.2 (List.mem_append_left _ hmem))
  obtain ⟨t, ht, rfl⟩ := List.mem_map.1 hrun
  exact ⟨t, ht, hmem⟩

/-- The results of the turns are results to which the tasks come, each of them once. -/
theorem exists_perm_results (h : Interleaves (ts.map journey) turns left) :
    ∃ others, (ts.filterMap result?).Perm (turns.filterMap (·.result) ++ others) := by
  refine ⟨left.flatten.filterMap (·.result), ?_⟩
  have hresults := h.perm_flatten.filterMap (·.result)
  rw [List.filterMap_append, List.filterMap_flatten, List.map_map] at hresults
  have hjourneys : (ts.map (List.filterMap (·.result) ∘ journey)).flatten =
      ts.filterMap result? := by
    rw [List.filterMap_eq_flatMap_toList, List.flatMap_def]
    exact congrArg List.flatten (List.map_congr_left fun t _ => filterMap_result_journey t)
  rwa [hjourneys] at hresults

/-- How many turns there are, when all journeys are over. -/
theorem length_eq_sum (h : Interleaves (ts.map journey) turns (ts.map fun _ => []))
    {pauses : τ → Nat} (hpauses : ∀ t ∈ ts, FinishesAfter t (pauses t)) :
    turns.length = (ts.map fun t => pauses t + 1).sum := by
  have hlength := h.perm_flatten.length_eq
  have hnil : (ts.map fun _ => ([] : List (Turn τ ρ))).flatten = [] := by
    rw [List.map_const', List.flatten_replicate_nil]
  rw [hnil, List.append_nil, List.length_flatten, List.map_map] at hlength
  rw [← hlength]
  exact congrArg List.sum (List.map_congr_left fun t hmem => (hpauses t hmem).length_journey)

variable [DecidableEq ι]

/-- The turns of a task, known by its mark, begin its journey. -/
theorem exists_filter_append (h : Interleaves (ts.map journey) turns left) (hmark : Keeps mark)
    (hdistinct : (ts.map mark).Nodup) {t : τ} (hmem : t ∈ ts) :
    ∃ rest ∈ left, turns.filter (fun turn => mark turn.task = mark t) ++ rest = journey t := by
  obtain ⟨before, after, rfl⟩ := List.append_of_mem hmem
  have hperm : (before ++ t :: after).Perm (t :: (before ++ after)) := List.perm_middle
  have hnodup := (hperm.map mark).nodup_iff.1 hdistinct
  obtain ⟨rest, others, hleft, hfilter⟩ := h.exists_filter (hperm.map journey)
    (fun turn hturn => decide_eq_true (hmark.eq_of_mem_journey turn hturn)) (by
      intro run hrun turn hturn
      obtain ⟨t', ht', rfl⟩ := List.mem_map.1 hrun
      apply decide_eq_false
      rw [hmark.eq_of_mem_journey turn hturn]
      intro heq
      exact (List.nodup_cons.1 hnodup).1 (heq ▸ List.mem_map_of_mem ht'))
  exact ⟨rest, hleft.mem_iff.2 List.mem_cons_self, hfilter⟩

/-- A task that is not among them has no turn. -/
theorem filter_eq_nil (h : Interleaves (ts.map journey) turns left) (hmark : Keeps mark) {i : ι}
    (hnot : i ∉ ts.map mark) : turns.filter (fun turn => mark turn.task = i) = [] := by
  apply List.filter_eq_nil_iff.2
  intro turn hmem heq
  obtain ⟨t, ht, hturn⟩ := h.exists_mem_journey hmem
  rw [decide_eq_true_eq, hmark.eq_of_mem_journey turn hturn] at heq
  exact hnot (heq ▸ List.mem_map_of_mem ht)

end Interleaves

namespace ReadyQueue

variable [ReadyQueue Q τ] [Resumable τ ρ] {q q' : Q}

/-! ### One attempt -/

/-- To resume the task that a queue hands out and to put it back carries on its journey, whether or
not the queue accepts it. -/
theorem exists_interleaves_of_suspended {t t' : τ} (htake : takeNext q = (some t, q'))
    (hresume : resume t = .ok (t', .suspended)) :
    ∃ lost, Interleaves ((tasks q).map journey) [⟨t, none⟩]
      ((tasks (schedule q' t').2).map journey ++ lost) := by
  obtain ⟨lost, hlost⟩ := exists_perm_of_takeNext htake
  obtain ⟨lost', hlost'⟩ := tasks_schedule q' t'
  have htaken := hlost.map journey
  have hback := hlost'.map journey
  rw [List.map_cons, journey_of_suspended hresume, List.map_append] at htaken
  rw [List.map_cons, List.map_append] at hback
  refine ⟨lost'.map journey ++ lost.map journey, (Interleaves.single htaken).perm_right ?_⟩
  rw [← List.cons_append, ← List.append_assoc]
  exact hback.append_right _

/-- An attempt to advance a queue carries on the journey of one of its tasks, and that by one turn
at most. -/
theorem Advanced.interleaves {a : Advance Q τ ρ} (h : Advanced q a) :
    ∃ lost, Interleaves ((tasks q).map journey) a.turns
      ((Turn.finishers a.turns).map (fun _ => []) ++ (tasks a.queue).map journey ++ lost) := by
  cases h with
  | @idle q' htake =>
    obtain ⟨lost, hlost⟩ := tasks_takeNext q
    rw [htake] at hlost
    refine ⟨lost.map journey, .nil ?_⟩
    have hmap := hlost.map (journey : τ → List (Turn τ ρ))
    rwa [List.map_append] at hmap
  | @finished q' t t' r htake hresume =>
    obtain ⟨lost, hlost⟩ := exists_perm_of_takeNext htake
    have hmap := hlost.map journey
    rw [List.map_cons, journey_of_finished hresume, List.map_append] at hmap
    exact ⟨lost.map journey, .single hmap⟩
  | @suspended q₁ q' t t' htake hresume hschedule =>
    have hback := exists_interleaves_of_suspended htake hresume
    rw [hschedule] at hback
    exact hback
  -- The journey of the task that met the fault is over.
  | @broke q' t fault htake hresume =>
    obtain ⟨lost, hlost⟩ := exists_perm_of_takeNext htake
    have hmap := hlost.map journey
    rw [List.map_cons, List.map_append] at hmap
    exact ⟨journey t :: lost.map journey, .nil (hmap.trans List.perm_middle.symm)⟩
  | @refused q₁ q' t t' fault htake hresume hschedule =>
    have hback := exists_interleaves_of_suspended htake hresume
    rw [hschedule] at hback
    exact hback

/-! ### All turns -/

/-- The turns taken so far interleave the journeys of the tasks `ts`. The journeys of the tasks that
finished are over, the tasks in the queue have the rest of theirs before them, and some are lost. -/
def Unrolled (ts : List τ) (turns : List (Turn τ ρ)) (q : Q) : Prop :=
  ∃ lost, Interleaves (ts.map journey) turns
    ((Turn.finishers turns).map (fun _ => []) ++ (tasks q).map journey ++ lost)

namespace Unrolled

variable {ts : List τ} {turns : List (Turn τ ρ)}

/-- An empty queue, on which no turn was taken. -/
theorem of_tasks_eq_nil (h : tasks q = []) : Unrolled [] ([] : List (Turn τ ρ)) q := by
  refine ⟨[], .nil ?_⟩
  rw [h]
  exact .refl _

theorem exists_interleaves (h : Unrolled ts turns q) :
    ∃ left, Interleaves (ts.map journey) turns left := by
  obtain ⟨lost, hlost⟩ := h
  exact ⟨_, hlost⟩

/-- What is left over when a task leaves the queue, or never gets into it, is lost. -/
theorem of_perm (h : Unrolled ts turns q) {lost : List τ}
    (hperm : (tasks q).Perm (tasks q' ++ lost)) : Unrolled ts turns q' := by
  obtain ⟨lost', hlost'⟩ := h
  refine ⟨lost.map journey ++ lost', hlost'.perm_right ?_⟩
  have hmap := hperm.map (journey : τ → List (Turn τ ρ))
  rw [List.map_append] at hmap
  rw [← List.append_assoc, List.append_assoc _ _ (lost.map journey)]
  exact (hmap.append_left _).append_right _

/-- An attempt carries on the journeys. -/
theorem attempt (h : Unrolled ts turns q) {a : Advance Q τ ρ} (ha : Advanced q a) :
    Unrolled ts (turns ++ a.turns) a.queue := by
  obtain ⟨lost, hlost⟩ := h
  obtain ⟨lost', hlost'⟩ := ha.interleaves
  refine ⟨lost' ++ lost, ?_⟩
  -- The journeys that are over, or lost, stay as they are.
  have hqueued := hlost'.append_idle ((Turn.finishers turns).map (fun _ => []) ++ lost)
  refine (hlost.append (hqueued.perm_left ?_)).perm_right ?_
  · rw [List.append_assoc]
    exact List.perm_append_comm_assoc _ _ _
  · refine (List.perm_append_comm_assoc _ _ _).trans (.of_eq ?_)
    rw [Turn.finishers_append, List.map_append]
    simp only [List.append_assoc]

/-- Another task has its whole journey before it. -/
theorem schedule (h : Unrolled ts turns q) (t : τ) :
    Unrolled (ts ++ [t]) turns (schedule q t).2 := by
  obtain ⟨lost, hlost⟩ := h
  obtain ⟨lost', hlost'⟩ := tasks_schedule q t
  have hmap := (hlost'.map journey).append_right lost
  rw [List.map_cons, List.map_append] at hmap
  refine ⟨lost'.map journey ++ lost, ?_⟩
  rw [List.map_append]
  refine (hlost.append_idle _).perm_right ((List.perm_append_singleton _ _).trans ?_)
  rw [List.append_assoc, List.append_assoc, ← List.append_assoc _ (lost'.map journey)]
  exact List.perm_middle.symm.trans (hmap.append_left _)

/-- A task that the queue refuses, and does not hold all the same, is of no account. -/
theorem refuse [DropsRefused Q] (h : Unrolled ts turns q) {t : τ}
    (hrefused : (ReadyQueue.schedule q t).1 ≠ none) :
    Unrolled ts turns (ReadyQueue.schedule q t).2 := by
  obtain ⟨lost, hlost⟩ := DropsRefused.perm_refused q t hrefused
  exact h.of_perm hlost

/-- When as many tasks have finished as there are, none is in the queue or lost, and all journeys
are over. -/
theorem of_finished (h : Unrolled ts turns q)
    (hfinished : (Turn.finishers turns).length = ts.length) :
    tasks q = [] ∧ Interleaves (ts.map journey) turns (ts.map fun _ => []) := by
  obtain ⟨lost, hlost⟩ := h
  have hlength := hlost.length_eq
  simp only [List.length_append, List.length_map] at hlength
  have hnil : tasks q = [] := List.eq_nil_of_length_eq_zero (by omega)
  have hnone : lost = [] := List.eq_nil_of_length_eq_zero (by omega)
  rw [hnil, hnone, List.map_nil, List.append_nil, List.append_nil, List.map_const', hfinished,
    ← List.map_const'] at hlost
  exact ⟨hnil, hlost⟩

end Unrolled

end ReadyQueue

section Invariants

open ReadyQueue

variable [ReadyQueue Q τ] [Resumable τ ρ]

/-- The turns taken interleave the journeys of the tasks admitted. -/
theorem invariant_unrolled :
    Invariant fun (q : Q) (ts : List τ) (turns : List (Turn τ ρ)) => Unrolled ts turns q where
  attempt h ha := h.attempt ha
  accept {q q' ts turns t} h hschedule := by
    have haccepted := h.schedule t
    rwa [hschedule] at haccepted

theorem lasting_unrolled [DropsRefused Q] :
    Invariant.Lasting fun (q : Q) (ts : List τ) (turns : List (Turn τ ρ)) =>
      Unrolled ts turns q where
  toInvariant := invariant_unrolled
  refuse {q q' ts turns t fault} h hschedule := by
    have hrefused : (schedule q t).1 ≠ none := by
      rw [hschedule]
      exact Option.some_ne_none fault
    have hunrolled := h.refuse hrefused
    rwa [hschedule] at hunrolled

end Invariants

end BulkLookup
