import BulkLookup.Proofs.Work.Likeness

/-!
# Rings are bounded lines

What a ring does with its cells and its window can be told by a list alone: a line of tasks that
have room for a certain number of them, in which they go in at the end and come out at the front. A
ring stands for such a line if the tasks in its window are those in the line and all its other cells
are empty. This lasts through all calls, also those that are refused, wherever the window lies.

## Main definitions

* `Line` — a list of tasks with a bound on its length, as a queue
* `Ring.Vacant` — all cells beside the window are empty
* `Ring.StandsFor` — the line for which a ring stands

## Main results

* `Ring.Vacant.schedule`, `Ring.Vacant.takeNext` — cells beside the window stay empty
* `Ring.likeness_standsFor` — a ring behaves as the line for which it stands
* `Ring.perform_ofCapacity` — what a ring has come to after any calls
-/

namespace BulkLookup

universe u

open ReadyQueue

variable {τ : Type u}

/-! ### Lines -/

/-- A line of tasks, of which it takes no more than `capacity`. -/
structure Line (τ : Type u) where
  capacity : Nat
  tasks : List τ

namespace Line

/-- A line in which nobody waits. -/
def empty (capacity : Nat) : Line τ := ⟨capacity, []⟩

/-- A task goes to the end of the line, if there is room. -/
def schedule (l : Line τ) (t : τ) : Option Fault × Line τ :=
  if l.tasks.length < l.capacity then (none, { l with tasks := l.tasks ++ [t] })
  else (some (.queueFull l.capacity), l)

/-- The task at the front leaves the line. -/
def takeNext (l : Line τ) : Option τ × Line τ :=
  (l.tasks.head?, { l with tasks := l.tasks.tail })

end Line

instance : ReadyQueue (Line τ) τ where
  schedule := Line.schedule
  takeNext := Line.takeNext
  length l := l.tasks.length
  tasks := Line.tasks
  tasks_schedule l t := by
    rw [Line.schedule]
    split
    · exact ⟨[], by simpa using (List.perm_append_singleton t l.tasks).symm⟩
    · exact ⟨[t], (List.perm_append_singleton t l.tasks).symm⟩
  tasks_takeNext l := by
    refine ⟨[], ?_⟩
    rw [Line.takeNext, List.append_nil]
    cases l.tasks <;> exact .refl _

/-- No call changes how many tasks a line takes. -/
theorem Line.capacity_perform (l : Line τ) (calls : List (QueueCall τ)) :
    (perform l calls).2.capacity = l.capacity := by
  induction calls generalizing l with
  | nil => rfl
  | cons c calls ih =>
    rw [perform, ih]
    cases c with
    | schedule t =>
      change (l.schedule t).2.capacity = l.capacity
      rw [Line.schedule]
      split <;> rfl
    | takeNext => rfl

namespace Ring

/-! ### Cells -/

/-- The tasks in the window, read off the cells. -/
theorem getElem?_cells {r : Ring τ} {i : Nat} {t : τ} (h : r.tasks[i]? = some t) :
    r.cells[(r.head + i) % r.capacity]? = some (some t) := by
  obtain ⟨hi, -⟩ := List.getElem?_eq_some_iff.1 h
  rw [r.length_tasks] at hi
  have hcell := congrArg (·[i]?) r.map_some_tasks
  simp only [List.getElem?_map, h, List.getElem?_range hi, Option.map_some, Option.some.injEq]
    at hcell
  exact Option.join_eq_some_iff.1 hcell.symm

/-- All cells beside the window are empty. -/
def Vacant (r : Ring τ) : Prop :=
  ∀ j < r.capacity, (∀ i < r.length, (r.head + i) % r.capacity ≠ j) → r.cells[j]? = some none

/-- A task goes into the cell that joins the window. -/
theorem Vacant.schedule {r : Ring τ} (h : r.Vacant) (t : τ) : (r.schedule t).2.Vacant := by
  obtain ⟨cells, head, length, head_lt, length_le, filled⟩ := r
  simp only [Ring.schedule]
  split
  · intro j hj hbeside
    simp only [capacity, Array.size_set] at hj hbeside ⊢
    rw [Array.getElem?_set, if_neg (hbeside length (Nat.lt_succ_self length))]
    exact h j hj fun i hi => hbeside i (Nat.lt_succ_of_lt hi)
  · exact h

/-- The cell that leaves the window is emptied. -/
theorem Vacant.takeNext {r : Ring τ} (h : r.Vacant) : r.takeNext.2.Vacant := by
  obtain ⟨cells, head, length, head_lt, length_le, filled⟩ := r
  simp only [Ring.takeNext]
  split
  · intro j hj hbeside
    simp only [capacity, Array.size_set, Nat.mod_add_mod] at hj hbeside ⊢
    rw [Array.getElem?_set]
    split
    · rfl
    · next hne =>
      refine h j hj fun i hi => ?_
      simp only [capacity]
      cases i with
      | zero => rwa [Nat.add_zero, Nat.mod_eq_of_lt head_lt]
      | succ i =>
        rw [Nat.add_comm i 1, ← Nat.add_assoc]
        exact hbeside i (Nat.lt_sub_of_add_lt hi)
  · exact h

/-! ### The line for which a ring stands -/

/-- A ring stands for a line: its window holds the tasks in the line, and all other cells are empty.
-/
structure StandsFor (r : Ring τ) (l : Line τ) : Prop where
  capacity_eq : r.capacity = l.capacity
  tasks_eq : r.tasks = l.tasks
  vacant : r.Vacant

theorem StandsFor.length_eq {r : Ring τ} {l : Line τ} (h : r.StandsFor l) :
    r.length = l.tasks.length := by
  rw [← h.tasks_eq, r.length_tasks]

/-- A new ring stands for an empty line. -/
theorem exists_ofCapacity {capacity : Nat} (hcapacity : 0 < capacity) :
    ∃ new : Ring τ, ofCapacity capacity = .ok new ∧ new.StandsFor (Line.empty capacity) := by
  rw [ofCapacity, dif_pos hcapacity]
  refine ⟨_, rfl, Array.size_replicate, rfl, fun j hj _ => ?_⟩
  rw [Ring.capacity, Array.size_replicate] at hj
  rw [Array.getElem?_replicate, if_pos hj]

/-- A ring behaves as the line for which it stands. -/
theorem likeness_standsFor : Likeness (StandsFor : Ring τ → Line τ → Prop) where
  length_eq h := h.length_eq
  schedule {r l} t h := by
    change (r.schedule t).1 = (l.schedule t).1 ∧ (r.schedule t).2.StandsFor (l.schedule t).2
    unfold Line.schedule
    split
    · next room =>
      rw [← h.length_eq, ← h.capacity_eq] at room
      obtain ⟨haccepted, htasks⟩ := schedule_of_lt room t
      refine ⟨haccepted, (r.capacity_schedule t).trans h.capacity_eq, ?_, h.vacant.schedule t⟩
      rw [htasks, h.tasks_eq]
    · next full =>
      rw [← h.length_eq, ← h.capacity_eq] at full
      rw [schedule_of_full (Nat.le_antisymm r.length_le (Nat.le_of_not_lt full)), h.capacity_eq]
      exact ⟨rfl, h⟩
  takeNext {r l} h := by
    change r.takeNext.1 = l.tasks.head? ∧ r.takeNext.2.StandsFor { l with tasks := l.tasks.tail }
    have htasks : l.tasks = r.takeNext.1.toList ++ r.takeNext.2.tasks :=
      h.tasks_eq.symm.trans r.tasks_takeNext
    have hcapacity := r.capacity_takeNext.trans h.capacity_eq
    cases htask : r.takeNext.1 with
    | none =>
      -- The window is empty, and so is what is left of it.
      have hnil : r.tasks = [] := InOrder.toNeverIdle.tasks_eq_nil r htask
      rw [htask, Option.toList_none, List.nil_append] at htasks
      rw [h.tasks_eq] at hnil
      rw [hnil] at htasks ⊢
      exact ⟨rfl, hcapacity, htasks.symm, h.vacant.takeNext⟩
    | some t =>
      rw [htask, Option.toList_some, List.singleton_append] at htasks
      rw [htasks]
      exact ⟨rfl, hcapacity, rfl, h.vacant.takeNext⟩

/-- A new ring, on which any calls are performed, those that are refused included, stands for a line
on which the same calls are performed, and gives the same answers. Its window is as long as the
line, which is never longer than the ring has cells; the cells of the window, from `head` on and
around the end, hold the tasks in the line, front first; and all other cells are empty. The task
that is taken out next is the front of the line, and there is none exactly when the line is empty. A
task that is scheduled is accepted exactly when the line is shorter than the ring, and else the ring
stays as it is. -/
theorem perform_ofCapacity {capacity : Nat} (hcapacity : 1 ≤ capacity)
    (calls : List (QueueCall τ)) :
    ∃ new : Ring τ, ofCapacity capacity = .ok new ∧
      let ring : Ring τ := (perform new calls).2
      let line : Line τ := (perform (Line.empty capacity) calls).2
      (perform new calls).1 = (perform (Line.empty capacity : Line τ) calls).1 ∧
      ring.cells.size = capacity ∧ ring.length = line.tasks.length ∧
      line.tasks.length ≤ capacity ∧ ring.head < capacity ∧
      (∀ i t, line.tasks[i]? = some t →
        ring.cells[(ring.head + i) % capacity]? = some (some t)) ∧
      (∀ j < capacity, (∀ i < line.tasks.length, (ring.head + i) % capacity ≠ j) →
        ring.cells[j]? = some none) ∧
      ring.takeNext.1 = line.tasks.head? ∧ (ring.takeNext.1 = none ↔ line.tasks = []) ∧
      ∀ t, ((ring.schedule t).1 = none ↔ line.tasks.length < capacity) ∧
        (¬ line.tasks.length < capacity →
          ring.schedule t = (some (.queueFull capacity), ring)) := by
  obtain ⟨new, hnew, hstart⟩ := exists_ofCapacity (τ := τ) hcapacity
  refine ⟨new, hnew, ?_⟩
  intro ring line
  obtain ⟨hanswers, hstands⟩ : _ ∧ ring.StandsFor line := likeness_standsFor.perform hstart calls
  have hsize : ring.capacity = capacity :=
    hstands.capacity_eq.trans ((Line.empty capacity).capacity_perform calls)
  have hlength := hstands.length_eq
  refine ⟨hanswers, hsize, hlength, ?_, ?_, fun i t hi => ?_, fun j hj hbeside => ?_, ?_⟩
  · rw [← hlength, ← hsize]
    exact ring.length_le
  · rw [← hsize]
    exact ring.head_lt
  · rw [← hsize]
    apply getElem?_cells
    rwa [hstands.tasks_eq]
  · apply hstands.vacant j (hsize ▸ hj)
    rwa [hlength, hsize]
  · have htake : ring.takeNext.1 = line.tasks.head? := (likeness_standsFor.takeNext hstands).1
    refine ⟨htake, by rw [htake, List.head?_eq_none_iff], fun t => ?_⟩
    rw [schedule_eq_none_iff, hsize, hlength]
    refine ⟨.rfl, fun full => ?_⟩
    rw [← hlength, ← hsize] at full
    rw [schedule_of_full (Nat.le_antisymm ring.length_le (Nat.le_of_not_lt full)), hsize]

/-- A ring of two cells refuses a third task, and goes on at the first cell when it meets the end.
Of the task that was taken out, nothing is left in the cell behind the window. -/
theorem perform_ofCapacity_around_end :
    let calls : List (QueueCall Nat) :=
      [.schedule 1, .schedule 2, .schedule 3, .takeNext, .schedule 4, .takeNext]
    ∃ new : Ring Nat, ofCapacity 2 = .ok new ∧
      (perform new calls).1 = [.scheduled none, .scheduled none, .scheduled (some (.queueFull 2)),
        .taken (some 1), .scheduled none, .taken (some 2)] ∧
      (perform new calls).2.length = 1 ∧ (perform new calls).2.takeNext.1 = some 4 := by
  intro calls
  obtain ⟨new, hnew, hanswers, -, hlength, -, -, -, -, htake, -⟩ :=
    perform_ofCapacity (show 1 ≤ 2 by decide) calls
  exact ⟨new, hnew, hanswers.trans (by decide), hlength.trans (by decide), htake.trans (by decide)⟩

end Ring

end BulkLookup
