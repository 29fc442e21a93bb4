import BulkLookup.Work.ReadyQueue

/-!
# Rings

A ring is a ready queue with a fixed number of cells. The tasks it holds lie in a window of cells
that starts at `head`, runs for `length` cells and goes on at cell zero when it meets the end. A
task is put into the cell behind the window and taken from the cell at its start, so tasks leave
in the order in which they came. A full ring refuses tasks.

## Main definitions

* `Ring` — the cells and the window of occupied ones
* `Ring.ofCapacity` — an empty ring
* `Ring.schedule`, `Ring.takeNext` — in at the back, out at the front
* `Ring.tasks` — the tasks in the window, front first

## Main results

* `Ring.schedule_of_lt`, `Ring.schedule_of_full` — a ring with room appends, a full one
  refuses and stays as it is
* `Ring.tasks_takeNext` — the task taken out is the first one
-/

namespace BulkLookup

universe u

/-- A queue with a fixed number of cells. -/
structure Ring (τ : Type u) where
  cells : Array (Option τ)
  /-- The first cell of the window. -/
  head : Nat
  /-- The number of cells in the window. -/
  length : Nat
  head_lt : head < cells.size
  length_le : length ≤ cells.size
  /-- Every cell of the window holds a task. -/
  filled : ∀ i < length, (cells[(head + i) % cells.size]?.join).isSome

namespace Ring

variable {τ : Type u}

/-- The number of cells. -/
def capacity (r : Ring τ) : Nat := r.cells.size

/-- The content of the `i`-th cell, counted from the start of the window. -/
def cell (r : Ring τ) (i : Nat) : Option τ := r.cells[(r.head + i) % r.cells.size]?.join

/-- The tasks of a ring, front first. -/
def tasks (r : Ring τ) : List τ := (List.range r.length).filterMap r.cell

/-- An empty ring of the given capacity, which may not be zero. -/
def ofCapacity (capacity : Nat) : Except Fault (Ring τ) :=
  if h : 0 < capacity then
    .ok {
      cells := Array.replicate capacity none
      head := 0
      length := 0
      head_lt := by simpa using h
      length_le := Nat.zero_le _
      filled := fun i hi => absurd hi (Nat.not_lt_zero i) }
  else .error .noCapacity

/-- Where the `i`-th place of a window that starts at `head` lies. -/
theorem place_eq {head size i : Nat} (hhead : head < size) (hi : i < size) :
    (head + i) % size = if head + i < size then head + i else head + i - size := by
  split
  · next h => exact Nat.mod_eq_of_lt h
  · next h => rw [Nat.mod_eq_sub_mod (Nat.le_of_not_lt h), Nat.mod_eq_of_lt (by omega)]

/-- Two places of one window that share a cell are the same place. -/
theorem place_injective {head size i j : Nat} (hhead : head < size) (hi : i < size)
    (hj : j < size) (h : (head + i) % size = (head + j) % size) : i = j := by
  rw [place_eq hhead hi, place_eq hhead hj] at h
  split at h <;> split at h <;> omega

/-- Puts a task into the cell behind the window. -/
def schedule : Ring τ → τ → Option Fault × Ring τ
  | ⟨cells, head, length, head_lt, length_le, filled⟩, t =>
    if room : length < cells.size then
      (none, {
        cells := cells.set ((head + length) % cells.size) (some t)
          (Nat.mod_lt _ (Nat.zero_lt_of_lt head_lt))
        head
        length := length + 1
        head_lt := by simpa using head_lt
        length_le := by simpa using Nat.succ_le_of_lt room
        filled := by
          intro i hi
          rw [Array.size_set, Array.getElem?_set]
          split
          · rfl
          · next hne =>
            refine filled i (Nat.lt_of_le_of_ne (Nat.le_of_lt_succ hi) ?_)
            rintro rfl
            exact hne rfl })
    else (some (.queueFull cells.size), ⟨cells, head, length, head_lt, length_le, filled⟩)

/-- Takes the task at the start of the window out. -/
def takeNext : Ring τ → Option τ × Ring τ
  | ⟨cells, head, length, head_lt, length_le, filled⟩ =>
    if busy : 0 < length then
      (cells[head], {
        cells := cells.set head none
        head := (head + 1) % cells.size
        length := length - 1
        head_lt := by simpa using Nat.mod_lt _ (Nat.zero_lt_of_lt head_lt)
        length_le := by simpa using Nat.le_trans (Nat.sub_le _ _) length_le
        filled := by
          intro i hi
          rw [Array.size_set, Nat.mod_add_mod, Nat.add_assoc, Nat.add_comm 1 i,
            Array.getElem?_set, if_neg]
          · exact filled (i + 1) (by omega)
          · -- Only the first place of the window lies in the emptied cell.
            intro h
            have := place_eq head_lt (i := i + 1) (by omega)
            split at this <;> omega })
    else (none, ⟨cells, head, length, head_lt, length_le, filled⟩)

/-! ### The operations through the view -/

theorem cell_isSome (r : Ring τ) {i : Nat} (hi : i < r.length) : (r.cell i).isSome :=
  r.filled i hi

/-- The tasks of a ring, each still wrapped as a cell's content. -/
theorem map_some_tasks (r : Ring τ) : r.tasks.map some = (List.range r.length).map r.cell := by
  unfold tasks
  rw [List.map_filterMap_some_eq_filter_map_isSome, List.filter_eq_self]
  intro o ho
  obtain ⟨i, hi, rfl⟩ := List.mem_map.1 ho
  exact r.cell_isSome (List.mem_range.1 hi)

@[simp] theorem length_tasks (r : Ring τ) : r.tasks.length = r.length := by
  simpa using congrArg List.length r.map_some_tasks

theorem tasks_eq_of_map_some {r : Ring τ} {ts : List τ}
    (h : (List.range r.length).map r.cell = ts.map some) : r.tasks = ts :=
  (List.map_inj_right fun _ _ => Option.some.inj).1 (r.map_some_tasks.trans h)

/-- A ring with room takes the task, behind all others. -/
theorem schedule_of_lt {r : Ring τ} (room : r.length < r.capacity) (t : τ) :
    (r.schedule t).1 = none ∧ (r.schedule t).2.tasks = r.tasks ++ [t] := by
  obtain ⟨cells, head, length, head_lt, length_le, filled⟩ := r
  have room : length < cells.size := room
  refine ⟨by simp [schedule, room], tasks_eq_of_map_some ?_⟩
  rw [List.map_append, map_some_tasks]
  simp only [schedule, room, ↓reduceDIte, List.range_succ, List.map_append]
  congr 1
  · refine List.map_congr_left fun i hi => ?_
    have hi := List.mem_range.1 hi
    simp only [cell, Array.size_set, Array.getElem?_set]
    rw [if_neg fun h => ?_]
    have := place_injective head_lt (Nat.lt_of_lt_of_le hi length_le) room h.symm
    omega
  · simp [cell]

/-- A full ring refuses the task and stays as it is. -/
theorem schedule_of_full {r : Ring τ} (full : r.length = r.capacity) (t : τ) :
    r.schedule t = (some (.queueFull r.capacity), r) := by
  obtain ⟨cells, head, length, head_lt, length_le, filled⟩ := r
  have full : length = cells.size := full
  simp [schedule, capacity, full]

/-- What is taken out is the first task. -/
theorem tasks_takeNext (r : Ring τ) :
    r.tasks = r.takeNext.1.toList ++ r.takeNext.2.tasks := by
  obtain ⟨cells, head, length, head_lt, length_le, filled⟩ := r
  cases length with
  | zero => simp [takeNext, tasks]
  | succ n =>
    obtain ⟨t, ht⟩ := Option.isSome_iff_exists.1 (filled 0 (Nat.zero_lt_succ n))
    have hhead : cells[head] = some t := by
      simpa [Nat.mod_eq_of_lt head_lt, Array.getElem?_eq_getElem head_lt] using ht
    refine tasks_eq_of_map_some ?_
    rw [List.map_append, map_some_tasks]
    simp only [takeNext, Nat.zero_lt_succ, ↓reduceDIte, hhead, Option.toList_some, List.map_cons,
      List.map_nil, Nat.add_sub_cancel, List.range_succ_eq_map, List.map_map, List.cons_append,
      List.nil_append, List.cons.injEq]
    refine ⟨ht, List.map_congr_left fun i hi => ?_⟩
    have hi := List.mem_range.1 hi
    simp only [Function.comp, cell, Array.size_set, Nat.mod_add_mod, Nat.add_assoc,
      Nat.add_comm 1 i, Nat.succ_eq_add_one, Array.getElem?_set]
    rw [if_neg fun h => ?_]
    have := place_eq head_lt (i := i + 1) (by omega)
    split at this <;> omega

theorem takeNext_eq_none_iff {r : Ring τ} : r.takeNext.1 = none ↔ r.length = 0 := by
  obtain ⟨cells, head, length, head_lt, length_le, filled⟩ := r
  by_cases busy : 0 < length
  · have := filled 0 busy
    simp only [Nat.add_zero, Nat.mod_eq_of_lt head_lt, Array.getElem?_eq_getElem head_lt,
      Option.join_some] at this
    simp only [takeNext, busy, ↓reduceDIte]
    grind
  · obtain rfl : length = 0 := by omega
    simp [takeNext]

end Ring

instance {τ : Type u} : ReadyQueue (Ring τ) τ where
  schedule := Ring.schedule
  takeNext := Ring.takeNext
  length := Ring.length
  tasks := Ring.tasks
  tasks_schedule r t := by
    rcases Nat.lt_or_eq_of_le r.length_le with room | full
    · exact ⟨[], by
        simpa [(Ring.schedule_of_lt room t).2] using (List.perm_append_singleton t _).symm⟩
    · exact ⟨[t], by
        simpa [Ring.schedule_of_full full t] using (List.perm_append_singleton t _).symm⟩
  tasks_takeNext r := ⟨[], by simpa using .of_eq r.tasks_takeNext⟩

end BulkLookup
