import BulkLookup.Work.ReadyQueue

/-!
# First-in, first-out queues

A `Fifo` takes every task and hands tasks out in the order in which they came. It keeps two lists:
the tasks at the front in order, and the tasks at the back in reverse, which become the front when
that has run out.

## Main definitions

* `Fifo` — the queue
* `Fifo.push`, `Fifo.takeNext` — in at the back, out at the front
* `Fifo.tasks` — the tasks, front first

## Main results

* `Fifo.tasks_push`, `Fifo.takeNext_eq_none_iff`, `Fifo.tasks_takeNext` — the operations through
  the view
-/

namespace BulkLookup

universe u

/-- An unbounded queue, first in and first out. -/
structure Fifo (τ : Type u) where
  front : List τ
  /-- The tasks that came last, the latest first. -/
  back : List τ
  length : Nat
  length_eq : length = front.length + back.length

namespace Fifo

variable {τ : Type u}

/-- A queue without tasks. -/
def empty : Fifo τ := ⟨[], [], 0, (Nat.zero_add 0).symm⟩

/-- The tasks of a queue, front first. -/
def tasks (q : Fifo τ) : List τ := q.front ++ q.back.reverse

/-- Puts a task behind all others. -/
def push : Fifo τ → τ → Fifo τ
  | ⟨front, back, length, length_eq⟩, t =>
    ⟨front, t :: back, length + 1, by simp [length_eq, Nat.add_assoc]⟩

/-- Takes the first task out. -/
def takeNext : Fifo τ → Option τ × Fifo τ
  | ⟨t :: front, back, length, length_eq⟩ =>
    (some t, ⟨front, back, length - 1, by simp [length_eq]⟩)
  | ⟨[], back, length, length_eq⟩ =>
    match h : back.reverse with
    | [] => (none, ⟨[], back, length, length_eq⟩)
    | t :: front =>
      (some t, ⟨front, [], length - 1, by
        have := congrArg List.length h
        simp only [List.length_reverse, List.length_cons] at this
        simp [length_eq, this]⟩)

@[simp] theorem tasks_empty : (empty : Fifo τ).tasks = [] := rfl

@[simp] theorem length_tasks (q : Fifo τ) : q.tasks.length = q.length := by
  simp [tasks, q.length_eq]

@[simp] theorem tasks_push (q : Fifo τ) (t : τ) : (q.push t).tasks = q.tasks ++ [t] := by
  simp [push, tasks]

/-- What is taken out is the first task. -/
theorem tasks_takeNext (q : Fifo τ) : q.tasks = q.takeNext.1.toList ++ q.takeNext.2.tasks := by
  unfold takeNext
  split
  · rfl
  · split
    · simp
    · next h => simp [tasks, h]

theorem takeNext_eq_none_iff {q : Fifo τ} : q.takeNext.1 = none ↔ q.tasks = [] := by
  unfold takeNext
  split
  · simp [tasks]
  · split
    · next h => simpa [tasks] using h
    · next h => simp [tasks, h]

end Fifo

instance {τ : Type u} : ReadyQueue (Fifo τ) τ where
  schedule q t := (none, q.push t)
  takeNext := Fifo.takeNext
  length := Fifo.length
  tasks := Fifo.tasks
  tasks_schedule q t := ⟨[], by simpa using (List.perm_append_singleton t q.tasks).symm⟩
  tasks_takeNext q := ⟨[], by simpa using .of_eq q.tasks_takeNext⟩

end BulkLookup
