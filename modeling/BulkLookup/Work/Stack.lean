import BulkLookup.Work.ReadyQueue

/-!
# Stacks

A `Stack` takes every task and hands out the one that came last.

## Main definitions

* `Stack` — the queue
* `Stack.tasks` — the tasks, the latest first

## Main results

* `Stack.tasks_push`, `Stack.tasks_takeNext` — the operations through the view
-/

namespace BulkLookup

universe u

/-- An unbounded queue, last in and first out. -/
structure Stack (τ : Type u) where
  /-- The tasks, the latest at the end. -/
  items : Array τ

namespace Stack

variable {τ : Type u}

/-- A stack without tasks. -/
def empty : Stack τ := ⟨#[]⟩

/-- The tasks of a stack, the latest first. -/
def tasks (s : Stack τ) : List τ := s.items.toList.reverse

/-- Puts a task on top. -/
def push (s : Stack τ) (t : τ) : Stack τ := ⟨s.items.push t⟩

/-- Takes the task on top. -/
def takeNext (s : Stack τ) : Option τ × Stack τ := (s.items.back?, ⟨s.items.pop⟩)

@[simp] theorem tasks_empty : (empty : Stack τ).tasks = [] := rfl

@[simp] theorem tasks_push (s : Stack τ) (t : τ) : (s.push t).tasks = t :: s.tasks := by
  simp [push, tasks]

/-- What is taken out is the task on top. -/
theorem tasks_takeNext (s : Stack τ) : s.tasks = s.takeNext.1.toList ++ s.takeNext.2.tasks := by
  obtain ⟨⟨items⟩⟩ := s
  rcases List.eq_nil_or_concat items with rfl | ⟨init, last, rfl⟩ <;>
  simp [tasks, takeNext]

end Stack

instance {τ : Type u} : ReadyQueue (Stack τ) τ where
  schedule s t := (none, s.push t)
  takeNext := Stack.takeNext
  length s := s.items.size
  tasks := Stack.tasks
  tasks_schedule s t := ⟨[], by simp⟩
  tasks_takeNext s := ⟨[], by simpa using .of_eq s.tasks_takeNext⟩

end BulkLookup
