import BulkLookup.Work.Fifo

/-!
# Queues that lose tasks

A `Lossy` queue works like a first-in, first-out queue, save that it silently drops every task
whose number, counted over all tasks it was ever given, is a multiple of a fixed one.

## Main definitions

* `Lossy` — the queue
* `Lossy.schedule` — puts a task in, or drops it
-/

namespace BulkLookup

universe u

/-- A first-in, first-out queue that drops each `every`-th task; with `every` zero, none. -/
structure Lossy (τ : Type u) where
  kept : Fifo τ
  every : Nat
  /-- How many tasks the queue was given so far. -/
  given : Nat

namespace Lossy

variable {τ : Type u}

/-- An empty queue that will drop each `every`-th task. -/
def ofPeriod (every : Nat) : Lossy τ := ⟨.empty, every, 0⟩

/-- Whether the task numbered `number` is dropped. -/
def drops (every number : Nat) : Bool := every != 0 && number % every == 0

/-- Puts a task behind all others, or drops it. -/
def schedule : Lossy τ → τ → Lossy τ
  | ⟨kept, every, given⟩, t =>
    ⟨if drops every (given + 1) then kept else kept.push t, every, given + 1⟩

/-- Takes the first task out. -/
def takeNext : Lossy τ → Option τ × Lossy τ
  | ⟨kept, every, given⟩ =>
    let (t, kept) := kept.takeNext
    (t, ⟨kept, every, given⟩)

end Lossy

instance {τ : Type u} : ReadyQueue (Lossy τ) τ where
  schedule q t := (none, q.schedule t)
  takeNext := Lossy.takeNext
  length q := q.kept.length
  tasks q := q.kept.tasks
  tasks_schedule q t := by
    by_cases h : Lossy.drops q.every (q.given + 1)
    · exact ⟨[t], by simpa [Lossy.schedule, h] using (List.perm_append_singleton t _).symm⟩
    · exact ⟨[], by simpa [Lossy.schedule, h] using (List.perm_append_singleton t _).symm⟩
  tasks_takeNext q := ⟨[], by simpa [Lossy.takeNext] using .of_eq q.kept.tasks_takeNext⟩

end BulkLookup
