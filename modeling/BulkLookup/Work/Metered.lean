import BulkLookup.Work.ReadyQueue

/-!
# Metered queues

A meter on a ready queue counts the tasks scheduled on it and remembers how long it ever became.
It changes nothing about the queue itself.

## Main definitions

* `Metered` — a queue with its two counts
-/

namespace BulkLookup

universe u w

/-- A queue with a meter. -/
structure Metered (Q : Type w) where
  queue : Q
  /-- How many tasks were scheduled and not refused. -/
  scheduled : Nat
  /-- The greatest length right after a task was scheduled. -/
  peak : Nat

namespace Metered

variable {Q : Type w} {τ : Type u} [ReadyQueue Q τ]

/-- A queue whose meter stands at zero. -/
def ofQueue (q : Q) : Metered Q := ⟨q, 0, 0⟩

/-- Schedules a task, and counts it unless it is refused. -/
def schedule : Metered Q → τ → Option Fault × Metered Q
  | ⟨queue, scheduled, peak⟩, t =>
    match ReadyQueue.schedule queue t with
    | (some fault, queue) => (some fault, ⟨queue, scheduled, peak⟩)
    | (none, queue) => (none, ⟨queue, scheduled + 1, max peak (ReadyQueue.length queue)⟩)

/-- Takes the next task out; the meter does not move. -/
def takeNext : Metered Q → Option τ × Metered Q
  | ⟨queue, scheduled, peak⟩ =>
    let (t, queue) := ReadyQueue.takeNext queue
    (t, ⟨queue, scheduled, peak⟩)

@[simp] theorem fst_schedule (m : Metered Q) (t : τ) :
    (m.schedule t).1 = (ReadyQueue.schedule m.queue t).1 := by
  obtain ⟨queue, scheduled, peak⟩ := m
  simp only [schedule]
  split <;> simp_all

@[simp] theorem queue_schedule (m : Metered Q) (t : τ) :
    (m.schedule t).2.queue = (ReadyQueue.schedule m.queue t).2 := by
  obtain ⟨queue, scheduled, peak⟩ := m
  simp only [schedule]
  split <;> simp_all

end Metered

instance {Q : Type w} {τ : Type u} [ReadyQueue Q τ] : ReadyQueue (Metered Q) τ where
  schedule := Metered.schedule
  takeNext := Metered.takeNext
  length m := ReadyQueue.length m.queue
  tasks m := ReadyQueue.tasks m.queue
  tasks_schedule m t := by
    rw [Metered.queue_schedule]
    exact ReadyQueue.tasks_schedule m.queue t
  tasks_takeNext m := ReadyQueue.tasks_takeNext m.queue

end BulkLookup
