import BulkLookup.Work.Task

/-!
# Ready queues

A ready queue holds the tasks that wait for their next turn. Which of them comes next is the
queue's own affair, and a queue may even lose tasks; what every queue owes is that it hands out
nothing that was not put in. The class states this through a view, `tasks`, that lists what a
queue holds: what goes in joins the list or is lost, what comes out leaves it.

From that alone it follows that working a queue off comes to an end. `work` adds up, over the
tasks held, the turns that each may still take; neither putting a task in nor taking one out can
raise it beyond what the task itself brings.

## Main definitions

* `ReadyQueue` — the class of ready queues
* `ReadyQueue.isEmpty` — whether a queue says that it holds nothing
* `ReadyQueue.work` — a bound on the turns that the tasks of a queue may still take

## Main results

* `ReadyQueue.work_schedule_le`, `ReadyQueue.work_takeNext_le` — work is never made from nothing
-/

namespace BulkLookup

universe u v w

/-- Queues of type `Q` for tasks of type `τ`. -/
class ReadyQueue (Q : Type w) (τ : outParam (Type u)) where
  /-- Puts a task in, unless the queue refuses it and says why; in either case the queue as it is
  afterwards comes back. -/
  schedule : Q → τ → Option Fault × Q
  /-- Takes the next task out, if the queue hands one out. -/
  takeNext : Q → Option τ × Q
  /-- How many tasks the queue says it holds. -/
  length : Q → Nat
  /-- The tasks that the queue holds. -/
  tasks : Q → List τ
  /-- What a queue holds after a task was scheduled was there before or is that task. -/
  tasks_schedule : ∀ (q : Q) (t : τ),
    ∃ lost, (t :: tasks q).Perm (tasks (schedule q t).2 ++ lost)
  /-- What a queue hands out, and what it holds afterwards, it held before. -/
  tasks_takeNext : ∀ (q : Q),
    ∃ lost, (tasks q).Perm ((takeNext q).1.toList ++ tasks (takeNext q).2 ++ lost)

namespace ReadyQueue

variable {Q : Type w} {τ : Type u} {ρ : Type v} [ReadyQueue Q τ]

/-- Whether a queue says that it holds nothing. -/
def isEmpty (q : Q) : Bool := length q == 0

section Work

variable [Resumable τ ρ]

/-- A bound on the turns that the tasks of a queue may still take. -/
def work (q : Q) : Nat := Resumable.turnsLeft (tasks q)

theorem work_schedule_le (q : Q) (t : τ) :
    work (schedule q t).2 ≤ Resumable.pausesLeft t + 1 + work q := by
  obtain ⟨lost, hlost⟩ := tasks_schedule q t
  have hturns := Resumable.turnsLeft_perm hlost
  rw [Resumable.turnsLeft, Resumable.turnsLeft_append] at hturns
  unfold work
  omega

theorem work_takeNext_le (q : Q) :
    Resumable.turnsLeft (takeNext q).1.toList + work (takeNext q).2 ≤ work q := by
  obtain ⟨lost, hlost⟩ := tasks_takeNext q
  have hturns := Resumable.turnsLeft_perm hlost
  rw [Resumable.turnsLeft_append, Resumable.turnsLeft_append] at hturns
  unfold work
  omega

end Work

end ReadyQueue

end BulkLookup
