/-!
# Faults

A fault is the cause for which an operation of this library gives up: a ready queue without room,
a pool of streams that may not be opened, a task resumed after its end. Operations report the
cause; its wording is fixed in one place.

## Main definitions

* `Fault` — the causes
* `Fault.message` — the text of a cause
* `SetupError` — the causes for which a table cannot be set up

## Main results

* `Except.bind_eq_ok`, `Except.map_eq_ok` — steps in a row come to a result if each of them does
-/

namespace BulkLookup

universe u v w

/-- Why an operation on queues, pools or tasks gave up. -/
inductive Fault where
  /-- A task was scheduled on a ring that already holds `capacity` tasks. -/
  | queueFull (capacity : Nat)
  /-- A ring was asked for without any room. -/
  | noCapacity
  /-- A pool was opened with no stream. -/
  | noStreams
  /-- A pool was opened over a queue that already holds tasks. -/
  | foreignTasks
  /-- Every stream is busy, yet the queue hands out no task. -/
  | nothingQueued
  /-- A walk was resumed after it had answered. -/
  | alreadyFinished
  /-- A chain leads to no live entry, or is longer than the table has entries. -/
  | brokenChain
  /-- A bulk lookup ended without an answer to one of its queries. -/
  | missingAnswer
deriving DecidableEq, Repr

/-- The wording of a fault. -/
def Fault.message : Fault → String
  | .queueFull capacity => s!"scheduler overflow: ready queue holds at most {capacity} tasks"
  | .noCapacity => "scheduler capacity must be non-zero"
  | .noStreams => "throttle needs at least one stream"
  | .foreignTasks => "throttle must own every task on its scheduler"
  | .nothingQueued => "in-flight tasks must be queued on the scheduler"
  | .alreadyFinished => "lookup task resumed after completion"
  | .brokenChain => "chain link leads to no live entry"
  | .missingAnswer => "every spawned lookup completes exactly once"

section Steps

variable {ε : Type u} {α : Type v} {β : Type w}

/-- Two steps in a row come to a result if each of them does. -/
theorem Except.bind_eq_ok {x : Except ε α} {f : α → Except ε β} {b : β} :
    x.bind f = .ok b ↔ ∃ a, x = .ok a ∧ f a = .ok b := by
  cases x <;> simp [Except.bind]

theorem Except.map_eq_ok {x : Except ε α} {f : α → β} {b : β} :
    x.map f = .ok b ↔ ∃ a, x = .ok a ∧ f a = b := by
  cases x <;> simp [Except.map]

/-- What a step comes to is its result, whatever stands in for a result if there is none. -/
theorem Except.eq_ok_toOption_getD {x : Except ε α} {a : α} (h : x = .ok a) (default : α) :
    x = .ok (x.toOption.getD default) := by
  rw [h]
  rfl

end Steps

/-- Why a table cannot be set up. -/
inductive SetupError where
  /-- The ceiling on the number of buckets is zero. -/
  | zeroCeiling
deriving DecidableEq, Repr

namespace SetupError

/-- The short name under which a setup error is reported. -/
def name : SetupError → String
  | .zeroCeiling => "ZeroMaxCapacity"

/-- The wording of a setup error. -/
def message : SetupError → String
  | .zeroCeiling => "max capacity must be at least 1 bucket"

end SetupError

end BulkLookup
