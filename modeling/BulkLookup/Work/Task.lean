import BulkLookup.Fault

/-!
# Tasks that are resumed step by step

A task is a computation cut into steps. Whoever drives it resumes it again and again; each time
it either suspends, to be resumed later, or finishes with a result. A task suspends only finitely
often, and it says so itself: `pausesLeft` is a number that every suspension lowers.

## Main definitions

* `Step` — what a task answers when it is resumed
* `Resumable` — the class of tasks
* `Resumable.turnsLeft` — a bound on the turns that tasks may still take
* `Turn` — the record of one resume: the task as it was, and its result if it finished
-/

namespace BulkLookup

universe u v

/-- What a task answers when it is resumed. -/
inductive Step (ρ : Type v) where
  /-- The task waits and must be resumed again. -/
  | suspended
  /-- The task is over and must not be resumed again. -/
  | finished (result : ρ)
deriving DecidableEq, Repr

/-- The name under which a step is reported. -/
def Step.name {ρ : Type v} : Step ρ → String
  | .suspended => "Suspended"
  | .finished _ => "Complete"

/-- Tasks of type `τ` with results of type `ρ`. -/
class Resumable (τ : Type u) (ρ : outParam (Type v)) where
  /-- One step of a task: the task as it is afterwards, and what it answers. -/
  resume : τ → Except Fault (τ × Step ρ)
  /-- A bound on how often a task may still suspend. -/
  pausesLeft : τ → Nat
  /-- Each suspension lowers the bound. -/
  pausesLeft_lt : ∀ {t t' : τ}, resume t = .ok (t', .suspended) → pausesLeft t' < pausesLeft t

namespace Resumable

variable {τ : Type u} {ρ : Type v} [Resumable τ ρ]

/-- A bound on the turns that tasks may still take: each may suspend as often as its bound says, and
takes one more turn to finish. -/
def turnsLeft : List τ → Nat
  | [] => 0
  | t :: ts => pausesLeft t + 1 + turnsLeft ts

theorem turnsLeft_append (ts ts' : List τ) :
    turnsLeft (ts ++ ts') = turnsLeft ts + turnsLeft ts' := by
  induction ts with
  | nil => exact (Nat.zero_add _).symm
  | cons t ts ih => rw [List.cons_append, turnsLeft, ih, turnsLeft, Nat.add_assoc _ (turnsLeft ts)]

/-- The order of the tasks does not matter. -/
theorem turnsLeft_perm {ts ts' : List τ} (h : ts.Perm ts') : turnsLeft ts = turnsLeft ts' := by
  induction h with
  | nil => rfl
  | cons t _ ih => rw [turnsLeft, turnsLeft, ih]
  | swap t t' ts =>
    simp only [turnsLeft]
    exact Nat.add_left_comm _ _ _
  | trans _ _ ih ih' => rw [ih, ih']

end Resumable

/-- One turn of a task: the task as it was when its turn came, and its result if it finished. -/
structure Turn (τ : Type u) (ρ : Type v) where
  task : τ
  result : Option ρ
deriving Repr

/-- Whether a task finished in this turn. -/
def Turn.isFinish {τ : Type u} {ρ : Type v} (turn : Turn τ ρ) : Bool := turn.result.isSome

end BulkLookup
