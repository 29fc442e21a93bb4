import BulkLookup.Work.Task

/-!
# Countdowns

A countdown is the plainest task: it suspends a fixed number of times and then finishes with its
own number.

## Main definitions

* `Countdown` — a number and the suspensions left
-/

namespace BulkLookup

/-- A task that suspends `pauses` times and then finishes. -/
structure Countdown where
  id : Int
  pauses : Nat
deriving DecidableEq, Repr

namespace Countdown

/-- One step: a suspension if one is left, the finish otherwise. -/
def step : Countdown → Countdown × Step Int
  | ⟨id, 0⟩ => (⟨id, 0⟩, .finished id)
  | ⟨id, pauses + 1⟩ => (⟨id, pauses⟩, .suspended)

end Countdown

instance : Resumable Countdown Int where
  resume t := .ok t.step
  pausesLeft := Countdown.pauses
  pausesLeft_lt {t t'} h := by
    obtain ⟨id, pauses⟩ := t
    cases pauses with
    | zero => simp [Countdown.step] at h
    | succ n =>
      simp only [Countdown.step, Except.ok.injEq, Prod.mk.injEq, and_true] at h
      simp [← h]

end BulkLookup
