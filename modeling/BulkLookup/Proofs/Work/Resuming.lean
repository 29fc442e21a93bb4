import BulkLookup.Proofs.Work.Journeys
import Mathlib.Logic.Function.Iterate

/-!
# Tasks resumed by hand

Tasks need no queue: whoever holds them may resume them in any order, and may even resume those that
have finished. Of a task that meets a fault then, nothing changes. Tasks share nothing that a step
could change, and so what one of them answers does not depend on when the others are resumed: it
suspends as often as it does on its own, finishes once, and gives nothing but the fault afterwards.

## Main definitions

* `Resumable.resumed`, `Resumable.answer` — what resuming a task does to it, and what it answers
* `Resumable.answers` — the answers of one task that is resumed again and again
* `Resumable.resumeEach` — tasks resumed one at a time, in any order
* `Resumable.EndsWith` — tasks that meet a fault when they are resumed after their end

## Main results

* `Resumable.resumeEach_apply`, `Resumable.filter_resumeEach` — what becomes of a task does not
  depend on the others
* `Resumable.FinishesAfter.answers_eq` — all answers of a task that finishes
-/

namespace BulkLookup

universe u v x

namespace Resumable

variable {τ : Type u} {ρ : Type v} {ι : Type x} [Resumable τ ρ]

/-! ### One task -/

/-- A task after it was resumed. One that meets a fault stays as it was. -/
def resumed (t : τ) : τ :=
  match resume t with
  | .ok (t', _) => t'
  | .error _ => t

/-- What a task answers when it is resumed. -/
def answer (t : τ) : Except Fault (Step ρ) := (resume t).map Prod.snd

/-- What a task answers when it is resumed a number of times. -/
def answers (t : τ) : Nat → List (Except Fault (Step ρ))
  | 0 => []
  | n + 1 => answer t :: answers (resumed t) n

variable {t t' : τ} {r : ρ} {step : Step ρ} {fault : Fault}

theorem resumed_of_ok (h : resume t = .ok (t', step)) : resumed t = t' := by
  rw [resumed, h]

theorem answer_of_ok (h : resume t = .ok (t', step)) : answer t = .ok step := by
  rw [answer, h]
  rfl

/-- A task that meets a fault meets it again each time. -/
theorem answers_of_error (h : resume t = .error fault) (n : Nat) :
    answers t n = List.replicate n (.error fault) := by
  have hresumed : resumed t = t := by rw [resumed, h]
  have hanswer : answer t = .error fault := by
    rw [answer, h]
    rfl
  induction n with
  | zero => rfl
  | succ n ih => rw [answers, hanswer, hresumed, ih, List.replicate_succ]

/-- The fault that tasks meet when they are resumed after their end. -/
def EndsWith (τ : Type u) {ρ : Type v} [Resumable τ ρ] (fault : Fault) : Prop :=
  ∀ {t t' : τ} {r : ρ}, resume t = .ok (t', .finished r) → resume t' = .error fault

/-- A task suspends a number of times, finishes with its result, and meets a fault from then on. -/
theorem FinishesAfter.answers_eq {pauses : Nat} (h : FinishesAfter t pauses)
    (hresult : result? t = some r) (hend : EndsWith τ fault) (n : Nat) :
    answers t n =
      (List.replicate pauses (Except.ok Step.suspended) ++ [Except.ok (Step.finished r)]).take n ++
        List.replicate (n - (pauses + 1)) (.error fault) := by
  induction h generalizing n with
  | @now t t' r' hresume =>
    obtain rfl : r' = r := Option.some.inj ((result?_of_finished hresume).symm.trans hresult)
    cases n with
    | zero => rfl
    | succ n =>
      rw [answers, answer_of_ok hresume, resumed_of_ok hresume, answers_of_error (hend hresume),
        Nat.zero_add, Nat.add_sub_cancel]
      cases n <;> rfl
  | @later t t' pauses hresume _ ih =>
    cases n with
    | zero => rw [answers, List.take_zero, Nat.zero_sub, List.replicate_zero, List.append_nil]
    | succ n =>
      rw [answers, answer_of_ok hresume, resumed_of_ok hresume,
        ih ((result?_of_suspended hresume).trans hresult), Nat.add_sub_add_right,
        List.replicate_succ, List.cons_append, List.take_succ_cons, List.cons_append]

/-! ### Tasks in any order -/

variable [DecidableEq ι]

/-- Resumes tasks one at a time, in the order in which they are named: the tasks as they are then,
and who answered what. -/
def resumeEach (tasks : ι → τ) : List ι → (ι → τ) × List (ι × Except Fault (Step ρ))
  | [] => (tasks, [])
  | i :: order =>
    let (after, said) := resumeEach (Function.update tasks i (resumed (tasks i))) order
    (after, (i, answer (tasks i)) :: said)

/-- A task comes to where it comes to on its own, if resumed as often. -/
theorem resumeEach_apply (tasks : ι → τ) (order : List ι) (i : ι) :
    (resumeEach tasks order).1 i = (resumed^[order.count i]) (tasks i) := by
  induction order generalizing tasks with
  | nil => rfl
  | cons j order ih =>
    rw [resumeEach, ih, List.count_cons]
    by_cases hj : j = i
    · subst hj
      rw [Function.update_self, beq_self_eq_true, if_pos rfl, Function.iterate_succ_apply]
    · rw [Function.update_of_ne (Ne.symm hj), beq_eq_false_iff_ne.2 hj, if_neg Bool.false_ne_true,
        Nat.add_zero]

/-- A task answers what it answers on its own, if resumed as often. -/
theorem filter_resumeEach (tasks : ι → τ) (order : List ι) (i : ι) :
    ((resumeEach tasks order).2.filter (·.1 = i)).map Prod.snd =
      answers (tasks i) (order.count i) := by
  induction order generalizing tasks with
  | nil => rfl
  | cons j order ih =>
    rw [resumeEach, List.count_cons]
    dsimp only
    by_cases hj : j = i
    · subst hj
      rw [List.filter_cons_of_pos (by simp), List.map_cons, ih, Function.update_self,
        beq_self_eq_true, if_pos rfl, answers]
    · rw [List.filter_cons_of_neg (by simpa using hj), ih, Function.update_of_ne (Ne.symm hj),
        beq_eq_false_iff_ne.2 hj, if_neg Bool.false_ne_true, Nat.add_zero]

end Resumable

end BulkLookup
