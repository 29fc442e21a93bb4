import BulkLookup.Proofs.Work.Likeness
import BulkLookup.Proofs.Work.Overtaking
import BulkLookup.Proofs.Work.Resuming

/-!
# Rounds of turns

On a queue that hands tasks out in the order in which it accepted them, a task that suspends goes to
the end, and all others have a turn before it has its next one. So the turns come in rounds: in the
first round each task has its first turn, in the second one each of those that are left has its
second turn, and so on, always in the order in which the tasks were at the start. In which round a
task finishes depends on nothing but how often it suspends.

## Main definitions

* `Resumable.nextTurn`, `Resumable.turnAfter` — a turn of a task, and the one after a number of
  others
* `Resumable.rounds` — the turns of some tasks, round by round

## Main results

* `ReadyQueue.Turns.drainFrom_eq`, `ReadyQueue.Turns.drainToFinish_eq` — the loops take the turns
  that there are to take
* `ReadyQueue.Steady.exists_round` — what one round does, and how a round begins
* `ReadyQueue.Steady.exists_rounds` — what a number of rounds do
-/

namespace BulkLookup

universe u v w x

open ReadyQueue Resumable

variable {Q : Type w} {τ : Type u} {ρ : Type v}

/-! ### The turns of a task -/

/-- The first task to finish is the only one so far. -/
theorem Turn.finishers_concat {turns : List (Turn τ ρ)} {turn : Turn τ ρ}
    (hnone : ∀ turn ∈ turns, turn.isFinish = false) (hfinish : turn.isFinish = true) :
    Turn.finishers (turns ++ [turn]) = [turn.task] := by
  have hnil : turns.filter Turn.isFinish = [] := by simpa using hnone
  simp [Turn.finishers, hnil, hfinish]

namespace Resumable

variable [Resumable τ ρ] {t t' : τ} {r : ρ} {n i : Nat}

/-- The turn that a task takes when it is resumed. -/
def nextTurn (t : τ) : Turn τ ρ where
  task := t
  result :=
    match resume t with
    | .ok (_, .finished r) => some r
    | _ => none

/-- The turn that a task takes after a number of others. -/
def turnAfter (i : Nat) (t : τ) : Turn τ ρ := nextTurn (resumed^[i] t)

/-- Turns of some tasks, round by round: a task takes part in a round if it has not finished in an
earlier one. -/
def rounds (pauses : τ → Nat) (ts : List τ) (n : Nat) : List (Turn τ ρ) :=
  (List.range n).flatMap fun i => (ts.filter (i ≤ pauses ·)).map (turnAfter i)

theorem nextTurn_of_finished (h : resume t = .ok (t', .finished r)) : nextTurn t = ⟨t, some r⟩ := by
  simp only [nextTurn, h]

theorem nextTurn_of_suspended (h : resume t = .ok (t', .suspended)) : nextTurn t = ⟨t, none⟩ := by
  simp only [nextTurn, h]

/-- A task that finishes in a turn has come to its result. -/
theorem result?_of_nextTurn (h : (nextTurn t).result = some r) : result? t = some r := by
  unfold nextTurn at h
  dsimp only at h
  split at h
  · next hresume =>
    obtain rfl := Option.some.inj h
    exact result?_of_finished hresume
  · cases h

namespace FinishesAfter

/-- A task with suspensions left has one less after its next turn. -/
theorem resumed (h : FinishesAfter t (n + 1)) : FinishesAfter (resumed t) n := by
  cases h with
  | later hresume h =>
    rw [resumed_of_ok hresume]
    exact h

/-- After some suspensions, a task has the others left. -/
theorem iterate (h : FinishesAfter t n) (hle : i ≤ n) :
    FinishesAfter (Resumable.resumed^[i] t) (n - i) := by
  induction i with
  | zero => exact h
  | succ i ih =>
    rw [Function.iterate_succ_apply']
    apply resumed
    rw [Nat.sub_add_eq, Nat.sub_add_cancel (Nat.sub_pos_of_lt hle)]
    exact ih (Nat.le_of_succ_le hle)

/-- A mark that resuming keeps stays on a task until it finishes. -/
theorem mark_iterate {ι : Type x} {mark : τ → ι} (hmark : Keeps mark) (h : FinishesAfter t n)
    (hle : i ≤ n) : mark (Resumable.resumed^[i] t) = mark t := by
  induction i with
  | zero => rfl
  | succ i ih =>
    rw [Function.iterate_succ_apply', ← ih (Nat.le_of_succ_le hle)]
    have hleft := h.iterate (Nat.le_of_succ_le hle)
    obtain ⟨m, hm⟩ := Nat.exists_eq_add_one_of_ne_zero (Nat.ne_of_gt (Nat.sub_pos_of_lt hle))
    rw [hm] at hleft
    cases hleft with
    | later hresume => rw [resumed_of_ok hresume, hmark hresume]

theorem isFinish_nextTurn (h : FinishesAfter t n) : (nextTurn t).isFinish = decide (n = 0) := by
  cases h with
  | now hresume =>
    rw [nextTurn_of_finished hresume]
    rfl
  | later hresume _ =>
    rw [nextTurn_of_suspended hresume]
    rfl

/-- A task finishes in the turn after all of its suspensions, and in none before. -/
theorem isFinish_turnAfter (h : FinishesAfter t n) (hle : i ≤ n) :
    (turnAfter i t).isFinish = decide (i = n) := by
  rw [turnAfter, (h.iterate hle).isFinish_nextTurn, decide_eq_decide]
  omega

end FinishesAfter

end Resumable

namespace ReadyQueue

variable [ReadyQueue Q τ] [Resumable τ ρ] {q q' q'' : Q} {turns turns' : List (Turn τ ρ)}

/-! ### The loops take the turns that there are to take -/

/-- What an attempt can be is what it is. -/
theorem Advanced.advance_eq {a : Advance Q τ ρ} (h : Advanced q a) : advance q = a := by
  cases h with
  | idle htake => simp only [advance, htake]
  | finished htake hresume => simp only [advance, htake, hresume]
  | suspended htake hresume hschedule => simp only [advance, htake, hresume, hschedule]
  | broke htake hresume => simp only [advance, htake, hresume]
  | refused htake hresume hschedule => simp only [advance, htake, hresume, hschedule]

namespace Turns

theorem append (h : Turns q turns q') (h' : Turns q' turns' q'') :
    Turns q (turns ++ turns') q'' := by
  induction h with
  | nil q => exact h'
  | cons hturn _ ih => exact .cons hturn (ih h')

/-- Working a queue off, the turns that there are to take are taken first. -/
theorem drainFrom_eq (h : Turns q turns q') (earlier : Array (Turn τ ρ)) :
    drainFrom q earlier = drainFrom q' (earlier ++ turns.toArray) := by
  induction h generalizing earlier with
  | nil q => rw [Array.append_empty]
  | @cons q q' q'' turn turns hturn _ ih =>
    rw [drainFrom_of_took hturn.advance_eq, ih, List.push_append_toArray]

/-- Waiting for a task to finish, the turns that there are to take are taken first, if no task
finishes in them. -/
theorem drainToFinishFrom_eq (h : Turns q turns q') (hnone : ∀ turn ∈ turns, turn.isFinish = false)
    (earlier : Array (Turn τ ρ)) :
    drainToFinishFrom q earlier = drainToFinishFrom q' (earlier ++ turns.toArray) := by
  induction h generalizing earlier with
  | nil q => rw [Array.append_empty]
  | @cons q q' q'' turn turns hturn _ ih =>
    obtain ⟨hfirst, hrest⟩ := List.forall_mem_cons.1 hnone
    rw [drainToFinishFrom_of_took hturn.advance_eq, if_neg (Bool.eq_false_iff.1 hfirst), ih hrest,
      List.push_append_toArray]

/-- Waiting for a task to finish ends with the first turn in which one does. -/
theorem drainToFinish_eq (h : Turns q turns q') (hnone : ∀ turn ∈ turns, turn.isFinish = false)
    {turn : Turn τ ρ} (hturn : Advanced q' (.took q'' turn)) (hfinish : turn.isFinish = true) :
    drainToFinish q = { state := q'', turns := (turns ++ [turn]).toArray } := by
  rw [drainToFinish, h.drainToFinishFrom_eq hnone, drainToFinishFrom_of_took hturn.advance_eq,
    if_pos hfinish, Array.empty_append, List.push_toArray]

end Turns

/-! ### Rounds -/

variable [InOrder Q] {fits : Q → Prop} {ts before after : List τ} {t : τ} {n : Nat}

/-- An empty queue has no turn to give. -/
theorem exists_idle_of_tasks_eq_nil (hnil : tasks q = []) :
    ∃ q', Advanced q (.idle q' : Advance Q τ ρ) ∧ tasks q' = [] := by
  rcases htake : takeNext q with ⟨_ | t, q'⟩
  · have htasks := tasks_of_takeNext htake
    exact ⟨q', .idle htake, htasks.symm.trans hnil⟩
  · have htasks := tasks_of_takeNext htake
    rw [hnil] at htasks
    cases htasks

namespace Steady

/-- The task in front has its turn, and goes behind all others if it suspends. -/
theorem exists_turn (h : Steady fits) (hq : fits q) (htasks : tasks q = t :: ts)
    (hfinishes : FinishesAfter t n) :
    ∃ q', Advanced q (.took q' (nextTurn t)) ∧ fits q' ∧
      tasks q' = ts ++ if 0 < n then [resumed t] else [] := by
  rcases htake : ReadyQueue.takeNext q with ⟨_ | t₁, q₁⟩
  · have hnil : tasks q = [] := NeverIdle.tasks_eq_nil q (by rw [htake])
    rw [htasks] at hnil
    cases hnil
  · have htasks₁ := tasks_of_takeNext htake
    rw [htasks] at htasks₁
    obtain ⟨rfl, hothers⟩ := List.cons.inj htasks₁
    have hothers : tasks q₁ = ts := hothers.symm
    cases hfinishes with
    | now hresume =>
      have hadvanced : Advanced q (.took q₁ (nextTurn t)) := by
        rw [nextTurn_of_finished hresume]
        exact .finished htake hresume
      exact ⟨q₁, hadvanced, h.fits_of_took hq hadvanced, hothers.trans (List.append_nil _).symm⟩
    | @later t t' n hresume hfinishes =>
      have haccepted := h.accepts q t' hq (by rw [htake]; rfl)
      rw [htake] at haccepted
      have hschedule : ReadyQueue.schedule q₁ t' = (none, (ReadyQueue.schedule q₁ t').2) :=
        Prod.ext haccepted rfl
      have hadvanced : Advanced q (.took (ReadyQueue.schedule q₁ t').2 (nextTurn t)) := by
        rw [nextTurn_of_suspended hresume]
        exact .suspended htake hresume hschedule
      refine ⟨_, hadvanced, h.fits_of_took hq hadvanced, ?_⟩
      rw [tasks_of_accepted hschedule, hothers, resumed_of_ok hresume, if_pos n.succ_pos]

/-- A round begins: some tasks in front have their turns, one after the other, and those of them
that suspend go behind all others. -/
theorem exists_round (h : Steady fits) (hq : fits q) {pauses : τ → Nat} {i : Nat}
    (htasks : tasks q = ts.map resumed^[i] ++ after)
    (hpauses : ∀ t ∈ ts, FinishesAfter t (pauses t)) (hleft : ∀ t ∈ ts, i ≤ pauses t) :
    ∃ q', Turns q (ts.map (turnAfter i)) q' ∧ fits q' ∧
      tasks q' = after ++ (ts.filter (i < pauses ·)).map resumed^[i + 1] := by
  induction ts generalizing q after with
  | nil => exact ⟨q, .nil q, hq, htasks.trans (List.append_nil _).symm⟩
  | cons t ts ih =>
    obtain ⟨hfirst, hrest⟩ := List.forall_mem_cons.1 hpauses
    obtain ⟨hle, hleft⟩ := List.forall_mem_cons.1 hleft
    -- If the first task suspends, it joins those that stand behind the ones still to come.
    obtain ⟨q₁, hturn, hq₁, htasks₁⟩ := h.exists_turn hq htasks (hfirst.iterate hle)
    rw [List.append_eq, List.append_assoc] at htasks₁
    obtain ⟨q', hturns, hq', htasks'⟩ := ih hq₁ htasks₁ hrest hleft
    refine ⟨q', .cons hturn hturns, hq', ?_⟩
    rw [htasks', List.append_assoc, List.filter_cons]
    by_cases hlt : i < pauses t
    · rw [if_pos (Nat.sub_pos_of_lt hlt), if_pos (decide_eq_true hlt), List.map_cons,
        Function.iterate_succ_apply']
      rfl
    · rw [if_neg (by omega), if_neg (by simpa using hlt)]
      rfl

/-- Some rounds: the tasks that are left have had as many turns as there were rounds, and they are
in the order in which they were at the start. -/
theorem exists_rounds (h : Steady fits) (hq : fits q) {pauses : τ → Nat}
    (hpauses : ∀ t ∈ tasks q, FinishesAfter t (pauses t)) (n : Nat) :
    ∃ q', Turns q (rounds pauses (tasks q) n) q' ∧ fits q' ∧
      tasks q' = ((tasks q).filter (n ≤ pauses ·)).map resumed^[n] := by
  induction n with
  | zero =>
    refine ⟨q, .nil q, hq, ?_⟩
    simp
  | succ n ih =>
    obtain ⟨q₁, hturns, hq₁, htasks₁⟩ := ih
    obtain ⟨q', hround, hq', htasks'⟩ := h.exists_round hq₁ (htasks₁.trans (List.append_nil _).symm)
      (fun t hmem => hpauses t (List.mem_of_mem_filter hmem))
      (fun t hmem => of_decide_eq_true (List.mem_filter.1 hmem).2)
    refine ⟨q', ?_, hq', ?_⟩
    · rw [rounds, List.range_succ, List.flatMap_append, List.flatMap_singleton]
      exact hturns.append hround
    · rw [htasks', List.nil_append, List.filter_filter]
      congr 2
      funext t
      rw [← Bool.decide_and, decide_eq_decide]
      omega

end Steady

end ReadyQueue

end BulkLookup
