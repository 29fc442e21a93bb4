import BulkLookup.Work.Drain
import BulkLookup.Work.Laws

/-!
# Turns, and what they do to a queue

A queue is advanced turn by turn, and both loops that work it off consist of such turns and of one
last attempt that ends them. What one turn does is read off here once; what whole loops do follows
by induction over their turns.

Tasks change as they are resumed, and so they are followed by a mark that resuming keeps. With
respect to any such mark, the tasks that a queue held before are those that finished, those that it
holds afterwards, and those that were lost on the way. A queue that loses nothing loses a task only
when an attempt fails, and then it loses one.

## Main definitions

* `Resumable.Keeps` — marks that stay on a task as it is resumed
* `Resumable.result?` — the result that a task comes to, however often it suspends
* `Turn.finishers` — the tasks that finished in some turns
* `ReadyQueue.Advanced` — what an attempt to advance a queue can be
* `ReadyQueue.Turns`, `ReadyQueue.Works` — turns one after the other, and a loop of them
* `ReadyQueue.Drains`, `ReadyQueue.Awaits` — how the two loops end

## Main results

* `ReadyQueue.advanced`, `ReadyQueue.drains`, `ReadyQueue.awaits` — what attempts and loops do
* `ReadyQueue.Works.perm` — a loop neither makes nor doubles a task
* `ReadyQueue.Works.length_eq` — how many tasks a loop loses, on a queue that loses nothing
* `ReadyQueue.Works.result_eq` — tasks that finish have come to their results
-/

namespace BulkLookup

universe u v w x

variable {Q : Type w} {τ : Type u} {ρ : Type v} {ι : Type x}

/-- Two steps in a row: what was there and what joined it in between is what left in either step,
what is there in the end, and what was lost. -/
theorem perm_of_steps {start left kept lost joined left' kept' lost' : List ι}
    (h : start.Perm (left ++ kept ++ lost)) (h' : (kept ++ joined).Perm (left' ++ kept' ++ lost')) :
    (start ++ joined).Perm (left ++ left' ++ kept' ++ (lost' ++ lost)) :=
  calc
    (start ++ joined).Perm (left ++ kept ++ lost ++ joined) := h.append_right joined
    (left ++ kept ++ lost ++ joined).Perm (left ++ (kept ++ joined) ++ lost) := by
      rw [List.append_assoc (left ++ kept), ← List.append_assoc left, List.append_assoc _ joined]
      exact List.perm_append_comm.append_left (left ++ kept)
    (left ++ (kept ++ joined) ++ lost).Perm (left ++ (left' ++ kept' ++ lost') ++ lost) :=
      (h'.append_left left).append_right lost
    (left ++ (left' ++ kept' ++ lost') ++ lost).Perm (left ++ left' ++ kept' ++ (lost' ++ lost)) :=
      .of_eq (by simp only [List.append_assoc])

/-! ### Tasks on their own -/

namespace Resumable

variable [Resumable τ ρ]

/-- A mark that stays on a task as it is resumed. -/
def Keeps (mark : τ → ι) : Prop :=
  ∀ {t t' : τ}, resume t = .ok (t', .suspended) → mark t' = mark t

/-- The result that a task comes to, however often it suspends, unless it meets a fault. -/
def result? (t : τ) : Option ρ :=
  match _h : resume t with
  | .error _ => none
  | .ok (_, .finished r) => some r
  | .ok (t', .suspended) => result? t'
termination_by pausesLeft t
decreasing_by exact pausesLeft_lt ‹_›

theorem result?_of_finished {t t' : τ} {r : ρ} (h : resume t = .ok (t', .finished r)) :
    result? t = some r := by
  rw [result?]
  split <;> simp_all

theorem result?_of_suspended {t t' : τ} (h : resume t = .ok (t', .suspended)) :
    result? t' = result? t := by
  conv => rhs; rw [result?]
  split <;> simp_all

theorem result?_of_error {t : τ} {fault : Fault} (h : resume t = .error fault) :
    result? t = none := by
  rw [result?]
  split <;> simp_all

/-- Suspending puts off the result and does not change it. -/
theorem keeps_result? : Keeps (result? : τ → Option ρ) := fun h => result?_of_suspended h

end Resumable

/-- The tasks that finished in some turns. -/
def Turn.finishers (turns : List (Turn τ ρ)) : List τ := (turns.filter Turn.isFinish).map Turn.task

theorem Turn.finishers_append (turns turns' : List (Turn τ ρ)) :
    finishers (turns ++ turns') = finishers turns ++ finishers turns' := by
  rw [finishers, List.filter_append, List.map_append, finishers, finishers]

/-- A task that finishes has a result. -/
theorem Turn.length_finishers (turns : List (Turn τ ρ)) :
    (finishers turns).length = (turns.filterMap (·.result)).length := by
  rw [finishers, List.length_map, ← List.countP_eq_length_filter, List.length_filterMap_eq_countP]
  rfl

theorem Progress.finishes_eq {σ : Type w} (p : Progress σ τ ρ) :
    p.finishes = (Turn.finishers p.turns.toList).length := by
  rw [finishes, Turn.finishers, List.length_map, ← List.countP_eq_length_filter,
    Array.countP_toList]

namespace ReadyQueue

variable [ReadyQueue Q τ] [Resumable τ ρ]

/-! ### One attempt -/

/-- What an attempt to advance a queue can be. -/
inductive Advanced (q : Q) : Advance Q τ ρ → Prop where
  | idle {q' : Q} : takeNext q = (none, q') → Advanced q (.idle q')
  | finished {q' : Q} {t t' : τ} {r : ρ} : takeNext q = (some t, q') →
    Resumable.resume t = .ok (t', .finished r) → Advanced q (.took q' ⟨t, some r⟩)
  | suspended {q₁ q' : Q} {t t' : τ} : takeNext q = (some t, q₁) →
    Resumable.resume t = .ok (t', .suspended) → schedule q₁ t' = (none, q') →
    Advanced q (.took q' ⟨t, none⟩)
  | broke {q' : Q} {t : τ} {fault : Fault} : takeNext q = (some t, q') →
    Resumable.resume t = .error fault → Advanced q (.failed q' none fault)
  | refused {q₁ q' : Q} {t t' : τ} {fault : Fault} : takeNext q = (some t, q₁) →
    Resumable.resume t = .ok (t', .suspended) → schedule q₁ t' = (some fault, q') →
    Advanced q (.failed q' (some ⟨t, none⟩) fault)

theorem advanced (q : Q) : Advanced q (advance q) := by
  unfold advance
  split
  · next htake => exact .idle htake
  · next t q₁ htake =>
    split
    · next hresume => exact .broke htake hresume
    · next hresume => exact .finished htake hresume
    · next t' hresume =>
      split
      · next hschedule => exact .suspended htake hresume hschedule
      · next hschedule => exact .refused htake hresume hschedule

end ReadyQueue

namespace Advance

/-- The queue after an attempt. -/
def queue : Advance Q τ ρ → Q
  | .idle q => q
  | .took q _ => q
  | .failed q _ _ => q

/-- The turn taken in an attempt, if one was. -/
def turns : Advance Q τ ρ → List (Turn τ ρ)
  | .idle _ => []
  | .took _ turn => [turn]
  | .failed _ turn _ => turn.toList

/-- How many tasks an attempt takes from a queue that loses nothing, other than by letting them
finish. -/
def losses : Advance Q τ ρ → Nat
  | .idle _ => 0
  | .took _ _ => 0
  | .failed _ _ _ => 1

end Advance

namespace ReadyQueue

variable [ReadyQueue Q τ] [Resumable τ ρ] {q q' q'' : Q} {mark : τ → ι}

/-- What a queue held is the task taken out, what it holds afterwards, and what was lost. -/
theorem exists_perm_of_takeNext {t : τ} (h : takeNext q = (some t, q')) :
    ∃ lost, (tasks q).Perm (t :: (tasks q' ++ lost)) := by
  obtain ⟨lost, hlost⟩ := tasks_takeNext q
  rw [h] at hlost
  exact ⟨lost, hlost⟩

/-- To take a task out and put it back with the mark it had makes no task, whether or not the queue
accepts it. -/
theorem exists_perm_of_schedule {t t' : τ} (htake : takeNext q = (some t, q'))
    (hmark : mark t' = mark t) :
    ∃ lost, ((tasks q).map mark).Perm ((tasks (schedule q' t').2).map mark ++ lost) := by
  obtain ⟨lost, hlost⟩ := exists_perm_of_takeNext htake
  obtain ⟨lost', hlost'⟩ := tasks_schedule q' t'
  -- The task that goes back has the mark of the one taken out.
  have hback := hlost'.map mark
  rw [List.map_cons, hmark, List.map_append] at hback
  refine ⟨lost'.map mark ++ lost.map mark, (hlost.map mark).trans ?_⟩
  rw [List.map_cons, List.map_append, ← List.cons_append, ← List.append_assoc]
  exact hback.append_right _

/-- An attempt neither makes nor doubles a task. -/
theorem Advanced.perm {a : Advance Q τ ρ} (h : Advanced q a) (hmark : Resumable.Keeps mark) :
    ∃ lost, ((tasks q).map mark).Perm
      ((Turn.finishers a.turns).map mark ++ (tasks a.queue).map mark ++ lost) := by
  cases h with
  | @idle q' htake =>
    obtain ⟨lost, hlost⟩ := tasks_takeNext q
    rw [htake] at hlost
    refine ⟨lost.map mark, ?_⟩
    rw [← List.map_append, ← List.map_append]
    exact hlost.map mark
  | @finished q' t t' r htake hresume =>
    obtain ⟨lost, hlost⟩ := exists_perm_of_takeNext htake
    refine ⟨lost.map mark, ?_⟩
    rw [← List.map_append, ← List.map_append]
    exact hlost.map mark
  | @suspended q₁ q' t t' htake hresume hschedule =>
    have hback := exists_perm_of_schedule htake (hmark hresume)
    rw [hschedule] at hback
    exact hback
  -- The task that met the fault is gone with it.
  | @broke q' t fault htake hresume =>
    obtain ⟨lost, hlost⟩ := exists_perm_of_takeNext htake
    refine ⟨mark t :: lost.map mark, (hlost.map mark).trans ?_⟩
    rw [List.map_cons, List.map_append]
    exact List.perm_middle.symm
  | @refused q₁ q' t t' fault htake hresume hschedule =>
    have hback := exists_perm_of_schedule htake (hmark hresume)
    rw [hschedule] at hback
    exact hback

/-- What a queue that loses nothing hands out is what it holds less afterwards. -/
theorem length_takeNext [LosesNothing Q] (q : Q) :
    (tasks q).length = (takeNext q).1.toList.length + (tasks (takeNext q).2).length := by
  have hperm : (tasks q).Perm ((takeNext q).1.toList ++ tasks (takeNext q).2) :=
    LosesNothing.perm_takeNext q
  rw [hperm.length_eq, List.length_append]

theorem length_of_takeNext [LosesNothing Q] {t : τ} (h : takeNext q = (some t, q')) :
    (tasks q).length = (tasks q').length + 1 := by
  have hlength := length_takeNext q
  rw [h] at hlength
  rw [hlength, Nat.add_comm]
  rfl

/-- A queue that loses nothing holds a task more once it has accepted one. -/
theorem perm_of_accepted [LosesNothing Q] {t : τ} (h : schedule q t = (none, q')) :
    (tasks q').Perm (t :: tasks q) := by
  have hperm := LosesNothing.perm_schedule q t (by rw [h])
  rwa [h] at hperm

/-- A queue that loses nothing holds the same tasks after it has refused one. -/
theorem perm_of_refused [LosesNothing Q] {t : τ} {fault : Fault}
    (h : schedule q t = (some fault, q')) : (tasks q').Perm (tasks q) := by
  have hperm := LosesNothing.perm_refused q t (by rw [h]; exact Option.some_ne_none fault)
  rwa [h] at hperm

/-- An attempt on a queue that loses nothing takes a task from it if the task finishes, or if the
attempt fails. -/
theorem Advanced.length_eq [LosesNothing Q] {a : Advance Q τ ρ} (h : Advanced q a) :
    (tasks q).length = (Turn.finishers a.turns).length + (tasks a.queue).length + a.losses := by
  cases h with
  | @idle q' htake =>
    have hlength := length_takeNext q
    rw [htake] at hlength
    exact hlength
  | @finished q' t t' r htake hresume =>
    rw [length_of_takeNext htake]
    exact Nat.add_comm _ 1
  | @suspended q₁ q' t t' htake hresume hschedule =>
    rw [length_of_takeNext htake, ← List.length_cons, ← (perm_of_accepted hschedule).length_eq]
    exact (Nat.zero_add _).symm
  | @broke q' t fault htake hresume =>
    rw [length_of_takeNext htake]
    exact congrArg (· + 1) (Nat.zero_add _).symm
  | @refused q₁ q' t t' fault htake hresume hschedule =>
    rw [length_of_takeNext htake, ← (perm_of_refused hschedule).length_eq]
    exact congrArg (· + 1) (Nat.zero_add _).symm

/-- A queue that never sits on a task is empty when an attempt finds none. -/
theorem Advanced.tasks_eq_nil [NeverIdle Q] (h : Advanced q (.idle q' : Advance Q τ ρ)) :
    tasks q' = [] := by
  cases h with
  | idle htake =>
    have hnil : tasks q = [] := NeverIdle.tasks_eq_nil q (by rw [htake])
    obtain ⟨lost, hlost⟩ := tasks_takeNext q
    rw [htake, hnil] at hlost
    exact (List.append_eq_nil_iff.1 hlost.nil_eq.symm).1

/-- No task finishes in an attempt that fails. -/
theorem Advanced.finishers_eq_nil {turn : Option (Turn τ ρ)} {fault : Fault}
    (h : Advanced q (.failed q' turn fault)) :
    Turn.finishers (Advance.failed q' turn fault).turns = [] := by
  cases h <;> rfl

/-- A task that finishes has come to its result. -/
theorem Advanced.result_eq {turn : Turn τ ρ} (h : Advanced q (.took q' turn)) {r : ρ}
    (hr : turn.result = some r) : Resumable.result? turn.task = some r := by
  cases h with
  | finished htake hresume =>
    obtain rfl := Option.some.inj hr
    exact Resumable.result?_of_finished hresume
  | suspended => cases hr

/-! ### Turns one after the other -/

/-- Turns taken one after the other. -/
inductive Turns : Q → List (Turn τ ρ) → Q → Prop where
  | nil (q : Q) : Turns q [] q
  | cons {q q' q'' : Q} {turn : Turn τ ρ} {turns : List (Turn τ ρ)} :
    Advanced q (.took q' turn) → Turns q' turns q'' → Turns q (turn :: turns) q''

namespace Turns

variable {turns : List (Turn τ ρ)}

theorem concat {turn : Turn τ ρ} (h : Turns q turns q') (hturn : Advanced q' (.took q'' turn)) :
    Turns q (turns ++ [turn]) q'' := by
  induction h with
  | nil q => exact .cons hturn (.nil q'')
  | cons hfirst _ ih => exact .cons hfirst (ih hturn)

theorem perm (h : Turns q turns q') (hmark : Resumable.Keeps mark) :
    ∃ lost, ((tasks q).map mark).Perm
      ((Turn.finishers turns).map mark ++ (tasks q').map mark ++ lost) := by
  induction h with
  | nil q => exact ⟨[], .of_eq (List.append_nil _).symm⟩
  | @cons q q' q'' turn turns hturn _ ih =>
    obtain ⟨lost, hlost⟩ := hturn.perm hmark
    obtain ⟨lost', hlost'⟩ := ih
    rw [← List.append_nil (List.map mark (tasks _))] at hlost'
    have hturns : Turn.finishers (turn :: turns) = Turn.finishers [turn] ++ Turn.finishers turns :=
      Turn.finishers_append [turn] turns
    have hsteps := perm_of_steps hlost hlost'
    rw [List.append_nil] at hsteps
    rw [hturns, List.map_append]
    exact ⟨lost' ++ lost, hsteps⟩

theorem length_eq [LosesNothing Q] (h : Turns q turns q') :
    (tasks q).length = (Turn.finishers turns).length + (tasks q').length := by
  induction h with
  | nil q => exact (Nat.zero_add _).symm
  | @cons q q' q'' turn turns hturn _ ih =>
    have hfirst := hturn.length_eq
    have hturns : Turn.finishers (turn :: turns) = Turn.finishers [turn] ++ Turn.finishers turns :=
      Turn.finishers_append [turn] turns
    rw [hturns, List.length_append]
    simp only [Advance.turns, Advance.queue, Advance.losses] at hfirst
    omega

theorem result_eq (h : Turns q turns q') : ∀ turn ∈ turns, ∀ r, turn.result = some r →
    Resumable.result? turn.task = some r := by
  induction h with
  | nil q => simp
  | @cons q q' q'' turn turns hturn _ ih =>
    intro turn' hmem r hr
    rcases List.mem_cons.1 hmem with rfl | hmem
    · exact hturn.result_eq hr
    · exact ih turn' hmem r hr

end Turns

/-! ### The two loops -/

/-- What a loop came to: some turns, and a last attempt that ended it. -/
structure Works (q : Q) (p : Progress Q τ ρ) (earlier : List (Turn τ ρ)) (last : Advance Q τ ρ) :
    Prop where
  exists_turns : ∃ q', Turns q earlier q' ∧ Advanced q' last
  state_eq : p.state = last.queue
  turns_eq : p.turns.toList = earlier ++ last.turns

namespace Works

variable {p : Progress Q τ ρ} {earlier : List (Turn τ ρ)} {last : Advance Q τ ρ}

/-- A loop neither makes nor doubles a task. -/
theorem perm (h : Works q p earlier last) (hmark : Resumable.Keeps mark) :
    ∃ lost, ((tasks q).map mark).Perm
      ((Turn.finishers p.turns.toList).map mark ++ (tasks p.state).map mark ++ lost) := by
  obtain ⟨q', hturns, hlast⟩ := h.exists_turns
  obtain ⟨lost, hlost⟩ := hturns.perm hmark
  obtain ⟨lost', hlost'⟩ := hlast.perm hmark
  rw [← List.append_nil (List.map mark (tasks _))] at hlost'
  have hsteps := perm_of_steps hlost hlost'
  rw [List.append_nil] at hsteps
  rw [h.turns_eq, h.state_eq, Turn.finishers_append, List.map_append]
  exact ⟨lost' ++ lost, hsteps⟩

/-- On a queue that loses nothing, a loop loses a task only when its last attempt fails. -/
theorem length_eq [LosesNothing Q] (h : Works q p earlier last) :
    (tasks q).length = p.finishes + (tasks p.state).length + last.losses := by
  obtain ⟨q', hturns, hlast⟩ := h.exists_turns
  rw [p.finishes_eq, h.turns_eq, h.state_eq, Turn.finishers_append, List.length_append,
    hturns.length_eq, hlast.length_eq]
  omega

/-- If the last attempt is the first to let a task finish, one has finished. -/
theorem finishes_eq_one {q' : Q} {turn : Turn τ ρ} (h : Works q p earlier (.took q' turn))
    (hearlier : Turn.finishers earlier = []) (hturn : turn.isFinish = true) : p.finishes = 1 := by
  rw [p.finishes_eq, h.turns_eq, Turn.finishers_append, hearlier, Turn.finishers, Advance.turns,
    List.filter_cons_of_pos hturn]
  rfl

/-- If no task finishes, none has finished. -/
theorem finishes_eq_zero (h : Works q p earlier last) (hearlier : Turn.finishers earlier = [])
    (hlast : Turn.finishers last.turns = []) : p.finishes = 0 := by
  rw [p.finishes_eq, h.turns_eq, Turn.finishers_append, hearlier, hlast]
  rfl

/-- Tasks that finish in a loop have come to their results. -/
theorem result_eq (h : Works q p earlier last) {turn : Turn τ ρ} (hmem : turn ∈ p.turns.toList)
    {r : ρ} (hr : turn.result = some r) : Resumable.result? turn.task = some r := by
  obtain ⟨q', hturns, hlast⟩ := h.exists_turns
  rw [h.turns_eq] at hmem
  rcases List.mem_append.1 hmem with hmem | hmem
  · exact hturns.result_eq turn hmem r hr
  · cases hlast with
    | idle => cases hmem
    | finished htake hresume =>
      obtain rfl := List.mem_singleton.1 hmem
      exact (Advanced.finished htake hresume).result_eq hr
    | suspended htake hresume hschedule =>
      obtain rfl := List.mem_singleton.1 hmem
      cases hr
    | broke => cases hmem
    | refused htake hresume hschedule =>
      obtain rfl := List.mem_singleton.1 hmem
      cases hr

end Works

/-- How working a queue off ends: with an attempt that finds no task, or with one that fails. -/
inductive Drains (q : Q) (p : Progress Q τ ρ) : Prop where
  | idle {earlier : List (Turn τ ρ)} {q' : Q} : Works q p earlier (.idle q') → p.fault = none →
    Drains q p
  | failed {earlier : List (Turn τ ρ)} {q' : Q} {turn : Option (Turn τ ρ)} {fault : Fault} :
    Works q p earlier (.failed q' turn fault) → p.fault = some fault → Drains q p

/-- How waiting for a task to finish ends, when none has finished before: with a turn in which one
does, with an attempt that finds no task, or with one that fails. -/
inductive Awaits (q : Q) (p : Progress Q τ ρ) : Prop where
  | finished {earlier : List (Turn τ ρ)} {q' : Q} {turn : Turn τ ρ} :
    Works q p earlier (.took q' turn) → Turn.finishers earlier = [] → turn.isFinish = true →
    p.fault = none → Awaits q p
  | idle {earlier : List (Turn τ ρ)} {q' : Q} : Works q p earlier (.idle q') →
    Turn.finishers earlier = [] → p.fault = some .nothingQueued → Awaits q p
  | failed {earlier : List (Turn τ ρ)} {q' : Q} {turn : Option (Turn τ ρ)} {fault : Fault} :
    Works q p earlier (.failed q' turn fault) → Turn.finishers earlier = [] →
    p.fault = some fault → Awaits q p

theorem drains_drainFrom {turns : Array (Turn τ ρ)} (h : Turns q turns.toList q') :
    Drains q (drainFrom q' turns) := by
  fun_induction drainFrom q' turns with
  | case1 q' turns q'' hidle =>
    exact .idle ⟨⟨q', h, hidle ▸ advanced q'⟩, rfl, (List.append_nil _).symm⟩ rfl
  | case2 q' turns q'' turn fault hfailed =>
    refine .failed ⟨⟨q', h, hfailed ▸ advanced q'⟩, rfl, ?_⟩ rfl
    cases turn <;> exact Array.toList_append
  | case3 q' turns q'' turn htook ih =>
    apply ih
    rw [Array.toList_push]
    exact h.concat (htook ▸ advanced q')

theorem drains (q : Q) : Drains q (drain q) := drains_drainFrom (.nil q)

theorem awaits_drainToFinishFrom {turns : Array (Turn τ ρ)} (h : Turns q turns.toList q')
    (hnone : Turn.finishers turns.toList = []) : Awaits q (drainToFinishFrom q' turns) := by
  fun_induction drainToFinishFrom q' turns with
  | case1 q' turns q'' hidle =>
    exact .idle ⟨⟨q', h, hidle ▸ advanced q'⟩, rfl, (List.append_nil _).symm⟩ hnone rfl
  | case2 q' turns q'' turn fault hfailed =>
    refine .failed ⟨⟨q', h, hfailed ▸ advanced q'⟩, rfl, ?_⟩ hnone rfl
    cases turn <;> exact Array.toList_append
  | case3 q' turns q'' turn htook hfinish =>
    exact .finished ⟨⟨q', h, htook ▸ advanced q'⟩, rfl, Array.toList_push⟩ hnone hfinish rfl
  | case4 q' turns q'' turn htook hfinish ih =>
    apply ih
    · rw [Array.toList_push]
      exact h.concat (htook ▸ advanced q')
    · rw [Array.toList_push, Turn.finishers_append, hnone, Turn.finishers,
        List.filter_cons_of_neg hfinish]
      rfl

theorem awaits (q : Q) : Awaits q (drainToFinish q) := awaits_drainToFinishFrom (.nil q) rfl

end ReadyQueue

end BulkLookup
