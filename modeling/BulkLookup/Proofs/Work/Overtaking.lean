import BulkLookup.Proofs.Work.Completion
import Mathlib.Data.List.Forall2
import Mathlib.Logic.Relation

/-!
# No task overtakes another

On a queue that hands tasks out in the order in which it accepted them, a task that is spawned
earlier and suspends no more often finishes earlier. In particular, tasks that suspend equally often
finish in the order in which they are spawned. This depends neither on how many streams there are
nor on where spawns wait or runs come in between.

The reason is an order among the tasks in the queue, of which each turn keeps as much as is needed.
Consider two of them, of which the one spawned earlier suspends no more often than the other. If it
is in front, it has no more suspensions left than the other, and if it is behind, it has fewer. The
task in front is the next to have a turn, after which it is behind and has one suspension less.

## Main definitions

* `Resumable.Becomes` — what a task becomes as it is resumed
* `Precedes` — a task is spawned before another and suspends no more often
* `Runner` — a task in the queue, with what it was when it was spawned
* `InLine` — how the tasks in the queue and those that finished stand to each other

## Main results

* `InLine.finish`, `InLine.rotate`, `InLine.join` — what turns and admissions do to the line
* `lasting_inLine` — tasks stay in line
* `Ledger.record_without_overtaking` — no task overtakes another
-/

namespace BulkLookup

universe u v w x

open ReadyQueue Resumable

variable {Q : Type w} {τ : Type u} {ρ : Type v} {ι : Type x}

/-! ### Tasks and what they become -/

namespace Resumable

variable [Resumable τ ρ] {t t' : τ}

/-- What a task becomes as it is resumed, as long as it suspends. -/
def Becomes : τ → τ → Prop := Relation.ReflTransGen fun t t' => resume t = .ok (t', .suspended)

theorem Keeps.eq_of_becomes {mark : τ → ι} (hmark : Keeps mark) (h : Becomes t t') :
    mark t' = mark t := by
  induction h with
  | refl => rfl
  | tail _ hresume ih => exact (hmark hresume).trans ih

theorem Keeps.map_eq_of_becomes {mark : τ → ι} (hmark : Keeps mark) {ts ts' : List τ}
    (h : List.Forall₂ Becomes ts ts') : ts'.map mark = ts.map mark := by
  induction h with
  | nil => rfl
  | cons hfirst _ ih => rw [List.map_cons, List.map_cons, hmark.eq_of_becomes hfirst, ih]

end Resumable

/-- Of two tasks with their numbers in the order in which they are spawned: the first is spawned
before the second and suspends no more often. -/
def Precedes (pauses : τ → Nat) (a b : τ × Nat) : Prop := a.2 < b.2 ∧ pauses a.1 ≤ pauses b.1

/-- In a list in which no task comes before one that precedes it, a task that precedes another comes
before it. -/
theorem Precedes.sublist {pauses : τ → Nat} {a b : τ × Nat} (h : Precedes pauses a b)
    {order : List (τ × Nat)} (hordered : order.Pairwise fun a b => ¬ Precedes pauses b a)
    (ha : a ∈ order) (hb : b ∈ order) : [a, b].Sublist order := by
  induction order with
  | nil => cases ha
  | cons c order ih =>
    obtain ⟨hfirst, hrest⟩ := List.pairwise_cons.1 hordered
    rcases List.mem_cons.1 ha with rfl | ha'
    · rcases List.mem_cons.1 hb with rfl | hb'
      · exact absurd h.1 (Nat.lt_irrefl _)
      · exact (List.singleton_sublist.2 hb').cons_cons a
    · rcases List.mem_cons.1 hb with rfl | hb'
      · exact absurd h (hfirst a ha')
      · exact (ih hrest ha' hb').cons c

/-- A task in a queue. -/
structure Runner (τ : Type u) where
  /-- The task as it was when it was spawned, and its number. -/
  entrant : τ × Nat
  /-- The task as it is now. -/
  now : τ
  /-- How many suspensions it has left. -/
  left : Nat

namespace Runner

variable {pauses : τ → Nat}

/-- Of two tasks in a queue, the first is in front of the second: the one that precedes the other is
nearer to its finish, or just as near if it is in front. -/
def Ahead (pauses : τ → Nat) (r r' : Runner τ) : Prop :=
  (Precedes pauses r.entrant r'.entrant → r.left ≤ r'.left) ∧
    (Precedes pauses r'.entrant r.entrant → r'.left < r.left)

variable [Resumable τ ρ]

/-- What is said of a task in a queue is so. -/
structure Valid (pauses : τ → Nat) (r : Runner τ) : Prop where
  becomes : Becomes r.entrant.1 r.now
  finishes : FinishesAfter r.now r.left
  left_le : r.left ≤ pauses r.entrant.1

end Runner

open Runner

/-! ### Queues that keep the order -/

namespace ReadyQueue

variable [ReadyQueue Q τ] [InOrder Q] {q q' : Q} {t : τ}

theorem tasks_of_takeNext {t? : Option τ} (h : takeNext q = (t?, q')) :
    tasks q = t?.toList ++ tasks q' := by
  have htasks : tasks q = (takeNext q).1.toList ++ tasks (takeNext q).2 :=
    InOrder.tasks_takeNext_eq q
  rwa [h] at htasks

theorem tasks_of_accepted (h : schedule q t = (none, q')) : tasks q' = tasks q ++ [t] := by
  have htasks := InOrder.tasks_schedule_eq q t (by rw [h])
  rwa [h] at htasks

theorem tasks_of_refused {fault : Fault} (h : schedule q t = (some fault, q')) :
    tasks q' = tasks q := by
  have htasks := InOrder.tasks_refused_eq q t (by rw [h]; exact Option.some_ne_none fault)
  rwa [h] at htasks

end ReadyQueue

/-! ### Tasks in line -/

section InLine

variable [ReadyQueue Q τ] [Resumable τ ρ]

/-- The tasks `ts` were admitted and the turns `turns` were taken on a queue that hands tasks out in
order: the tasks `waiting` are in the queue, front first, the tasks `finished` have finished, in
that order, and the tasks `lost` are gone. Of the tasks in the queue, each is ahead of those behind
it, and no task has finished before one that precedes it. -/
structure InLine (pauses : τ → Nat) (q : Q) (ts : List τ) (turns : List (Turn τ ρ))
    (waiting : List (Runner τ)) (finished lost : List (τ × Nat)) : Prop where
  tasks_eq : tasks q = waiting.map Runner.now
  valid : ∀ r ∈ waiting, r.Valid pauses
  becomes : List.Forall₂ Becomes (finished.map Prod.fst) (Turn.finishers turns)
  perm : ts.zipIdx.Perm (finished ++ waiting.map Runner.entrant ++ lost)
  ahead : waiting.Pairwise (Ahead pauses)
  ordered : finished.Pairwise fun a b => ¬ Precedes pauses b a
  not_precedes : ∀ a ∈ finished, ∀ r ∈ waiting, ¬ Precedes pauses r.entrant a

namespace InLine

variable {pauses : τ → Nat} {q q' : Q} {ts : List τ} {turns : List (Turn τ ρ)} {r r' : Runner τ}
  {waiting rest : List (Runner τ)} {finished lost : List (τ × Nat)} {t t' : τ}

/-- The task in front finishes. -/
theorem finish (h : InLine pauses q ts turns (r :: rest) finished lost)
    (htasks : tasks q' = rest.map Runner.now) {result : ρ}
    (hresume : resume r.now = .ok (t', .finished result)) :
    InLine pauses q' ts (turns ++ [⟨r.now, some result⟩]) rest (finished ++ [r.entrant]) lost := by
  have hvalid := h.valid r List.mem_cons_self
  have hzero := hvalid.finishes.eq_zero_of_finished hresume
  obtain ⟨hfront, hahead⟩ := List.pairwise_cons.1 h.ahead
  refine ⟨htasks, fun r' hmem => h.valid r' (List.mem_cons_of_mem r hmem), ?_, ?_, hahead, ?_, ?_⟩
  · rw [List.map_append, Turn.finishers_append]
    exact List.rel_append h.becomes (.cons hvalid.becomes .nil)
  · rw [List.append_assoc finished, List.singleton_append]
    exact h.perm
  · refine List.pairwise_append.2 ⟨h.ordered, List.pairwise_singleton _ _, fun a ha b hb => ?_⟩
    rw [List.mem_singleton.1 hb]
    exact h.not_precedes a ha r List.mem_cons_self
  · intro a ha r' hmem hprecedes
    rcases List.mem_append.1 ha with ha | ha
    · exact h.not_precedes a ha r' (List.mem_cons_of_mem r hmem) hprecedes
    -- A task that precedes the one in front would have fewer suspensions left than none.
    · rw [List.mem_singleton.1 ha] at hprecedes
      have hlt := (hfront r' hmem).2 hprecedes
      omega

/-- The task in front has its turn and goes behind all others. -/
theorem rotate (h : InLine pauses q ts turns (r :: rest) finished lost)
    (hresume : resume r.now = .ok (t', .suspended))
    (htasks : tasks q' = rest.map Runner.now ++ [t']) :
    ∃ left, InLine pauses q' ts (turns ++ [⟨r.now, none⟩]) (rest ++ [⟨r.entrant, t', left⟩])
      finished lost := by
  have hvalid := h.valid r List.mem_cons_self
  obtain ⟨left, hleft, hfinishes⟩ := hvalid.finishes.of_suspended hresume
  obtain ⟨hfront, hahead⟩ := List.pairwise_cons.1 h.ahead
  refine ⟨left, ?_, ?_, ?_, ?_, ?_, h.ordered, ?_⟩
  · rw [List.map_append]
    exact htasks
  · intro r' hmem
    rcases List.mem_append.1 hmem with hmem | hmem
    · exact h.valid r' (List.mem_cons_of_mem r hmem)
    · rw [List.mem_singleton.1 hmem]
      have hle := hvalid.left_le
      exact ⟨hvalid.becomes.tail hresume, hfinishes, by dsimp only; omega⟩
  · rw [Turn.finishers_append]
    exact (List.append_nil (Turn.finishers turns)).symm ▸ h.becomes
  · rw [List.map_append]
    refine h.perm.trans (((List.Perm.append_left finished ?_)).append_right lost)
    exact (List.perm_append_singleton r.entrant _).symm
  · refine List.pairwise_append.2 ⟨hahead, List.pairwise_singleton _ _, fun r' hmem r'' hmem' => ?_⟩
    -- It was in front of each of them, and now has one suspension less.
    rw [List.mem_singleton.1 hmem']
    obtain ⟨hle, hlt⟩ := hfront r' hmem
    exact ⟨fun hprecedes => by have := hlt hprecedes; dsimp only; omega,
      fun hprecedes => by have := hle hprecedes; dsimp only; omega⟩
  · intro a ha r' hmem
    rcases List.mem_append.1 hmem with hmem | hmem
    · exact h.not_precedes a ha r' (List.mem_cons_of_mem r hmem)
    · rw [List.mem_singleton.1 hmem]
      exact h.not_precedes a ha r List.mem_cons_self

/-- The task in front has its turn and is lost. -/
theorem lose (h : InLine pauses q ts turns (r :: rest) finished lost)
    (htasks : tasks q' = rest.map Runner.now) {turns' : List (Turn τ ρ)}
    (hturns : Turn.finishers turns' = []) :
    InLine pauses q' ts (turns ++ turns') rest finished (r.entrant :: lost) := by
  refine ⟨htasks, fun r' hmem => h.valid r' (List.mem_cons_of_mem r hmem), ?_, ?_,
    (List.pairwise_cons.1 h.ahead).2, h.ordered,
    fun a ha r' hmem => h.not_precedes a ha r' (List.mem_cons_of_mem r hmem)⟩
  · rw [Turn.finishers_append, hturns, List.append_nil]
    exact h.becomes
  · refine h.perm.trans ?_
    rw [List.append_assoc, List.append_assoc, List.map_cons]
    exact List.perm_middle.symm.append_left finished

/-- Another task is admitted, and joins the line behind all others. -/
theorem join (h : InLine pauses q ts turns waiting finished lost)
    (htasks : tasks q' = waiting.map Runner.now ++ [t]) (hpauses : FinishesAfter t (pauses t)) :
    InLine pauses q' (ts ++ [t]) turns (waiting ++ [⟨(t, ts.length), t, pauses t⟩]) finished
      lost := by
  have hnumber : ∀ e ∈ finished ++ waiting.map Runner.entrant, e.2 < ts.length := by
    intro e hmem
    have hmem' := h.perm.mem_iff.2 (List.mem_append_left lost hmem)
    exact List.snd_lt_of_mem_zipIdx hmem'
  refine ⟨?_, ?_, h.becomes, ?_, ?_, h.ordered, ?_⟩
  · rw [List.map_append]
    exact htasks
  · intro r hmem
    rcases List.mem_append.1 hmem with hmem | hmem
    · exact h.valid r hmem
    · rw [List.mem_singleton.1 hmem]
      exact ⟨.refl, hpauses, Nat.le_refl _⟩
  · rw [List.zipIdx_append, Nat.zero_add, List.map_append, ← List.append_assoc]
    refine (h.perm.append_right _).trans ?_
    rw [List.append_assoc, List.append_assoc _ _ lost]
    exact List.perm_append_comm.append_left _
  · refine List.pairwise_append.2 ⟨h.ahead, List.pairwise_singleton _ _, fun r hmem r' hmem' => ?_⟩
    rw [List.mem_singleton.1 hmem']
    have hle := (h.valid r hmem).left_le
    have hlt := hnumber r.entrant (List.mem_append_right _ (List.mem_map_of_mem hmem))
    exact ⟨fun hprecedes => Nat.le_trans hle hprecedes.2,
      fun hprecedes => absurd hprecedes.1 (Nat.lt_asymm hlt)⟩
  · intro a ha r hmem hprecedes
    rcases List.mem_append.1 hmem with hmem | hmem
    · exact h.not_precedes a ha r hmem hprecedes
    · rw [List.mem_singleton.1 hmem] at hprecedes
      exact Nat.lt_asymm hprecedes.1 (hnumber a (List.mem_append_left _ ha))

/-- The queue holds the same tasks as before. -/
theorem of_tasks_eq (h : InLine pauses q ts turns waiting finished lost)
    (htasks : tasks q' = tasks q) : InLine pauses q' ts turns waiting finished lost :=
  ⟨htasks.trans h.tasks_eq, h.valid, h.becomes, h.perm, h.ahead, h.ordered, h.not_precedes⟩

/-- Nobody is in line on an empty queue. -/
theorem of_tasks_eq_nil (h : tasks q = []) :
    InLine pauses q [] ([] : List (Turn τ ρ)) [] [] [] where
  tasks_eq := h
  valid _ hmem := absurd hmem List.not_mem_nil
  becomes := .nil
  perm := .nil
  ahead := .nil
  ordered := .nil
  not_precedes _ hmem := absurd hmem List.not_mem_nil

/-- When as many tasks have finished as were admitted, all of them have finished, and none before
one that precedes it. -/
theorem all_finished (h : InLine pauses q ts turns waiting finished lost)
    (hlength : (Turn.finishers turns).length = ts.length) :
    ts.zipIdx.Perm finished ∧ List.Forall₂ Becomes (finished.map Prod.fst) (Turn.finishers turns) ∧
      finished.Pairwise fun a b => ¬ Precedes pauses b a := by
  refine ⟨?_, h.becomes, h.ordered⟩
  have hbecomes := h.becomes.length_eq
  have hperm := h.perm.length_eq
  simp only [List.length_append, List.length_map, List.length_zipIdx] at hbecomes hperm
  have hwaiting : waiting = [] := List.eq_nil_of_length_eq_zero (by omega)
  have hlost : lost = [] := List.eq_nil_of_length_eq_zero (by omega)
  have hall := h.perm
  rwa [hwaiting, hlost, List.map_nil, List.append_nil, List.append_nil] at hall

/-- The task that the queue hands out is the one in front. -/
theorem exists_front [InOrder Q] (h : InLine pauses q ts turns waiting finished lost)
    (htake : takeNext q = (some t, q')) :
    ∃ r rest, waiting = r :: rest ∧ r.now = t ∧ tasks q' = rest.map Runner.now := by
  have htasks : tasks q = t :: tasks q' := tasks_of_takeNext htake
  rw [h.tasks_eq] at htasks
  obtain ⟨r, rest, hwaiting, hnow, hrest⟩ := List.map_eq_cons_iff.1 htasks
  exact ⟨r, rest, hwaiting, hnow, hrest.symm⟩

/-- On a queue that hands tasks out in order, an attempt leaves them in line. -/
theorem attempt [InOrder Q] (h : InLine pauses q ts turns waiting finished lost)
    {a : Advance Q τ ρ} (ha : Advanced q a) :
    ∃ waiting finished lost, InLine pauses a.queue ts (turns ++ a.turns) waiting finished lost := by
  cases ha with
  | @idle q' htake =>
    have htasks : tasks q = tasks q' := tasks_of_takeNext htake
    rw [Advance.turns, List.append_nil]
    exact ⟨waiting, finished, lost, h.of_tasks_eq htasks.symm⟩
  | @finished q' t t' result htake hresume =>
    obtain ⟨r, rest, rfl, rfl, htasks⟩ := h.exists_front htake
    exact ⟨rest, _, lost, h.finish htasks hresume⟩
  | @suspended q₁ q' t t' htake hresume hschedule =>
    obtain ⟨r, rest, rfl, rfl, htasks⟩ := h.exists_front htake
    have hback := tasks_of_accepted hschedule
    rw [htasks] at hback
    obtain ⟨left, hrotate⟩ := h.rotate hresume hback
    exact ⟨_, finished, lost, hrotate⟩
  | @broke q' t fault htake hresume =>
    obtain ⟨r, rest, rfl, rfl, htasks⟩ := h.exists_front htake
    exact ⟨rest, finished, _, h.lose htasks rfl⟩
  | @refused q₁ q' t t' fault htake hresume hschedule =>
    obtain ⟨r, rest, rfl, rfl, htasks⟩ := h.exists_front htake
    exact ⟨rest, finished, _, h.lose ((tasks_of_refused hschedule).trans htasks) rfl⟩

end InLine

/-- On a queue that hands tasks out in order, tasks stay in line. -/
theorem lasting_inLine [InOrder Q] (pauses : τ → Nat) :
    Invariant.Lasting fun (q : Q) (ts : List τ) (turns : List (Turn τ ρ)) =>
      (∀ t ∈ ts, FinishesAfter t (pauses t)) →
        ∃ waiting finished lost, InLine pauses q ts turns waiting finished lost where
  attempt h ha hts := by
    obtain ⟨waiting, finished, lost, hline⟩ := h hts
    exact hline.attempt ha
  accept {q q' ts turns t} h hschedule hts := by
    obtain ⟨waiting, finished, lost, hline⟩ := h fun t' hmem => hts t' (List.mem_append_left _ hmem)
    have htasks := tasks_of_accepted hschedule
    rw [hline.tasks_eq] at htasks
    have hpauses := hts t (List.mem_append_right _ List.mem_cons_self)
    exact ⟨_, finished, lost, hline.join htasks hpauses⟩
  refuse h hschedule hts := by
    obtain ⟨waiting, finished, lost, hline⟩ := h hts
    exact ⟨waiting, finished, lost, hline.of_tasks_eq (tasks_of_refused hschedule)⟩

end InLine

namespace Ledger

variable [ReadyQueue Q τ] [Resumable τ ρ]

/-- Pools over queues that hand tasks out in the order in which they accepted them, and that have
room for as many tasks as there are streams; and tasks each of which suspends a known number of
times and then finishes. After any sequence of calls, and once the pool is closed, every task
spawned has finished, and they have finished in an order in which no task overtakes another: a task
spawned earlier comes before one spawned later, unless it suspends more often. -/
theorem record_without_overtaking [InOrder Q] {queue : Q} {streams : Nat} {pool : StreamPool Q}
    (hpool : StreamPool.ofQueue queue streams = .ok pool) (hroom : HasRoom queue streams)
    {calls : List (PoolCall τ)} {pauses : τ → Nat}
    (hpauses : ∀ t ∈ PoolCall.spawned calls, FinishesAfter t (pauses t)) :
    let l : Ledger Q τ ρ := (ofPool pool).record calls
    let closed : Progress Q τ ρ := l.pool.close
    let finished : List τ := Turn.finishers (l.turns ++ closed.turns.toList)
    l.admitted = PoolCall.spawned calls ∧ closed.fault = none ∧ tasks closed.state = [] ∧
      (∃ order : List (τ × Nat), (PoolCall.spawned calls).zipIdx.Perm order ∧
        List.Forall₂ Becomes (order.map Prod.fst) finished ∧
        ∀ a ∈ order, ∀ b ∈ order, a.2 < b.2 → pauses a.1 ≤ pauses b.1 → [a, b].Sublist order) ∧
      ∀ mark : τ → ι, Keeps mark → ∀ (i j : Nat) (a b : τ), i < j →
        (PoolCall.spawned calls)[i]? = some a → (PoolCall.spawned calls)[j]? = some b →
          pauses a ≤ pauses b → [mark a, mark b].Sublist (finished.map mark) := by
  intro l closed finished
  obtain ⟨hstreams, hempty, hopened⟩ := StreamPool.ofQueue_eq_ok hpool
  have hnil : tasks queue = [] := isEmpty_iff.1 hempty
  have hresults : ∀ t ∈ PoolCall.spawned calls, (result? t : Option ρ).isSome = true :=
    fun t hmem => (hpauses t hmem).isSome_result?
  -- No task is refused or lost, and so every one of them has finished in the end.
  obtain ⟨fits, hsteady, hflows, hadmitted⟩ := exists_flows_of_room hpool hroom hresults
  have hbalanced : Balanced result? streams l :=
    (balanced_ofPool hnil hpool _).record keeps_result? calls
  obtain ⟨hfault, hclosed, hfinished⟩ := close_spec hsteady hflows hbalanced
  -- All of them stayed in line until then.
  obtain ⟨waiting, order, lost, hline⟩ : ∃ waiting order lost, InLine pauses closed.state l.admitted
      (l.turns ++ closed.turns.toList) waiting order lost := by
    apply (lasting_inLine pauses).drain _ fun t hmem => hpauses t (hadmitted ▸ hmem)
    apply (lasting_inLine pauses).record
    rw [hopened]
    exact fun _ => ⟨[], [], [], .of_tasks_eq_nil hnil⟩
  obtain ⟨hperm, hbecomes, hordered⟩ := hline.all_finished hfinished
  rw [hadmitted] at hperm
  have hsublist : ∀ a ∈ order, ∀ b ∈ order, a.2 < b.2 → pauses a.1 ≤ pauses b.1 →
      [a, b].Sublist order :=
    fun a ha b hb hlt hle => Precedes.sublist ⟨hlt, hle⟩ hordered ha hb
  refine ⟨hadmitted, hfault, hclosed, ⟨order, hperm, hbecomes, hsublist⟩, ?_⟩
  intro mark hmark i j a b hlt ha hb hle
  rw [hmark.map_eq_of_becomes hbecomes, List.map_map]
  have ha' := hperm.mem_iff.1 (List.mk_mem_zipIdx_iff_getElem?.2 ha)
  have hb' := hperm.mem_iff.1 (List.mk_mem_zipIdx_iff_getElem?.2 hb)
  exact (hsublist _ ha' _ hb' hlt hle).map fun e => mark e.1

/-- Two streams over a ring with three cells. The third countdown has to wait until the first has
finished, and then overtakes the second, which suspends more often; but it cannot overtake the
first, which suspends as often. -/
theorem record_without_overtaking_on_ring :
    let ring : Ring Countdown :=
      ⟨#[none, none, none], 0, 0, by decide, by decide, fun i hi => absurd hi (Nat.not_lt_zero i)⟩
    let calls : List (PoolCall Countdown) :=
      [.spawn ⟨1, 1⟩, .spawn ⟨2, 4⟩, .spawn ⟨3, 1⟩, .run, .spawn ⟨4, 0⟩]
    let l : Ledger (Ring Countdown) Countdown Int := (ofPool ⟨ring, 2, 2, 0⟩).record calls
    let closed : Progress (Ring Countdown) Countdown Int := l.pool.close
    let finished : List Countdown := Turn.finishers (l.turns ++ closed.turns.toList)
    l.admitted.length = 4 ∧ finished.map Countdown.id = [1, 3, 2, 4] ∧
      [1, 3].Sublist (finished.map Countdown.id) := by
  intro ring calls l closed finished
  have hpool : StreamPool.ofQueue ring 2 = .ok ⟨ring, 2, 2, 0⟩ := rfl
  have hroom : HasRoom ring 2 := ring.hasRoom.mono (by decide)
  have hpauses : ∀ t ∈ PoolCall.spawned calls, FinishesAfter t t.pauses :=
    fun t _ => t.finishesAfter
  obtain ⟨hadmitted, -, -, -, hbefore⟩ :=
    record_without_overtaking (ι := Int) hpool hroom hpauses
  refine ⟨?_, ?_, ?_⟩
  · rw [hadmitted]
    rfl
  · simp only [finished, closed]
    cbv
  · exact hbefore Countdown.id Countdown.keeps_id 0 2 ⟨1, 1⟩ ⟨3, 1⟩ (by decide) rfl rfl (by decide)

end Ledger

end BulkLookup
