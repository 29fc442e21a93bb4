import BulkLookup.Proofs.Work.Overflow
import BulkLookup.Proofs.Work.Rounds
import Mathlib.Algebra.Order.BigOperators.Group.List
import Mathlib.Algebra.Order.Group.Nat

/-!
# Round robin

On a queue that hands tasks out in order, working off is round robin: in each round, every task that
is left has one turn, in the order in which the tasks were put in. A task that suspends a number of
times finishes in the round after as many others. So the tasks finish sorted by how often they
suspend, and those that suspend equally often in their order.

Nothing but the queue decides on this. It makes no difference whether the queue is worked off on its
own, or belongs to a pool that has a stream for each of the tasks.

## Main definitions

* `RoundRobin` — what working tasks off in rounds comes to

## Main results

* `flatMap_filter_eq_mergeSort` — to pick items by their keys, least first, sorts them
* `Resumable.finishers_rounds` — the order in which tasks finish that have their turns in rounds
* `ReadyQueue.Steady.drain_in_rounds` — working off is round robin
* `ReadyQueue.roundRobin_of_room`, `StreamPool.roundRobin_of_room` — the two ways of working off
-/

namespace BulkLookup

universe u v w

open ReadyQueue Resumable

variable {Q : Type w} {τ : Type u} {ρ : Type v}

/-! ### Picking items by their keys -/

section Sorting

variable {α : Type u} {key : α → Nat} {items : List α}

/-- In a sorted list, the items whose keys are below a bound come first. -/
theorem filter_lt_append_filter_le (hsorted : items.Pairwise (key · ≤ key ·)) (n : Nat) :
    items.filter (key · < n) ++ items.filter (n ≤ key ·) = items := by
  induction hsorted with
  | nil => rfl
  | @cons a items hfirst _ ih =>
    by_cases hlt : key a < n
    · rw [List.filter_cons_of_pos (by simpa using hlt),
        List.filter_cons_of_neg (by simpa using hlt), List.cons_append, ih]
    · have hnil : items.filter (key · < n) = [] := by
        simpa using fun b hmem => Nat.le_trans (Nat.le_of_not_lt hlt) (hfirst b hmem)
      rw [hnil, List.nil_append] at ih
      rw [List.filter_cons_of_neg (by simpa using hlt), hnil,
        List.filter_cons_of_pos (by simpa using hlt), ih, List.nil_append]

/-- A sorted list is its own if it is picked by keys, least first. -/
theorem flatMap_filter_of_sorted (hsorted : items.Pairwise (key · ≤ key ·)) (n : Nat) :
    (List.range n).flatMap (fun i => items.filter (key · = i)) = items.filter (key · < n) := by
  induction n with
  | zero => simp
  | succ n ih =>
    rw [List.range_succ, List.flatMap_append, List.flatMap_singleton, ih]
    -- The items below the next bound are those below this one, and behind them those at it.
    conv_rhs => rw [← filter_lt_append_filter_le (hsorted.filter _) n]
    rw [List.filter_filter, List.filter_filter]
    congr 2
    · funext a
      rw [← Bool.decide_and, decide_eq_decide]
      omega
    · funext a
      rw [← Bool.decide_and, decide_eq_decide]
      omega

/-- To sort items leaves those with one key in their order. -/
theorem filter_mergeSort (key : α → Nat) (items : List α) (i : Nat) :
    (items.mergeSort (key · ≤ key ·)).filter (key · = i) = items.filter (key · = i) := by
  have hperm := (List.mergeSort_perm items (key · ≤ key ·)).filter (key · = i)
  -- Sorting is stable: items with one key are a sorted part of the list, so they keep their order.
  have hsame : (items.filter (key · = i)).Pairwise fun a b => decide (key a ≤ key b) = true := by
    apply List.pairwise_of_forall_mem_list
    intro a ha b hb
    simp_all
  have hsub : (items.filter (key · = i)).Sublist (items.mergeSort (key · ≤ key ·)) :=
    List.sublist_mergeSort (by simpa using fun a b c => Nat.le_trans) (by simp [Nat.le_total])
      hsame List.filter_sublist
  have hfilter := hsub.filter (key · = i)
  simp only [List.filter_filter, Bool.and_self] at hfilter
  exact (hfilter.eq_of_length hperm.length_eq.symm).symm

/-- To pick items by their keys, least first, is to sort them. -/
theorem flatMap_filter_eq_mergeSort {n : Nat} (hlt : ∀ a ∈ items, key a < n) :
    (List.range n).flatMap (fun i => items.filter (key · = i)) =
      items.mergeSort (key · ≤ key ·) := by
  have hsorted : (items.mergeSort (key · ≤ key ·)).Pairwise fun a b =>
      decide (key a ≤ key b) = true :=
    List.pairwise_mergeSort (by simpa using fun a b c => Nat.le_trans) (by simp [Nat.le_total])
      items
  have hpick := flatMap_filter_of_sorted (hsorted.imp of_decide_eq_true) n
  simp only [filter_mergeSort] at hpick
  rw [hpick, List.filter_eq_self]
  intro a hmem
  exact decide_eq_true (hlt a (List.mem_mergeSort.1 hmem))

end Sorting

/-! ### Working off -/

variable [Resumable τ ρ] {pauses : τ → Nat} {ts : List τ} {n : Nat}

/-- Tasks that have their turns in rounds finish sorted by how often they suspend. -/
theorem Resumable.finishers_rounds (hpauses : ∀ t ∈ ts, FinishesAfter t (pauses t))
    (hlt : ∀ t ∈ ts, pauses t < n) :
    Turn.finishers (rounds pauses ts n) =
      (ts.mergeSort (pauses · ≤ pauses ·)).map fun t => resumed^[pauses t] t := by
  rw [← flatMap_filter_eq_mergeSort hlt, Turn.finishers, rounds, List.filter_flatMap,
    List.map_flatMap, List.map_flatMap]
  apply List.flatMap_congr
  intro i _
  -- In a round, those tasks finish that have suspended in all the rounds before, and only there.
  have hround : (ts.filter (i ≤ pauses ·)).filter (Turn.isFinish ∘ turnAfter i) =
      ts.filter (pauses · = i) := by
    rw [List.filter_filter]
    apply List.filter_congr
    intro t hmem
    by_cases hle : i ≤ pauses t
    · simp [(hpauses t hmem).isFinish_turnAfter hle, hle, eq_comm]
    · simp only [hle, decide_false, Bool.and_false]
      simpa using fun heq => hle (Nat.le_of_eq heq.symm)
  rw [List.filter_map, hround, List.map_map]
  apply List.map_congr_left
  intro t hmem
  obtain rfl : pauses t = i := by simpa using (List.mem_filter.1 hmem).2
  rfl

omit [Resumable τ ρ] in
/-- There are rounds enough for all tasks. -/
theorem exists_rounds_enough (pauses : τ → Nat) (ts : List τ) : ∃ n, ∀ t ∈ ts, pauses t < n :=
  ⟨(ts.map pauses).sum + 1,
    fun _ hmem => Nat.lt_succ_of_le (List.le_sum_of_mem (List.mem_map_of_mem hmem))⟩

variable [ReadyQueue Q τ]

/-- Some tasks were worked off round by round: no fault was met, none of them is left in the queue,
and they have finished sorted by how often they suspend. -/
structure RoundRobin (pauses : τ → Nat) (ts : List τ) (fault : Option Fault)
    (turns : List (Turn τ ρ)) (queue : Q) : Prop where
  fault_eq : fault = none
  isEmpty : isEmpty queue = true
  tasks_eq : tasks queue = []
  /-- In each round, every task that has not finished yet has one turn, in order. -/
  turns_eq : ∀ n, (∀ t ∈ ts, pauses t < n) →
    turns = (List.range n).flatMap fun i => (ts.filter (i ≤ pauses ·)).map (turnAfter i)
  finishers_eq : Turn.finishers turns =
    (ts.mergeSort (pauses · ≤ pauses ·)).map fun t => resumed^[pauses t] t

/-- Tasks that finish have come to their results. -/
theorem RoundRobin.result_eq {fault : Option Fault} {turns : List (Turn τ ρ)} {queue : Q}
    (h : RoundRobin pauses ts fault turns queue) {turn : Turn τ ρ} (hmem : turn ∈ turns) {r : ρ}
    (hr : turn.result = some r) : result? turn.task = some r := by
  obtain ⟨n, hn⟩ := exists_rounds_enough pauses ts
  rw [h.turns_eq n hn] at hmem
  obtain ⟨i, -, hmem⟩ := List.mem_flatMap.1 hmem
  obtain ⟨t, -, rfl⟩ := List.mem_map.1 hmem
  exact result?_of_nextTurn hr

variable [InOrder Q] {fits : Q → Prop} {q queue : Q}

/-- Working a queue off takes as many rounds as there are turns for. -/
theorem ReadyQueue.Steady.drain_in_rounds (h : Steady fits) (hq : fits q)
    (hpauses : ∀ t ∈ tasks q, FinishesAfter t (pauses t)) (hlt : ∀ t ∈ tasks q, pauses t < n) :
    ∃ q', (drain q : Progress Q τ ρ) =
        { state := q', turns := (rounds pauses (tasks q) n).toArray } ∧ tasks q' = [] := by
  obtain ⟨q₁, hrounds, -, htasks₁⟩ := h.exists_rounds hq hpauses n
  have hnil : tasks q₁ = [] := by
    rw [htasks₁, List.map_eq_nil_iff, List.filter_eq_nil_iff]
    intro t hmem
    simpa using hlt t hmem
  obtain ⟨q', hidle, hnil'⟩ := exists_idle_of_tasks_eq_nil hnil
  refine ⟨q', ?_, hnil'⟩
  rw [drain, hrounds.drainFrom_eq, drainFrom_of_idle hidle.advance_eq, Array.empty_append]

/-- Working a queue off is round robin. -/
theorem ReadyQueue.Steady.roundRobin_drain (h : Steady fits) (hq : fits q) (htasks : tasks q = ts)
    (hpauses : ∀ t ∈ ts, FinishesAfter t (pauses t)) :
    let d : Progress Q τ ρ := drain q
    RoundRobin pauses ts d.fault d.turns.toList d.state := by
  subst htasks
  have hrounds := fun n => h.drain_in_rounds (n := n) hq hpauses
  obtain ⟨n, hn⟩ := exists_rounds_enough pauses (tasks q)
  obtain ⟨q', hd, hnil⟩ := hrounds n hn
  have hturns : ∀ n, (∀ t ∈ tasks q, pauses t < n) →
      (drain q : Progress Q τ ρ).turns.toList = rounds pauses (tasks q) n := by
    intro n hn
    obtain ⟨q', hd, -⟩ := hrounds n hn
    rw [hd]
  refine ⟨by rw [hd], ?_, by rwa [hd], hturns, ?_⟩
  · rw [hd]
    exact isEmpty_iff.2 hnil
  · rw [hturns n hn, finishers_rounds hpauses hn]

/-! ### From an empty queue on -/

/-- Tasks that a queue has room for are accepted, and it holds them in order. -/
theorem ReadyQueue.perform_schedule_of_accepts
    (haccepts : ∀ q t, fits q → (tasks q).length < n →
      (schedule q t).1 = none ∧ fits (schedule q t).2)
    (hq : fits q) (hroom : (tasks q).length + ts.length ≤ n) :
    (perform q (ts.map QueueCall.schedule)).1 = ts.map (fun _ => .scheduled none) ∧
      tasks (perform q (ts.map QueueCall.schedule)).2 = tasks q ++ ts ∧
      fits (perform q (ts.map QueueCall.schedule)).2 := by
  induction ts generalizing q with
  | nil => exact ⟨rfl, (List.append_nil _).symm, hq⟩
  | cons t ts ih =>
    rw [List.length_cons] at hroom
    obtain ⟨haccepted, hfits⟩ := haccepts q t hq (by omega)
    have htasks := InOrder.tasks_schedule_eq q t haccepted
    obtain ⟨hanswers, htasks', hfits'⟩ := ih hfits (by
      rw [htasks, List.length_append, List.length_singleton]
      omega)
    refine ⟨?_, ?_, hfits'⟩
    · rw [List.map_cons, perform, call, haccepted, hanswers, List.map_cons]
    · rw [List.map_cons, perform, call, htasks', htasks, List.append_assoc, List.singleton_append]

/-- Tasks put into an empty queue that has room for them, and worked off. -/
theorem ReadyQueue.roundRobin_of_room (hempty : isEmpty queue = true)
    (hroom : HasRoom queue ts.length) (hpauses : ∀ t ∈ ts, FinishesAfter t (pauses t)) :
    let filled := perform queue (ts.map QueueCall.schedule)
    let drained : Progress Q τ ρ := drain filled.2
    filled.1 = ts.map (fun _ => .scheduled none) ∧
      RoundRobin pauses ts drained.fault drained.turns.toList drained.state := by
  intro filled drained
  have hnil := ReadyQueue.isEmpty_iff.1 hempty
  obtain ⟨fits, hfits, hsteady, haccepts⟩ := hroom.exists_steady (by simp [hnil])
  obtain ⟨hanswers, htasks, hfits'⟩ : filled.1 = _ ∧ tasks filled.2 = _ ∧ fits filled.2 :=
    perform_schedule_of_accepts haccepts hfits (by simp [hnil])
  rw [hnil, List.nil_append] at htasks
  exact ⟨hanswers, hsteady.roundRobin_drain hfits' htasks hpauses⟩

/-- Tasks spawned on a pool with a stream for each of them, and run. -/
theorem StreamPool.roundRobin_of_room (hempty : ReadyQueue.isEmpty queue = true)
    (hroom : HasRoom queue ts.length) (hpauses : ∀ t ∈ ts, FinishesAfter t (pauses t))
    {streams : Nat} (hstreams : max 1 ts.length ≤ streams) :
    ∃ pool, ofQueue queue streams = .ok pool ∧
      let ran : Progress (StreamPool Q) τ ρ := (pool.spawnAll ts).andThen (·.run)
      RoundRobin pauses ts ran.fault ran.turns.toList ran.state.queue := by
  have hnil := ReadyQueue.isEmpty_iff.1 hempty
  obtain ⟨fits, hfits, hsteady, haccepts⟩ := hroom.exists_steady (by simp [hnil])
  let pool : StreamPool Q := ⟨queue, streams, streams, 0⟩
  let filled : Progress (StreamPool Q) τ ρ := pool.spawnAll ts
  refine ⟨pool, ofQueue_of_isEmpty (by omega) hempty, ?_⟩
  intro ran
  have hfree : ts.length ≤ pool.free := by
    change ts.length ≤ streams
    omega
  obtain ⟨hfault, hturns, -, -, htasks, hfits'⟩ : filled.fault = none ∧ filled.turns = #[] ∧ _ :=
    spawnAll_of_accepts haccepts hfits (by simp [pool, hnil]) hfree
  rw [show tasks pool.queue = [] from hnil, List.nil_append] at htasks
  have hran : ran = _ := Progress.andThen_of_none hfault
  have hrobin := hsteady.roundRobin_drain hfits' htasks hpauses
  rw [hran, hturns, Array.empty_append]
  exact hrobin

end BulkLookup
