import BulkLookup.Proofs.Lookup.Unreliable
import BulkLookup.Proofs.Lookup.Visits
import BulkLookup.Proofs.Work.Meters
import Mathlib.Algebra.BigOperators.Group.List.Basic

/-!
# What an interleaved lookup costs

On an empty queue that loses nothing and has room, it is known beforehand how busy an interleaved
lookup keeps its streams, how long the queue becomes, and how often a walk is put into it. None of
this depends on the order in which the queue hands its tasks out; and only the streams, but not how
many of them there are, decide on how many entries are visited altogether.

## Main definitions

* `BulkRun.Alike` — lookups that come to the same, up to the queues they leave behind

## Main results

* `Likeness.lookupInterleaved` — on queues that behave alike, a lookup comes to the same
* `Table.WellFormed.lookupInterleaved_of_room` — what a lookup comes to on a queue with room
* `Table.lookupInterleaved_resources` — streams, lengths, waits and visits of a lookup
-/

namespace BulkLookup

universe w w'

open ReadyQueue Resumable

/-- How many numbers below `n` are not below `m`. -/
theorem countP_range_le (n m : Nat) : (List.range n).countP (fun j => m ≤ j) = n - m := by
  induction n with
  | zero => exact (Nat.zero_sub m).symm
  | succ n ih =>
    rw [List.range_succ, List.countP_append, ih, List.countP_singleton]
    split <;> simp_all <;> omega

section AnyStorage

variable [Storage] {κ ν : Type} {Q : Type w} {Q' : Type w'}

/-- Lookups that come to the same, up to the queues they leave behind. -/
structure BulkRun.Alike (R : Q → Q' → Prop) (run : BulkRun Q κ ν) (run' : BulkRun Q' κ ν) :
    Prop where
  outcome_eq : run.outcome = run'.outcome
  queue : R run.queue run'.queue
  turns_eq : run.turns = run'.turns
  events_eq : run.events = run'.events

variable [BEq κ] [ReadyQueue Q (ChainWalk κ ν)] [ReadyQueue Q' (ChainWalk κ ν)]

/-- On queues that behave alike, a lookup comes to the same. -/
theorem Likeness.lookupInterleaved {R : Q → Q' → Prop} (h : Likeness R) {queue : Q} {queue' : Q'}
    (hqueue : R queue queue') (t : Table κ ν) (keys : List κ) (streams : Nat) :
    (t.lookupInterleaved keys queue streams).Alike R
      (t.lookupInterleaved keys queue' streams) := by
  unfold Table.lookupInterleaved StreamPool.ofQueue
  rw [h.isEmpty_eq hqueue]
  by_cases hstreams : streams = 0
  · simp only [if_pos hstreams]
    exact ⟨rfl, hqueue, rfl, rfl⟩
  · by_cases hempty : isEmpty queue' = true
    · simp only [if_neg hstreams, if_pos hempty]
      have hpool : (⟨queue, streams, streams, 0⟩ : StreamPool Q).Alike R
          ⟨queue', streams, streams, 0⟩ := ⟨hqueue, rfl, rfl, rfl⟩
      have hran := (h.spawnAll (ρ := Nat × Finding κ ν) hpool (t.walks keys)).andThen
        fun _ _ => h.run
      generalize ((⟨queue, streams, streams, 0⟩ : StreamPool Q).spawnAll (t.walks keys)).andThen
        (·.run) = ran at hran ⊢
      generalize ((⟨queue', streams, streams, 0⟩ : StreamPool Q').spawnAll (t.walks keys)).andThen
        (·.run) = ran' at hran ⊢
      have hclosed := h.close (ρ := Nat × Finding κ ν) hran.state
      generalize (ran.state.close : Progress Q (ChainWalk κ ν) (Nat × Finding κ ν)) = closed
        at hclosed ⊢
      generalize (ran'.state.close : Progress Q' (ChainWalk κ ν) (Nat × Finding κ ν)) = closed'
        at hclosed ⊢
      rw [hran.fault_eq, hclosed.fault_eq, hran.turns_eq, hclosed.turns_eq, hran.events_eq,
        hran.state.peak_eq]
      cases ran'.fault with
      | some fault => exact ⟨rfl, hran.state.queue, rfl, rfl⟩
      | none =>
        cases closed'.fault with
        | some fault => exact ⟨rfl, hclosed.state, rfl, rfl⟩
        | none => exact ⟨rfl, hclosed.state, rfl, rfl⟩
    · simp only [if_neg hstreams, if_neg hempty]
      exact ⟨rfl, hqueue, rfl, rfl⟩

namespace Table

variable {t : Table κ ν} {keys : List κ} {queue : Q} {streams : Nat}

omit [BEq κ] in
theorem length_walks (t : Table κ ν) (keys : List κ) : (t.walks keys).length = keys.length :=
  List.length_mapIdx

omit [BEq κ] in
/-- The walks ask for the keys, in order. -/
theorem map_key_walks (t : Table κ ν) (keys : List κ) :
    (t.walks keys).map ChainWalk.key = keys := by
  apply List.ext_getElem
  · simp [walks]
  · intro i hi hi'
    simp [walks, ChainWalk.ofQuery]

omit [BEq κ] in
theorem sum_map_walks (t : Table κ ν) (keys : List κ) (f : κ → Nat) :
    ((t.walks keys).map fun walk => f walk.key).sum = (keys.map f).sum := by
  conv => rhs; rw [← t.map_key_walks keys, List.map_map]
  rfl

/-- An interleaved lookup that meets no fault takes the turns of its walks, and emits an event at
the start, those of its pool, and one at the end. -/
theorem turns_and_events_of_fault_eq_none {pool : StreamPool Q}
    {ran : Progress (StreamPool Q) (ChainWalk κ ν) (Nat × Finding κ ν)}
    {closed : Progress Q (ChainWalk κ ν) (Nat × Finding κ ν)}
    (hpool : StreamPool.ofQueue queue streams = .ok pool)
    (hran : (pool.spawnAll (t.walks keys)).andThen (·.run) = ran) (hfault : ran.fault = none)
    (hclosed : ran.state.close = closed) (hfault' : closed.fault = none) :
    (t.lookupInterleaved keys queue streams).turns = ran.turns ++ closed.turns ∧
      (t.lookupInterleaved keys queue streams).events.toList =
        .lookupStarted keys.length streams :: ran.events.toList ++
          [.lookupFinished keys.length ran.state.peak] := by
  simp only [lookupInterleaved, hpool, hran, hfault, hclosed, hfault', true_and]
  rw [Array.toList_push, Array.toList_append]
  rfl

/-- An interleaved lookup in a well-formed table, on an empty queue that loses nothing and has room,
meets no fault, gives the answers of a sequential lookup, and leaves the queue empty. -/
theorem WellFormed.lookupInterleaved_of_room [LosesNothing Q] (ht : t.WellFormed)
    (hstreams : 1 ≤ streams) (hempty : ReadyQueue.isEmpty queue = true)
    (hroom : HasRoom queue (min streams keys.length)) :
    let run := t.lookupInterleaved keys queue streams
    let pool : StreamPool Q := ⟨queue, streams, streams, 0⟩
    let ran : Progress (StreamPool Q) (ChainWalk κ ν) (Nat × Finding κ ν) :=
      (pool.spawnAll (t.walks keys)).andThen (·.run)
    let closed : Progress Q (ChainWalk κ ν) (Nat × Finding κ ν) := ran.state.close
    StreamPool.ofQueue queue streams = .ok pool ∧ ran.fault = none ∧ tasks closed.state = [] ∧
      run.outcome = .ok (t.lookupAll keys) ∧ run.queue = closed.state ∧
      run.turns = ran.turns ++ closed.turns ∧
      run.events.toList = .lookupStarted keys.length streams :: ran.events.toList ++
        [.lookupFinished keys.length ran.state.peak] := by
  intro run pool ran closed
  have hpool : StreamPool.ofQueue queue streams = .ok pool :=
    StreamPool.ofQueue_of_isEmpty hstreams hempty
  rw [← t.length_walks keys] at hroom
  obtain ⟨hran, hclosed, hnil, hperm⟩ :=
    StreamPool.perm_results_of_batch hstreams hempty hroom (ht.isSome_result?_walks keys)
  obtain ⟨houtcome, hqueue⟩ := lookupInterleaved_of_fault_eq_none hpool rfl hran rfl hclosed
  obtain ⟨hturns, hevents⟩ := turns_and_events_of_fault_eq_none hpool rfl hran rfl hclosed
  refine ⟨hpool, hran, hnil, houtcome.trans ?_, hqueue, hturns, hevents⟩
  -- The answers have come in some order; each has its position with it.
  rw [ht.map_result?_walks, List.map_perm_map_iff fun _ _ => Option.some.inj] at hperm
  have hcollect := Finding.collect_of_perm hperm
  rwa [lookupAll, List.length_map] at hcollect

/-- An interleaved lookup in a table that came about by any history, over any positive number of
streams, and on any empty queue that loses nothing and has room for as many walks as may be in
flight; in which order the queue hands its tasks out does not matter.

After `j` walks were admitted, `j` of them are in flight, or as many as there are streams. The walks
that find all streams busy are those that are more than there are streams, and each of them is
announced, one by one, between the start and the end of the lookup. The end tells the greatest
number of walks in flight, which is that of the streams, or that of the walks if they are fewer.
Were a meter put on the queue, it would change nothing; it would show that the queue was at most as
long as that, and that it accepted each walk once and then once more for each entry that the walk
visited. A walk visits the entries of its chain up to the one that is meant, or all of them if none
is. -/
theorem lookupInterleaved_resources [PartialEquivBEq κ] [LosesNothing Q] (ht : t.IsReachable)
    (keys : List κ) (hstreams : 1 ≤ streams) (hempty : ReadyQueue.isEmpty queue = true)
    (hroom : HasRoom queue (min streams keys.length)) :
    let count := keys.length
    let pool : StreamPool Q := ⟨queue, streams, streams, 0⟩
    let spawned (j : Nat) : Progress (StreamPool Q) (ChainWalk κ ν) (Nat × Finding κ ν) :=
      pool.spawnAll ((t.walks keys).take j)
    let run := t.lookupInterleaved keys queue streams
    let metered := t.lookupInterleaved keys (Metered.ofQueue queue) streams
    StreamPool.ofQueue queue streams = .ok pool ∧
      (∀ j ≤ count, (spawned j).fault = none ∧ (spawned j).state.inFlight = min j streams ∧
        ((spawned j).state.free = 0 ↔ streams ≤ j) ∧
        (spawned j).events.toList = List.replicate (j - streams) (.streamsBusy streams)) ∧
      (List.range count).countP (fun j => (spawned j).state.free = 0) = count - streams ∧
      run.outcome = .ok (t.lookupAll keys) ∧ t.tryLookupAll keys = .ok (t.lookupAll keys) ∧
      run.events.toList =
        .lookupStarted count streams :: List.replicate (count - streams) (.streamsBusy streams) ++
          [.lookupFinished count (min count streams)] ∧
      metered.outcome = run.outcome ∧ metered.turns = run.turns ∧ metered.events = run.events ∧
      metered.queue.queue = run.queue ∧ metered.queue.peak = min count streams ∧
      metered.queue.scheduled = count + (keys.map t.visits).sum ∧
      ∀ key ∈ keys, let nodes := t.chain (homeIndex t.capacity (t.hasher key))
        t.arena.Path (t.headOf (t.hasher key)) nodes ∧
        (∀ before node after e, nodes = before ++ node :: after → t.arena.get? node = some e →
          e.isFor (t.hasher key) key = true → t.visits key = before.length + 1) ∧
        ((∀ node ∈ nodes, ∀ e, t.arena.get? node = some e →
          ¬ e.isFor (t.hasher key) key = true) → t.visits key = nodes.length) := by
  intro count pool spawned run metered
  have hwellFormed := ht.wellFormed
  have hlength := t.length_walks keys
  obtain ⟨hpool, hran, -, houtcome, -, -, hevents⟩ :=
    hwellFormed.lookupInterleaved_of_room hstreams hempty hroom
  obtain ⟨hspawned, -⟩ := Progress.fault_eq_none_of_andThen hran
  obtain ⟨hpeak, hbusy⟩ := StreamPool.run_of_fault_eq_none rfl hran
  rw [hpeak, hbusy, hlength] at hevents
  have hloads : ∀ j ≤ count, _ := fun j hj =>
    StreamPool.spawnAll_take_of_fault_eq_none (hj.trans_eq hlength.symm) hspawned
  -- The same lookup, with a meter on the queue.
  have hempty' : ReadyQueue.isEmpty (Metered.ofQueue queue) = true := hempty
  have hroom' := Metered.hasRoom hroom
  have halike : metered.Alike _ run := Metered.likeness_queue.lookupInterleaved rfl t keys streams
  obtain ⟨-, hran', -, -, hqueue', -, -⟩ :=
    hwellFormed.lookupInterleaved_of_room hstreams hempty' hroom'
  have hpauses : ∀ walk ∈ t.walks keys, FinishesAfter walk (t.visits walk.key) := by
    intro walk hmem
    obtain ⟨i, hi, rfl⟩ := List.mem_mapIdx.1 hmem
    exact hwellFormed.finishesAfter_ofQuery i _
  have hscheduled := counts_scheduled.of_batch hstreams hempty' (hlength.symm ▸ hroom') hpauses
  refine ⟨hpool, hloads, ?_, houtcome, hwellFormed.tryLookupAll_eq keys, hevents,
    halike.outcome_eq, halike.turns_eq, halike.events_eq, halike.queue, ?_, ?_,
    fun key hmem => ⟨?_, ?_, ?_⟩⟩
  · rw [← countP_range_le]
    refine List.countP_congr fun j hmem => ?_
    rw [decide_eq_true_iff, decide_eq_true_iff]
    exact (hloads j (List.mem_range.1 hmem).le).2.2.1
  · change (t.lookupInterleaved keys (Metered.ofQueue queue) streams).queue.peak = _
    rw [hqueue', Metered.peak_of_batch (isEmpty_iff.1 hempty) rfl hran',
      (StreamPool.run_of_fault_eq_none rfl hran').1, hlength]
  · change (t.lookupInterleaved keys (Metered.ofQueue queue) streams).queue.scheduled = _
    rw [hqueue', hscheduled, sum_map_walks (f := fun key => t.visits key + 1), List.sum_map_add,
      List.map_const', List.sum_replicate_nat, Nat.mul_one]
    exact (Nat.zero_add _).trans (Nat.add_comm _ _)
  · exact hwellFormed.path_headOf _
  · exact fun before node after e hnodes hget hfor =>
      hwellFormed.visits_eq_of_isFor hnodes hget hfor
  · exact visitsAlong_eq_length

end Table

end AnyStorage

namespace Table

/-- Two streams over a stack, for two keys in one chain, one of them asked for twice, and a key that
is not there. The last two of the four walks have to wait, and the stack accepts a walk eleven
times. -/
theorem lookupInterleaved_resources_on_stack :
    let k : TaggedKey := ⟨0, "a", "first"⟩
    let k' : TaggedKey := ⟨8, "b", "same bucket"⟩
    let t : Table TaggedKey Nat :=
      (unbounded TaggedKey.digest).run [.insert k 1 (· + 0), .insert k' 2 (· + 0)]
    let keys : List TaggedKey := [k', ⟨16, "c", "missing"⟩, k, k']
    let stack : Stack (ChainWalk TaggedKey Nat) := .empty
    let run := t.lookupInterleaved keys (Metered.ofQueue stack) 2
    run.events.toList = [.lookupStarted 4 2, .streamsBusy 2, .streamsBusy 2, .lookupFinished 4 2] ∧
      run.queue.peak = 2 ∧ run.queue.scheduled = 11 := by
  intro k k' t keys stack run
  have ht : t.IsReachable := ⟨_, _, .inl rfl⟩
  have hempty : ReadyQueue.isEmpty stack = true := by rfl
  obtain ⟨-, -, -, -, -, hevents, -, -, hsame, -, hpeak, hscheduled, -⟩ :=
    lookupInterleaved_resources ht keys (show 1 ≤ 2 by decide) hempty (stack.hasRoom 2)
  have hvisits : keys.length + (keys.map t.visits).sum = 11 := by
    simp only [keys, t, k, k']
    cbv
  refine ⟨?_, hpeak, ?_⟩
  · rw [hsame]
    exact hevents
  · exact hscheduled.trans hvisits

end Table

end BulkLookup
