import BulkLookup.Proofs.Lookup.Resources
import BulkLookup.Proofs.Work.RoundRobin

/-!
# Walks in rounds

A walk suspends once for each entry that it visits. Worked off round by round, walks through one
table therefore finish sorted by how many entries they visit, and those that visit equally many in
the order of the queries; and this is the order in which the queries are answered.

## Main definitions

* `WalkedInRounds` — what working walks off in rounds comes to

## Main results

* `Table.WellFormed.walkedInRounds` — the order in which walks finish, and what they answer
* `Table.roundRobin` — tasks, and walks in particular, on a queue that hands them out in order
-/

namespace BulkLookup

universe u v w w'

open ReadyQueue Resumable

section AnyStorage

variable [Storage] {κ ν : Type} {Q' : Type w'} [BEq κ] [ReadyQueue Q' (ChainWalk κ ν)]

/-- Walks for some queries were worked off round by round: they have finished sorted by how many
entries they visit, and in that order the queries were answered. -/
structure WalkedInRounds (t : Table κ ν) (keys : List κ) (fault : Option Fault)
    (turns : List (Turn (ChainWalk κ ν) (Nat × Finding κ ν))) (queue : Q') : Prop extends
    RoundRobin (fun walk => t.visits walk.key) (t.walks keys) fault turns queue where
  keys_eq : (Turn.finishers turns).map ChainWalk.key = keys.mergeSort (t.visits · ≤ t.visits ·)
  answers_eq : (turns.filterMap (·.result)).map Prod.snd =
    (keys.mergeSort (t.visits · ≤ t.visits ·)).map t.answer

namespace Table

variable {t : Table κ ν} {keys : List κ} {queue' : Q'}

/-- In a well-formed table, a walk for a query suspends once for each entry that it visits. -/
theorem WellFormed.finishesAfter_walks (ht : t.WellFormed) (keys : List κ) :
    ∀ walk ∈ t.walks keys, FinishesAfter walk (t.visits walk.key) := by
  intro walk hmem
  obtain ⟨i, hi, rfl⟩ := List.mem_mapIdx.1 hmem
  exact ht.finishesAfter_ofQuery i keys[i]

/-- A walk for a query comes to the answer to it. -/
theorem WellFormed.result?_of_mem_walks (ht : t.WellFormed) {walk : ChainWalk κ ν}
    (hmem : walk ∈ t.walks keys) : result? walk = some (walk.position, t.answer walk.key) := by
  obtain ⟨i, hi, rfl⟩ := List.mem_mapIdx.1 hmem
  exact ht.result?_ofQuery i keys[i]

/-- Walks that are worked off round by round finish, and answer, sorted by their visits. -/
theorem WellFormed.walkedInRounds (ht : t.WellFormed) {fault : Option Fault}
    {turns : List (Turn (ChainWalk κ ν) (Nat × Finding κ ν))}
    (h : RoundRobin (fun walk => t.visits walk.key) (t.walks keys) fault turns queue') :
    WalkedInRounds t keys fault turns queue' := by
  let sorted := (t.walks keys).mergeSort fun w w' => t.visits w.key ≤ t.visits w'.key
  -- The walks sorted by their visits are those for the keys sorted by their visits.
  have hsorted : sorted.map ChainWalk.key = keys.mergeSort (t.visits · ≤ t.visits ·) := by
    have hmap := List.map_mergeSort (l := t.walks keys) (f := ChainWalk.key)
      (s := fun k k' => t.visits k ≤ t.visits k') fun _ _ _ _ => rfl
    rwa [t.map_key_walks] at hmap
  have hmem : ∀ walk ∈ sorted, walk ∈ t.walks keys := fun walk => List.mem_mergeSort.1
  have hfinishers : Turn.finishers turns =
      sorted.map fun walk => resumed^[t.visits walk.key] walk := h.finishers_eq
  refine ⟨h, ?_, ?_⟩
  · rw [hfinishers, List.map_map, ← hsorted]
    apply List.map_congr_left
    intro walk hwalk
    exact (ht.finishesAfter_walks keys walk (hmem walk hwalk)).mark_iterate ChainWalk.keeps_key
      (Nat.le_refl _)
  · have hresults : (turns.filterMap (·.result)).map some =
        (sorted.map fun walk => (walk.position, t.answer walk.key)).map some := by
      rw [Turn.map_results fun turn hturn r hr => h.result_eq hturn hr, hfinishers, List.map_map,
        List.map_map]
      apply List.map_congr_left
      intro walk hwalk
      have hfinishes := ht.finishesAfter_walks keys walk (hmem walk hwalk)
      exact (hfinishes.mark_iterate keeps_result? (Nat.le_refl _)).trans
        (ht.result?_of_mem_walks (hmem walk hwalk))
    rw [List.map_injective_iff.2 (fun _ _ => Option.some.inj) hresults, ← hsorted, List.map_map,
      List.map_map]
    rfl

/-- Tasks in an empty queue that hands them out in order and has room for all of them, and walks in
another such queue. Both when they are put in and the queue is worked off, and when they are spawned
on a pool with a stream for each of them, and run, no task is refused, no fault is met, and the
queue is empty in the end. In the first round every task has a turn, in the next one every task that
suspended in it, and so on, always in the order in which they were put in; thus the tasks finish
sorted by how often they suspend, and those that suspend equally often in their order. The walks
for some queries finish, and answer them, sorted by how many entries they visit. -/
theorem roundRobin {τ : Type u} {ρ : Type v} {Q : Type w} [ReadyQueue Q τ] [Resumable τ ρ]
    [InOrder Q] [PartialEquivBEq κ] [InOrder Q'] {queue : Q}
    (hempty : ReadyQueue.isEmpty queue = true) {ts : List τ} (hroom : HasRoom queue ts.length)
    {pauses : τ → Nat} (hpauses : ∀ t ∈ ts, FinishesAfter t (pauses t))
    (hempty' : ReadyQueue.isEmpty queue' = true) (ht : t.IsReachable)
    (hroom' : HasRoom queue' keys.length) :
    let filled := ReadyQueue.perform queue (ts.map QueueCall.schedule)
    let drained : Progress Q τ ρ := drain filled.2
    let filled' := ReadyQueue.perform queue' ((t.walks keys).map QueueCall.schedule)
    let walked : Progress Q' (ChainWalk κ ν) (Nat × Finding κ ν) := drain filled'.2
    filled.1 = ts.map (fun _ => .scheduled none) ∧
      RoundRobin pauses ts drained.fault drained.turns.toList drained.state ∧
      (∀ streams, max 1 ts.length ≤ streams → ∃ pool, StreamPool.ofQueue queue streams = .ok pool ∧
        let ran : Progress (StreamPool Q) τ ρ := (pool.spawnAll ts).andThen (·.run)
        RoundRobin pauses ts ran.fault ran.turns.toList ran.state.queue) ∧
      filled'.1 = keys.map (fun _ => .scheduled none) ∧
      WalkedInRounds t keys walked.fault walked.turns.toList walked.state ∧
      ∀ streams, max 1 keys.length ≤ streams →
        ∃ pool, StreamPool.ofQueue queue' streams = .ok pool ∧
          let ran : Progress (StreamPool Q') (ChainWalk κ ν) (Nat × Finding κ ν) :=
            (pool.spawnAll (t.walks keys)).andThen (·.run)
          WalkedInRounds t keys ran.fault ran.turns.toList ran.state.queue := by
  intro filled drained filled' walked
  have hwellFormed := ht.wellFormed
  have hlength := t.length_walks keys
  have hvisits := hwellFormed.finishesAfter_walks keys
  rw [← hlength] at hroom' ⊢
  obtain ⟨haccepted, hdrained⟩ := roundRobin_of_room hempty hroom hpauses
  obtain ⟨haccepted', hwalked⟩ := roundRobin_of_room hempty' hroom' hvisits
  refine ⟨haccepted, hdrained,
    fun streams hstreams => StreamPool.roundRobin_of_room hempty hroom hpauses hstreams, ?_,
    hwellFormed.walkedInRounds hwalked, fun streams hstreams => ?_⟩
  · rw [haccepted', List.map_const', List.map_const', hlength]
  · obtain ⟨pool, hpool, hran⟩ :=
      StreamPool.roundRobin_of_room hempty' hroom' hvisits hstreams
    exact ⟨pool, hpool, hwellFormed.walkedInRounds hran⟩

end Table

end AnyStorage

namespace Table

/-- Three countdowns in a ring whose window goes around the end, and three walks in a queue without
bound: for the second key of a chain, for a key that is not there, and for the first key of the
chain, which is the first to be found. -/
theorem roundRobin_of_countdowns_and_walks :
    let ring : Ring Countdown :=
      ⟨#[none, none, none], 2, 0, by decide, by decide, fun i hi => absurd hi (Nat.not_lt_zero i)⟩
    let ts : List Countdown := [⟨1, 2⟩, ⟨2, 0⟩, ⟨3, 2⟩]
    let drained : Progress (Ring Countdown) Countdown Int :=
      drain (ReadyQueue.perform ring (ts.map QueueCall.schedule)).2
    let k : TaggedKey := ⟨0, "a", "first"⟩
    let k' : TaggedKey := ⟨8, "b", "same bucket"⟩
    let missing : TaggedKey := ⟨16, "c", "missing"⟩
    let t : Table TaggedKey Nat :=
      (unbounded TaggedKey.digest).run [.insert k 1 (· + 0), .insert k' 2 (· + 0)]
    let walked : Progress (Fifo (ChainWalk TaggedKey Nat)) (ChainWalk TaggedKey Nat)
        (Nat × Finding TaggedKey Nat) :=
      drain (ReadyQueue.perform (.empty : Fifo (ChainWalk TaggedKey Nat))
        ((t.walks [k', missing, k]).map QueueCall.schedule)).2
    drained.turns.toList.map (·.task) =
        [⟨1, 2⟩, ⟨2, 0⟩, ⟨3, 2⟩, ⟨1, 1⟩, ⟨3, 1⟩, ⟨1, 0⟩, ⟨3, 0⟩] ∧
      tasks drained.state = [] ∧
      (Turn.finishers walked.turns.toList).map ChainWalk.key = [k, k', missing] := by
  intro ring ts drained k k' missing t walked
  have ht : t.IsReachable := ⟨_, _, .inl rfl⟩
  have hempty : ReadyQueue.isEmpty ring = true := rfl
  have hroom : HasRoom ring ts.length := ring.hasRoom
  have hempty' : ReadyQueue.isEmpty (.empty : Fifo (ChainWalk TaggedKey Nat)) = true := rfl
  have hroom' : HasRoom (.empty : Fifo (ChainWalk TaggedKey Nat)) [k', missing, k].length :=
    Fifo.hasRoom _ _
  obtain ⟨-, hdrained, -, -, hwalked, -⟩ :=
    roundRobin hempty hroom (fun t _ => t.finishesAfter) hempty' ht hroom'
  refine ⟨?_, hdrained.tasks_eq, hwalked.keys_eq.trans ?_⟩
  · rw [hdrained.turns_eq 3 (by decide)]
    rfl
  · have hvisits : [k, k', missing].map t.visits = [1, 2, 2] := by
      simp only [k, k', missing, t]
      cbv
    clear_value t
    simp only [List.map_cons, List.map_nil, List.cons.injEq, and_true] at hvisits
    obtain ⟨hfirst, hsecond, hmissing⟩ := hvisits
    rw [← flatMap_filter_eq_mergeSort (n := 3) (by simp [hfirst, hsecond, hmissing])]
    simp [List.range_succ, hfirst, hsecond, hmissing]

end Table

end BulkLookup
