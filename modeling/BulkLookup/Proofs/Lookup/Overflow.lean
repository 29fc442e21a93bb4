import BulkLookup.Proofs.Lookup.Resources
import BulkLookup.Proofs.Work.Overflow

/-!
# Interleaved lookups on rings

A ring has a fixed number of cells, and so an interleaved lookup on it may fail. It succeeds exactly
when it has a stream, the ring is empty, and there are as many cells as walks can be in flight: as
many as there are streams, or queries if they are fewer. Called wrongly, it leaves the ring as it
was. On a ring with too few cells it gives up at the first walk that does not fit, with the walks
that do still in the ring; on this ring no lookup succeeds any more.

## Main results

* `Table.lookupInterleaved_of_ofQueue_eq_error`, `Table.lookupInterleaved_of_fault` — lookups that
  are called wrongly, and lookups that meet a fault
* `Table.lookupInterleaved_of_overflow` — what a lookup leaves on a ring with too few cells
* `Table.lookupInterleaved_on_ring` — when a lookup on a ring succeeds, and what it leaves if not
-/

namespace BulkLookup

universe w

open ReadyQueue Resumable

namespace Table

section AnyStorage

variable [Storage] {κ ν : Type} [BEq κ]

variable {t : Table κ ν} {keys : List κ} {streams : Nat}

section Faults

variable {Q : Type w} [ReadyQueue Q (ChainWalk κ ν)] {queue : Q} {fault : Fault}

/-- A lookup that is called wrongly leaves the queue as it was. -/
theorem lookupInterleaved_of_ofQueue_eq_error
    (h : StreamPool.ofQueue queue streams = .error fault) :
    t.lookupInterleaved keys queue streams =
      ⟨.error fault, queue, #[], #[.lookupStarted keys.length streams]⟩ := by
  simp only [lookupInterleaved, h]

/-- A lookup that meets a fault while its walks are admitted leaves everything as it is then. -/
theorem lookupInterleaved_of_fault {pool : StreamPool Q}
    {spawned : Progress (StreamPool Q) (ChainWalk κ ν) (Nat × Finding κ ν)}
    (hpool : StreamPool.ofQueue queue streams = .ok pool)
    (hspawned : pool.spawnAll (t.walks keys) = spawned) (hfault : spawned.fault = some fault) :
    t.lookupInterleaved keys queue streams =
      ⟨.error fault, spawned.state.queue, spawned.turns,
        #[.lookupStarted keys.length streams] ++ spawned.events⟩ := by
  simp only [lookupInterleaved, hpool, hspawned, Progress.andThen_of_some hfault, hfault]

/-- A lookup without a stream leaves the queue as it was. -/
theorem lookupInterleaved_of_noStreams (t : Table κ ν) (keys : List κ) (queue : Q) :
    t.lookupInterleaved keys queue 0 =
      ⟨.error .noStreams, queue, #[], #[.lookupStarted keys.length 0]⟩ :=
  lookupInterleaved_of_ofQueue_eq_error rfl

/-- A lookup with a stream, on a queue that says that it holds a walk, leaves the queue as it was.
-/
theorem lookupInterleaved_of_foreignTasks (t : Table κ ν) (keys : List κ) (hstreams : 1 ≤ streams)
    (hempty : ReadyQueue.isEmpty queue ≠ true) :
    t.lookupInterleaved keys queue streams =
      ⟨.error .foreignTasks, queue, #[], #[.lookupStarted keys.length streams]⟩ := by
  apply lookupInterleaved_of_ofQueue_eq_error
  rw [StreamPool.ofQueue, if_neg (Nat.ne_of_gt hstreams), if_neg hempty]

end Faults

section Rings

variable {ring : Ring (ChainWalk κ ν)}

omit [BEq κ] in
/-- The walks for the first queries are the first walks. -/
theorem take_walks (t : Table κ ν) (keys : List κ) (n : Nat) :
    (t.walks keys).take n = t.walks (keys.take n) := by
  apply List.ext_getElem
  · simp [walks]
  · intro i hi hi'
    simp [walks]

/-- A lookup on a ring that holds a walk leaves the ring as it was, and fails for what it holds if
there is a stream. -/
theorem lookupInterleaved_of_length_ne_zero (hne : ring.length ≠ 0) (t : Table κ ν) (keys : List κ)
    (streams : Nat) :
    let run := t.lookupInterleaved keys ring streams
    run.turns = #[] ∧ run.queue = ring ∧ (1 ≤ streams → run.outcome = .error .foreignTasks) := by
  cases streams with
  | zero =>
    rw [lookupInterleaved_of_noStreams]
    exact ⟨rfl, rfl, fun hstreams => absurd hstreams (Nat.not_succ_le_zero 0)⟩
  | succ streams =>
    rw [t.lookupInterleaved_of_foreignTasks keys (Nat.succ_pos streams) (mt Ring.isEmpty_iff.1 hne)]
    exact ⟨rfl, rfl, fun _ => rfl⟩

/-- On an empty ring with too few cells, a lookup gives up at the first walk that does not fit. No
walk has taken a turn, and those before it are in the ring, in the order of their queries. -/
theorem lookupInterleaved_of_overflow (hempty : ring.length = 0)
    (hlt : ring.capacity < min streams keys.length) :
    let run := t.lookupInterleaved keys ring streams
    let pool : StreamPool (Ring (ChainWalk κ ν)) := ⟨ring, streams, streams, 0⟩
    let spawned (n : Nat) : Progress (StreamPool (Ring (ChainWalk κ ν))) (ChainWalk κ ν)
      (Nat × Finding κ ν) := pool.spawnAll (t.walks (keys.take n))
    StreamPool.ofQueue ring streams = .ok pool ∧ (spawned ring.capacity).fault = none ∧
      (spawned (ring.capacity + 1)).fault = some (.queueFull ring.capacity) ∧
      run.outcome = .error (.queueFull ring.capacity) ∧ run.turns = #[] ∧
      run.queue.tasks = t.walks (keys.take ring.capacity) ∧
      run.queue.capacity = ring.capacity := by
  intro run pool spawned
  have hpool : StreamPool.ofQueue ring streams = .ok pool :=
    StreamPool.ofQueue_of_isEmpty (by omega) (Ring.isEmpty_iff.2 hempty)
  rw [← t.length_walks keys] at hlt
  obtain ⟨hfilled, hrefused, hfault, hturns, -, htasks, hcapacity⟩ :=
    StreamPool.spawnAll_of_overflow (ρ := Nat × Finding κ ν) hempty hlt
  rw [take_walks] at hfilled hrefused htasks
  have hrun : run = _ := lookupInterleaved_of_fault hpool rfl hfault
  rw [hrun]
  exact ⟨hpool, hfilled, hrefused, rfl, hturns, htasks, hcapacity⟩

/-- On an empty ring with cells enough, a lookup succeeds and leaves the ring empty. -/
theorem WellFormed.lookupInterleaved_of_capacity (ht : t.WellFormed) (hstreams : 1 ≤ streams)
    (hempty : ring.length = 0) (hle : min streams keys.length ≤ ring.capacity) :
    (t.lookupInterleaved keys ring streams).outcome = .ok (t.lookupAll keys) ∧
      (t.lookupInterleaved keys ring streams).queue.length = 0 := by
  obtain ⟨-, -, hnil, houtcome, hqueue, -, -⟩ :=
    ht.lookupInterleaved_of_room hstreams (Ring.isEmpty_iff.2 hempty) (ring.hasRoom.mono hle)
  refine ⟨houtcome, ?_⟩
  rw [hqueue, ← Ring.length_tasks]
  exact List.length_eq_zero_iff.2 hnil

/-- An interleaved lookup in a table that came about by any history, for any queries, over any
number of streams, and on a ring in any state.

It succeeds exactly when there is a stream, the ring is empty, and the ring has as many cells as
there are streams, or as there are queries if they are fewer; then it gives the answers of a
sequential lookup, which meets no fault, and leaves the ring empty. Without a stream it fails for
this reason, whatever the ring holds, and otherwise for what the ring holds, if that is anything; in
both cases, the ring stays as it was. On an empty ring with too few cells, the first walk that does
not fit is refused. By then no walk has taken a turn, and the ring holds the walks before it, none
of which has set out, in the order of their queries. From then on, no lookup on this ring changes it
any more, and each that has a stream fails for what the ring holds. -/
theorem lookupInterleaved_on_ring [PartialEquivBEq κ] (ht : t.IsReachable) (keys : List κ)
    (ring : Ring (ChainWalk κ ν)) (streams : Nat) :
    let run := t.lookupInterleaved keys ring streams
    let pool : StreamPool (Ring (ChainWalk κ ν)) := ⟨ring, streams, streams, 0⟩
    let spawned (n : Nat) : Progress (StreamPool (Ring (ChainWalk κ ν))) (ChainWalk κ ν)
      (Nat × Finding κ ν) := pool.spawnAll (t.walks (keys.take n))
    ((∃ findings, run.outcome = .ok findings) ↔
        1 ≤ streams ∧ ring.length = 0 ∧ min streams keys.length ≤ ring.capacity) ∧
      ((∃ findings, run.outcome = .ok findings) →
        run.outcome = .ok (t.lookupAll keys) ∧ t.tryLookupAll keys = .ok (t.lookupAll keys) ∧
        run.queue.length = 0) ∧
      (streams = 0 → run.outcome = .error .noStreams ∧ run.turns = #[] ∧ run.queue = ring) ∧
      (1 ≤ streams → ring.length ≠ 0 →
        run.outcome = .error .foreignTasks ∧ run.turns = #[] ∧ run.queue = ring) ∧
      (1 ≤ streams → ring.length = 0 → ring.capacity < min streams keys.length →
        StreamPool.ofQueue ring streams = .ok pool ∧ (spawned ring.capacity).fault = none ∧
        (spawned (ring.capacity + 1)).fault = some (.queueFull ring.capacity) ∧
        run.outcome = .error (.queueFull ring.capacity) ∧ run.turns = #[] ∧
        run.queue.tasks = t.walks (keys.take ring.capacity) ∧
        run.queue.capacity = ring.capacity ∧
        ∀ (t' : Table κ ν) (keys' : List κ) (streams' : Nat),
          let later := t'.lookupInterleaved keys' run.queue streams'
          later.queue = run.queue ∧ (1 ≤ streams' → later.outcome = .error .foreignTasks)) := by
  intro run pool spawned
  have hwellFormed := ht.wellFormed
  have hnone : streams = 0 →
      run.outcome = .error .noStreams ∧ run.turns = #[] ∧ run.queue = ring := by
    rintro rfl
    have hrun : run = _ := t.lookupInterleaved_of_noStreams keys ring
    rw [hrun]
    exact ⟨rfl, rfl, rfl⟩
  have hforeign : 1 ≤ streams → ring.length ≠ 0 →
      run.outcome = .error .foreignTasks ∧ run.turns = #[] ∧ run.queue = ring := by
    intro hstreams hne
    obtain ⟨hturns, hqueue, houtcome⟩ := lookupInterleaved_of_length_ne_zero hne t keys streams
    exact ⟨houtcome hstreams, hturns, hqueue⟩
  have hsuccess : 1 ≤ streams → ring.length = 0 → min streams keys.length ≤ ring.capacity →
      run.outcome = .ok (t.lookupAll keys) ∧ run.queue.length = 0 :=
    hwellFormed.lookupInterleaved_of_capacity
  have hiff : (∃ findings, run.outcome = .ok findings) ↔
      1 ≤ streams ∧ ring.length = 0 ∧ min streams keys.length ≤ ring.capacity := by
    constructor
    · rintro ⟨findings, hok⟩
      have hstreams : streams ≠ 0 := fun h => by cases hok.symm.trans (hnone h).1
      have hpos : 1 ≤ streams := Nat.pos_of_ne_zero hstreams
      have hempty : ring.length = 0 := by
        by_contra hne
        cases hok.symm.trans (hforeign hpos hne).1
      refine ⟨hpos, hempty, ?_⟩
      by_contra hlt
      obtain ⟨-, -, -, houtcome, -⟩ :=
        lookupInterleaved_of_overflow (t := t) hempty (Nat.lt_of_not_le hlt)
      cases hok.symm.trans houtcome
    · rintro ⟨hstreams, hempty, hle⟩
      exact ⟨_, (hsuccess hstreams hempty hle).1⟩
  refine ⟨hiff, fun hok => ?_, hnone, hforeign, fun hstreams hempty hlt => ?_⟩
  · obtain ⟨hstreams, hempty, hle⟩ := hiff.1 hok
    obtain ⟨houtcome, hqueue⟩ := hsuccess hstreams hempty hle
    exact ⟨houtcome, hwellFormed.tryLookupAll_eq keys, hqueue⟩
  · obtain ⟨hpool, hfilled, hrefused, houtcome, hturns, htasks, hcapacity⟩ :=
      lookupInterleaved_of_overflow (t := t) hempty hlt
    refine ⟨hpool, hfilled, hrefused, houtcome, hturns, htasks, hcapacity, ?_⟩
    -- The ring has at least one cell, and so it holds a walk.
    have hne : run.queue.length ≠ 0 := by
      have hcells : 0 < ring.capacity := Nat.zero_lt_of_lt ring.head_lt
      rw [← Ring.length_tasks, htasks, length_walks, List.length_take]
      omega
    intro t' keys' streams'
    obtain ⟨-, hqueue, hlater⟩ := lookupInterleaved_of_length_ne_zero hne t' keys' streams'
    exact ⟨hqueue, hlater⟩

end Rings

end AnyStorage

/-- Three queries over three streams, on a ring of two cells: the third walk is refused, though the
stream for it is free. On the ring as it is then, not even one query is answered. -/
theorem lookupInterleaved_on_ring_of_two_cells :
    let k : TaggedKey := ⟨0, "a", "first"⟩
    let t : Table TaggedKey Nat := (unbounded TaggedKey.digest).run [.insert k 1 (· + 0)]
    let ring : Ring (ChainWalk TaggedKey Nat) :=
      ⟨#[none, none], 1, 0, by decide, by decide, fun i hi => absurd hi (Nat.not_lt_zero i)⟩
    let run := t.lookupInterleaved [k, k, k] ring 3
    run.outcome = .error (.queueFull 2) ∧ run.turns = #[] ∧
      run.queue.tasks = [.ofQuery t 0 k, .ofQuery t 1 k] ∧
      (t.lookupInterleaved [k] run.queue 1).outcome = .error .foreignTasks := by
  intro k t ring run
  have ht : t.IsReachable := ⟨_, _, .inl rfl⟩
  obtain ⟨-, -, -, -, hoverflow⟩ := lookupInterleaved_on_ring ht [k, k, k] ring 3
  obtain ⟨-, -, -, houtcome, hturns, htasks, -, hlater⟩ :=
    hoverflow (by decide) rfl (show 2 < min 3 3 by decide)
  exact ⟨houtcome, hturns, htasks, (hlater t [k] 1).2 (Nat.le_refl 1)⟩

end Table

end BulkLookup
