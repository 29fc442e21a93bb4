import BulkLookup.Proofs.Lookup.Walks
import BulkLookup.Proofs.Work.Batches
import Mathlib.Data.List.Perm.Basic

/-!
# Interleaved lookups answer as sequential ones do

An interleaved lookup spawns one walk for each query, and the queue decides which of them takes the
next turn. The answers therefore come in any order; but every walk hands its position back with its
answer, and so each answer ends up in the place of its query.

## Main definitions

* `Finding.place` — puts one answer into its place

## Main results

* `Finding.collect_of_perm` — answers can be put into their places in any order
* `Table.lookupInterleaved_eq_lookupAll` — an interleaved lookup gives the answers of a sequential
  one
-/

namespace BulkLookup

universe w

open ReadyQueue Resumable

variable {κ ν : Type}

/-! ### Putting answers into their places -/

namespace Finding

/-- Puts one answer into its place. -/
def place (places : Array (Option (Finding κ ν))) (answer : Nat × Finding κ ν) :
    Array (Option (Finding κ ν)) :=
  places.setIfInBounds answer.1 (some answer.2)

variable {places : Array (Option (Finding κ ν))} {answers : List (Nat × Finding κ ν)} {i : Nat}
  {f : Finding κ ν}

theorem size_foldl_place : (answers.foldl place places).size = places.size := by
  induction answers generalizing places with
  | nil => rfl
  | cons answer answers ih =>
    rw [List.foldl_cons, ih]
    exact Array.size_setIfInBounds

/-- A place to which no answer belongs stays as it is. -/
theorem getElem?_foldl_place_of_notMem (h : i ∉ answers.map Prod.fst) :
    (answers.foldl place places)[i]? = places[i]? := by
  induction answers generalizing places with
  | nil => rfl
  | cons answer answers ih =>
    obtain ⟨hne, hrest⟩ := List.ne_and_not_mem_of_not_mem_cons h
    rw [List.foldl_cons, ih hrest]
    exact Array.getElem?_setIfInBounds_ne (Ne.symm hne)

/-- An answer is in its place in the end, if no other belongs there. -/
theorem getElem?_foldl_place (hdistinct : (answers.map Prod.fst).Nodup) (hmem : (i, f) ∈ answers)
    (hi : i < places.size) : (answers.foldl place places)[i]? = some (some f) := by
  induction answers generalizing places with
  | nil => cases hmem
  | cons answer answers ih =>
    obtain ⟨hfirst, hrest⟩ := List.nodup_cons.1 hdistinct
    rw [List.foldl_cons]
    rcases List.mem_cons.1 hmem with rfl | hmem
    · rw [getElem?_foldl_place_of_notMem hfirst]
      exact Array.getElem?_setIfInBounds_self_of_lt hi
    · apply ih hrest hmem
      rwa [place, Array.size_setIfInBounds]

/-- Every place is that of one answer. -/
theorem map_fst_mapIdx (findings : List (Finding κ ν)) :
    (findings.mapIdx Prod.mk).map Prod.fst = List.range findings.length := by
  apply List.ext_getElem
  · simp
  · intro i hi hi'
    simp

/-- The places, once every answer is put in its own. -/
theorem arrange_of_perm {findings : List (Finding κ ν)} {answers : Array (Nat × Finding κ ν)}
    (h : (findings.mapIdx Prod.mk).Perm answers.toList) :
    (arrange findings.length answers).toList = findings.map some := by
  have hdistinct : (answers.toList.map Prod.fst).Nodup := by
    rw [← (h.map Prod.fst).nodup_iff, map_fst_mapIdx]
    exact List.nodup_range
  have harrange : arrange findings.length answers =
      answers.toList.foldl place (Array.replicate findings.length none) := by
    rw [arrange, ← Array.foldl_toList]
    rfl
  apply List.ext_getElem?
  intro i
  rw [harrange, Array.getElem?_toList, List.getElem?_map]
  by_cases hi : i < findings.length
  · rw [List.getElem?_eq_getElem hi, Option.map_some]
    have hmem : (i, findings[i]) ∈ findings.mapIdx Prod.mk := by
      rw [List.mem_mapIdx]
      exact ⟨i, hi, rfl⟩
    apply getElem?_foldl_place hdistinct (h.mem_iff.1 hmem)
    rwa [Array.size_replicate]
  · rw [List.getElem?_eq_none (Nat.le_of_not_lt hi), Array.getElem?_eq_none]
    · rfl
    · rw [size_foldl_place, Array.size_replicate]
      exact Nat.le_of_not_lt hi

/-- Answers can be put into their places in any order. -/
theorem collect_of_perm {findings : List (Finding κ ν)} {answers : Array (Nat × Finding κ ν)}
    (h : (findings.mapIdx Prod.mk).Perm answers.toList) :
    collect findings.length answers = .ok findings := by
  rw [collect, arrange_of_perm h, List.mapM_map]
  exact (List.mapM_pure (m := Except Fault)).trans (congrArg _ (List.map_id findings))

end Finding

/-! ### Interleaved lookups -/

namespace Table

section AnyStorage

variable [Storage] [BEq κ] {t : Table κ ν} {keys : List κ}

/-- The walks for some queries come to the answers to these queries, each with its position. -/
theorem WellFormed.map_result?_walks (ht : t.WellFormed) (keys : List κ) :
    (t.walks keys).map result? = ((t.lookupAll keys).mapIdx Prod.mk).map some := by
  apply List.ext_getElem
  · simp [walks, lookupAll]
  · intro i hi hi'
    simp [walks, lookupAll, ht.result?_ofQuery]

variable {Q : Type w} [ReadyQueue Q (ChainWalk κ ν)] {queue : Q} {streams : Nat}

/-- An interleaved lookup that meets no fault collects the results of the turns taken. -/
theorem lookupInterleaved_of_fault_eq_none {pool : StreamPool Q}
    {ran : Progress (StreamPool Q) (ChainWalk κ ν) (Nat × Finding κ ν)}
    {closed : Progress Q (ChainWalk κ ν) (Nat × Finding κ ν)}
    (hpool : StreamPool.ofQueue queue streams = .ok pool)
    (hran : (pool.spawnAll (t.walks keys)).andThen (·.run) = ran) (hfault : ran.fault = none)
    (hclosed : ran.state.close = closed) (hfault' : closed.fault = none) :
    (t.lookupInterleaved keys queue streams).outcome =
        Finding.collect keys.length ((ran.turns ++ closed.turns).filterMap (·.result)) ∧
      (t.lookupInterleaved keys queue streams).queue = closed.state := by
  simp only [lookupInterleaved, hpool, hran, hfault, hclosed, hfault', and_self]

/-- An interleaved lookup in a table that came about by any history, for any queries, over any
positive number of streams, and on any empty queue that loses nothing and has room for as many walks
as may be in flight: it meets no fault, gives the answers of a sequential lookup, which meets none
either, and leaves the queue empty. In which order the queue hands out its tasks does not matter. -/
theorem lookupInterleaved_eq_lookupAll [PartialEquivBEq κ] [LosesNothing Q] (ht : t.IsReachable)
    (keys : List κ) (hstreams : 1 ≤ streams) (hempty : ReadyQueue.isEmpty queue = true)
    (hroom : HasRoom queue (min streams keys.length)) :
    (t.lookupInterleaved keys queue streams).outcome = .ok (t.lookupAll keys) ∧
      t.tryLookupAll keys = .ok (t.lookupAll keys) ∧
      tasks (t.lookupInterleaved keys queue streams).queue = [] ∧
      ReadyQueue.isEmpty (t.lookupInterleaved keys queue streams).queue = true := by
  have hwellFormed := ht.wellFormed
  have hresults := hwellFormed.map_result?_walks keys
  have hall : ∀ walk ∈ t.walks keys, (result? walk : Option (Nat × Finding κ ν)).isSome = true := by
    intro walk hmem
    have hmem' := List.mem_map_of_mem (f := result?) hmem
    rw [hresults] at hmem'
    obtain ⟨answer, -, hanswer⟩ := List.mem_map.1 hmem'
    rw [← hanswer, Option.isSome_some]
  have hlength : (t.walks keys).length = keys.length := List.length_mapIdx
  rw [← hlength] at hroom
  obtain ⟨hran, hclosed, hnil, hperm⟩ :=
    StreamPool.perm_results_of_batch hstreams hempty hroom hall
  have hpool : StreamPool.ofQueue queue streams = .ok ⟨queue, streams, streams, 0⟩ := by
    rw [StreamPool.ofQueue, if_neg (Nat.ne_of_gt hstreams), if_pos hempty]
  obtain ⟨houtcome, hqueue⟩ := lookupInterleaved_of_fault_eq_none hpool rfl hran rfl hclosed
  -- The answers have come in some order; each has its position with it.
  rw [hresults, List.map_perm_map_iff fun _ _ => Option.some.inj] at hperm
  have hcollect := Finding.collect_of_perm hperm
  rw [lookupAll, List.length_map] at hcollect
  rw [houtcome, hqueue, ReadyQueue.isEmpty_iff]
  exact ⟨hcollect, hwellFormed.tryLookupAll_eq keys, hnil, hnil⟩

end AnyStorage

/-- Two streams over a stack, which lets the latest walk go first, for a key at the end of its
chain, a key that is not there, and the same key asked for twice. -/
theorem lookupInterleaved_on_stack :
    let k : TaggedKey := ⟨0, "a", "first"⟩
    let k' : TaggedKey := ⟨8, "b", "same bucket"⟩
    let t : Table TaggedKey Nat :=
      (unbounded TaggedKey.digest).run [.insert k 1 (· + 0), .insert k' 2 (· + 0)]
    let run : BulkRun (Stack (ChainWalk TaggedKey Nat)) TaggedKey Nat :=
      t.lookupInterleaved [k', ⟨16, "c", "missing"⟩, k, k'] .empty 2
    run.outcome = .ok [⟨k', some (k', 2)⟩, ⟨⟨16, "c", "missing"⟩, none⟩, ⟨k, some (k, 1)⟩,
      ⟨k', some (k', 2)⟩] ∧ tasks run.queue = [] := by
  intro k k' t run
  have ht : t.IsReachable := ⟨_, _, .inl rfl⟩
  have hfresh : IsFresh TaggedKey.digest (unbounded TaggedKey.digest : Table TaggedKey Nat) :=
    .inl rfl
  obtain ⟨houtcome, -, hnil, -⟩ := lookupInterleaved_eq_lookupAll ht
    [k', ⟨16, "c", "missing"⟩, k, k'] (show 1 ≤ 2 by decide) (by rfl) (Stack.empty.hasRoom 2)
  refine ⟨houtcome.trans (congrArg Except.ok ?_), hnil⟩
  simp only [lookupAll, answer, t, List.map_cons, List.map_nil, hfresh.lookup_run]
  rfl

end Table

end BulkLookup
