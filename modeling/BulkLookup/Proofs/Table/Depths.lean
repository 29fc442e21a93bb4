import BulkLookup.Proofs.Table.Refinement
import BulkLookup.Table.Occupancy
import Mathlib.Algebra.Group.Action.Defs
import Mathlib.Algebra.Order.BigOperators.Group.List
import Mathlib.Algebra.Order.Ring.Nat
import Mathlib.Order.Bounds.Basic

/-!
# How entries are spread over the buckets

The figures that a table gives about its buckets are read off the counts beside them; no chain is
walked. Here they are compared with the entries themselves: how many entries belong into a bucket is
counted over all values of the arena, by the hashes of the keys and without regard to any link. In a
well-formed table the two agree, bucket by bucket. Hence the figures follow from the hashes of the
stored keys and the number of buckets, whatever was done to the table before.

## Main definitions

* `Arena.values` — the values of an arena
* `Table.depth` — how many entries belong into a bucket
* `Table.hashes` — the hashes of all stored keys

## Main results

* `Arena.countP_values` — values are counted by the handles that name them
* `Table.WellFormed.chainLengths_eq` — the counts beside the buckets are right
* `Table.WellFormed.sum_depth` — every entry belongs into one bucket
* `Table.occupancy_of_depths` — the figures, by the hashes of the stored keys
-/

namespace BulkLookup

section AnyStorage

variable [Storage]

/-! ### The values of an arena -/

namespace Arena

variable {α : Type} {a : Arena α} {h : Handle} {value : α} {p : α → Bool}

/-- The values of an arena, by the handles that name them. -/
def values (a : Arena α) : List α := a.handles.filterMap a.get?

/-- A value of an arena is named by some handle. -/
theorem exists_get?_of_mem_values (hmem : value ∈ a.values) : ∃ h, a.get? h = some value := by
  obtain ⟨h, -, hget⟩ := List.mem_filterMap.1 hmem
  exact ⟨h, hget⟩

/-- Values with a property are counted by the handles that name them. -/
theorem countP_values {nodes : List Handle} (hnodup : nodes.Nodup)
    (hmem : ∀ node, node ∈ nodes ↔ ∃ value, a.get? node = some value ∧ p value = true) :
    a.values.countP p = nodes.length := by
  have hperm : nodes.Perm (a.handles.filter fun node => (a.get? node).any p) := by
    refine (List.perm_ext_iff_of_nodup hnodup (a.nodup_handles.sublist List.filter_sublist)).2 ?_
    intro node
    rw [hmem, List.mem_filter, mem_handles_iff, Option.any_eq_true, and_iff_right_of_imp]
    rintro ⟨value, hget, -⟩
    rw [hget, Option.isSome_some]
  rw [hperm.length_eq, ← List.countP_eq_length_filter, values, List.countP_filterMap]
  congr 1
  funext node
  cases a.get? node <;> rfl

theorem length_values (a : Arena α) : a.values.length = a.size := by
  rw [← List.countP_true, ← length_handles]
  apply countP_values a.nodup_handles
  intro node
  rw [mem_handles_iff, Option.isSome_iff_exists]
  exact exists_congr fun value => (and_iff_left rfl).symm

end Arena

/-! ### Entries by their buckets -/

namespace Table

variable {κ ν : Type} {t t' : Table κ ν} {i : Nat}

/-- How many entries belong into a bucket: those of whose keys the hash leaves its number as
remainder. -/
def depth (t : Table κ ν) (i : Nat) : Nat :=
  t.arena.values.countP fun e => (t.hasher e.key).toNat % t.capacity == i

/-- The hashes that the entries keep, each as often as it occurs. -/
def hashes (t : Table κ ν) : List UInt64 := t.arena.values.map Entry.hash

theorem length_chainLengths (t : Table κ ν) : t.chainLengths.length = t.capacity := by
  rw [chainLengths, List.length_map, Array.length_toList, capacity]

namespace WellFormed

variable [BEq κ]

/-- How many entries belong into a bucket can be told from the hashes that they keep. -/
theorem depth_eq_countP_hashes (ht : t.WellFormed) (i : Nat) :
    t.depth i = t.hashes.countP fun hash => hash.toNat % t.capacity == i := by
  rw [depth, hashes, List.countP_map]
  apply List.countP_congr
  intro e hmem
  obtain ⟨node, hget⟩ := Arena.exists_get?_of_mem_values hmem
  rw [Function.comp_apply, ht.hash_eq node e hget]

/-- The chain of a bucket is made of the entries that belong into it. -/
theorem depth_eq_length_chain (ht : t.WellFormed) (hi : i < t.capacity) :
    t.depth i = (t.chain i).length := by
  apply Arena.countP_values (ht.nodup_chain hi)
  intro node
  constructor
  · intro hmem
    obtain ⟨e, hget⟩ := Option.isSome_iff_exists.1 (ht.isSome_get?_of_mem hi hmem)
    refine ⟨e, hget, beq_iff_eq.2 ?_⟩
    rw [← ht.hash_eq node e hget, ← homeIndex_eq_mod ht.capacity_isPowerOfTwo]
    exact ht.eq_homeIndex_of_mem hget hi hmem
  · rintro ⟨e, hget, hhome⟩
    rw [ht.mem_chain_iff node e hget i hi, homeIndex_eq_mod ht.capacity_isPowerOfTwo,
      ht.hash_eq node e hget]
    exact beq_iff_eq.1 hhome

/-- The counts beside the buckets tell how many entries belong into each. -/
theorem chainLengths_eq (ht : t.WellFormed) :
    t.chainLengths = (List.range t.capacity).map t.depth := by
  apply List.ext_getElem
  · rw [length_chainLengths, List.length_map, List.length_range]
  · intro i hi _
    rw [length_chainLengths] at hi
    obtain ⟨b, hb⟩ := exists_bucket hi
    rw [List.getElem_map, List.getElem_range, ht.depth_eq_length_chain hi,
      ← (ht.path_chain i b hb).2]
    simp only [chainLengths, List.getElem_map, Array.getElem_toList]
    rw [(Array.getElem?_eq_some_iff.1 hb).2]

/-- Every entry belongs into one bucket. -/
theorem sum_depth (ht : t.WellFormed) : ((List.range t.capacity).map t.depth).sum = t.count := by
  have hdepth : (List.range t.capacity).map t.depth =
      (List.range t.capacity).map fun i => (t.chain i).length :=
    List.map_congr_left fun i hi => ht.depth_eq_length_chain (List.mem_range.1 hi)
  -- The chains together hold the handles of all values, each once.
  have hall : t.arena.values.countP (fun _ => true) = t.handles.length :=
    Arena.countP_values ht.nodup_handles fun node => by
      simp [ht.mem_handles_iff, Option.isSome_iff_exists]
  rw [hdepth, ← List.length_flatMap, ← handles, ← hall, List.countP_true, Arena.length_values,
    count]

theorem mem_chainLengths_iff (ht : t.WellFormed) {d : Nat} :
    d ∈ t.chainLengths ↔ ∃ i < t.capacity, t.depth i = d := by
  simp only [ht.chainLengths_eq, List.mem_map, List.mem_range]

theorem chainLengths_ne_nil (ht : t.WellFormed) : t.chainLengths ≠ [] := by
  rw [← List.length_pos_iff, length_chainLengths]
  exact ht.capacity_pos

/-- The length of a shortest chain is the least number of entries that belong into a bucket. -/
theorem isLeast_shortest (ht : t.WellFormed) :
    IsLeast {d | ∃ i < t.capacity, t.depth i = d} t.occupancy.shortest := by
  obtain ⟨least, hleast⟩ :=
    Option.isSome_iff_exists.1 (List.isSome_min?_iff.2 ht.chainLengths_ne_nil)
  obtain ⟨hmem, hle⟩ := List.min?_eq_some_iff.1 hleast
  simp only [occupancy, hleast, Option.getD_some]
  exact ⟨ht.mem_chainLengths_iff.1 hmem, fun d hd => hle d (ht.mem_chainLengths_iff.2 hd)⟩

/-- The length of a longest chain is the greatest number of entries that belong into a bucket. -/
theorem isGreatest_longest (ht : t.WellFormed) :
    IsGreatest {d | ∃ i < t.capacity, t.depth i = d} t.occupancy.longest := by
  obtain ⟨greatest, hgreatest⟩ :=
    Option.isSome_iff_exists.1 (List.isSome_max?_iff.2 ht.chainLengths_ne_nil)
  obtain ⟨hmem, hle⟩ := List.max?_eq_some_iff.1 hgreatest
  simp only [occupancy, hgreatest, Option.getD_some]
  exact ⟨ht.mem_chainLengths_iff.1 hmem, fun d hd => hle d (ht.mem_chainLengths_iff.2 hd)⟩

theorem shortest_mul_le_count (ht : t.WellFormed) :
    t.occupancy.shortest * t.capacity ≤ t.count := by
  have hle := List.card_nsmul_le_sum ((List.range t.capacity).map t.depth) t.occupancy.shortest
    fun d hd => ht.isLeast_shortest.2 (by simpa using hd)
  rwa [ht.sum_depth, List.length_map, List.length_range, smul_eq_mul, Nat.mul_comm] at hle

theorem count_le_longest_mul (ht : t.WellFormed) :
    t.count ≤ t.occupancy.longest * t.capacity := by
  have hle := List.sum_le_card_nsmul ((List.range t.capacity).map t.depth) t.occupancy.longest
    fun d hd => ht.isGreatest_longest.2 (by simpa using hd)
  rwa [ht.sum_depth, List.length_map, List.length_range, smul_eq_mul, Nat.mul_comm] at hle

/-- Tables with as many buckets, in which the same hashes are kept, are filled alike. -/
theorem depth_congr (ht : t.WellFormed) (ht' : t'.WellFormed) (hcapacity : t'.capacity = t.capacity)
    (hhashes : t'.hashes.Perm t.hashes) : t'.depth = t.depth := by
  funext i
  rw [ht.depth_eq_countP_hashes, ht'.depth_eq_countP_hashes, hcapacity]
  exact hhashes.countP_eq _

end WellFormed

/-- The figures of a table that came about by any history. The number of entries that belong into a
bucket is counted by the hashes of the stored keys alone.

The counts beside the buckets are these numbers; the lengths of a shortest and of a longest chain
are the least and the greatest of them, empty buckets included; and together they make up all
entries, so that these are at least as many as if all chains were as short, and at most as many as
if all were as long. Two tables with as many buckets have the same figures if the same hashes are
kept in them, each as often, in whatever order the operations came. -/
theorem occupancy_of_depths [BEq κ] [PartialEquivBEq κ] (ht : t.IsReachable) :
    let spread := t.occupancy
    t.chainLengths = (List.range t.capacity).map t.depth ∧
    IsLeast {d | ∃ i < t.capacity, t.depth i = d} spread.shortest ∧
    IsGreatest {d | ∃ i < t.capacity, t.depth i = d} spread.longest ∧
    ((List.range t.capacity).map t.depth).sum = spread.count ∧
    spread.shortest * spread.capacity ≤ spread.count ∧
    spread.count ≤ spread.longest * spread.capacity ∧
    ∀ t' : Table κ ν, t'.IsReachable → t'.capacity = t.capacity → t'.hashes.Perm t.hashes →
      t'.occupancy.shortest = spread.shortest ∧ t'.occupancy.longest = spread.longest := by
  intro spread
  have hwellFormed := ht.wellFormed
  refine ⟨hwellFormed.chainLengths_eq, hwellFormed.isLeast_shortest, hwellFormed.isGreatest_longest,
    hwellFormed.sum_depth, hwellFormed.shortest_mul_le_count, hwellFormed.count_le_longest_mul,
    fun t' ht' hcapacity hhashes => ?_⟩
  -- Both tables have the same numbers to choose the least and the greatest from.
  have hdepth := hwellFormed.depth_congr ht'.wellFormed hcapacity hhashes
  have hleast := ht'.wellFormed.isLeast_shortest
  have hgreatest := ht'.wellFormed.isGreatest_longest
  rw [hcapacity, hdepth] at hleast hgreatest
  exact ⟨hleast.unique hwellFormed.isLeast_shortest,
    hgreatest.unique hwellFormed.isGreatest_longest⟩

end Table

end AnyStorage

namespace Table

/-- Three keys belong into one of two buckets and a fourth into the other. The same is told of a
table into which they came in another order, while a fifth came and went. -/
theorem occupancy_of_depths_of_tagged_keys :
    let store : UInt64 → Operation TaggedKey Nat := fun digest => .insert ⟨digest, "a", "key"⟩ 0 id
    ∃ t₀ : Table TaggedKey Nat, bounded TaggedKey.digest 2 = .ok t₀ ∧
      let t := t₀.run [store 0, store 2, store 1, store 4]
      let t' := t₀.run [store 1, store 6, store 4, store 2, .remove ⟨6, "a", "asked"⟩, store 0]
      t.chainLengths = [3, 1] ∧ t.occupancy.shortest = 1 ∧ t.occupancy.longest = 3 ∧
        t'.hashes.Perm t.hashes ∧ t'.occupancy.shortest = 1 ∧ t'.occupancy.longest = 3 := by
  intro store
  have hbounded : bounded TaggedKey.digest 2 =
      .ok (withCeiling TaggedKey.digest 2 : Table TaggedKey Nat) := rfl
  refine ⟨_, hbounded, ?_⟩
  intro t t'
  have ht : t.IsReachable := ⟨_, _, .inr ⟨2, _, hbounded, rfl⟩⟩
  have ht' : t'.IsReachable := ⟨_, _, .inr ⟨2, _, hbounded, rfl⟩⟩
  have hcapacity : t'.capacity = t.capacity := by decide +kernel
  have hhashes : t'.hashes.Perm t.hashes := by decide +kernel
  have hdepths : (List.range t.capacity).map t.depth = [3, 1] := by decide +kernel
  obtain ⟨hlengths, hleast, hgreatest, -, -, -, hsame⟩ := occupancy_of_depths ht
  obtain ⟨hshortest, hlongest⟩ := hsame t' ht' hcapacity hhashes
  have hset : {d | ∃ i < t.capacity, t.depth i = d} = {d | d ∈ [3, 1]} := by
    rw [← hdepths]
    simp only [List.mem_map, List.mem_range]
  rw [hset] at hleast hgreatest
  have hone : t.occupancy.shortest = 1 := hleast.unique ⟨by simp, by simp [lowerBounds]⟩
  have hthree : t.occupancy.longest = 3 := hgreatest.unique ⟨by simp, by simp [upperBounds]⟩
  exact ⟨hlengths.trans hdepths, hone, hthree, hhashes, hshortest.trans hone,
    hlongest.trans hthree⟩

end Table

end BulkLookup
