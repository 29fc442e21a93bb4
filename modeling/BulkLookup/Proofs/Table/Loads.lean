import BulkLookup.Proofs.Number.Exact
import BulkLookup.Proofs.Table.Events

/-!
# Loads in binary64

The load factor that a table shows, and the bound `fullLoad` on it, are binary64 numbers. Whether to
grow is decided without them: `isOverloaded` and `grow` compare numbers of entries with numbers of
buckets. As long as there are fewer than `2 ^ 53` entries it does not matter which numbers are
compared. The number of buckets is a power of two, so that the division does not round.

## Main results

* `Table.isOverloaded_iff`, `Table.div_le_fullLoad_iff` — the two tests of growing as comparisons of
  binary64 numbers
* `Table.WellFormed.grow_eq` — growing, decided by the load factor
* `Table.IsReachable.loadFactor_le` — the load factor of a table that came about by a history
-/

namespace BulkLookup.Table

variable [Storage] {κ ν : Type} {t : Table κ ν}

/-! ### The two tests -/

section Tests

variable (hpower : t.capacity.isPowerOfTwo) (hle : t.capacity ≤ greatestCeiling)
include hpower hle

theorem exists_capacity_eq : ∃ k, k < 64 ∧ t.capacity = 2 ^ k := by
  obtain ⟨k, hk⟩ := hpower
  refine ⟨k, ?_, hk⟩
  rw [hk, greatestCeiling, Nat.one_shiftLeft] at hle
  exact Nat.lt_succ_of_le ((Nat.pow_le_pow_iff_right Nat.one_lt_two).1 hle)

/-- A table is overloaded just if its load factor is beyond the bound. -/
theorem isOverloaded_iff (hcount : t.count < 2 ^ 53) :
    t.isOverloaded = true ↔ fullLoad < t.loadFactor := by
  obtain ⟨k, hk, hcapacity⟩ := exists_capacity_eq hpower hle
  rw [isOverloaded, decide_eq_true_iff, fullLoad, loadFactor, hcapacity,
    Binary64.half_lt_div_iff hcount hk]

/-- Among so many buckets, some number of entries is within the bound just if it fills at most half
of them. -/
theorem div_le_fullLoad_iff {items : Nat} (hitems : items < 2 ^ 53) :
    Float.ofNat items / Float.ofNat t.capacity ≤ fullLoad ↔ 2 * items ≤ t.capacity := by
  obtain ⟨k, hk, hcapacity⟩ := exists_capacity_eq hpower hle
  rw [fullLoad, hcapacity, Binary64.div_le_half_iff hitems hk]

end Tests

/-! ### Growing -/

variable [BEq κ]

/-- Growing, decided by the load factor: a table that is beyond the bound doubles its buckets and
goes on, or it reports its ceiling if it was within the bound with one entry less. -/
theorem WellFormed.grow_eq (ht : t.WellFormed) (hle : t.capacity ≤ greatestCeiling)
    (hcount : t.count < 2 ^ 53) :
    t.grow =
      if fullLoad < t.loadFactor then
        if 2 * t.capacity ≤ t.ceiling then
          (t.resize (2 * t.capacity)).bind fun moved => moved.grow.map fun (grown, events) =>
            (grown, #[.resized t.capacity (2 * t.capacity) t.count] ++ events)
        else if Float.ofNat (t.count - 1) / Float.ofNat t.capacity ≤ fullLoad then
          .ok (t, #[.ceilingReached t.capacity t.count])
        else .ok (t, #[])
      else .ok (t, #[]) := by
  have hpower := ht.capacity_isPowerOfTwo
  have hload := isOverloaded_iff hpower hle hcount
  have hcount' : t.count - 1 < 2 ^ 53 := Nat.lt_of_le_of_lt (Nat.sub_le _ _) hcount
  have hbefore := div_le_fullLoad_iff hpower hle hcount'
  by_cases hdue : t.IsDue
  · obtain ⟨moved, hmoved⟩ := ht.exists_double
    rw [grow_of_isDue hdue hmoved, if_pos (hload.1 hdue.1), if_pos hdue.2.2, hmoved]
    rfl
  · rw [grow_of_not_isDue hdue]
    by_cases hover : t.isOverloaded = true
    · have hroom : ¬ 2 * t.capacity ≤ t.ceiling := fun h => hdue ⟨hover, ht.capacity_pos, h⟩
      rw [if_pos (hload.1 hover), if_neg hroom]
      by_cases hfirst : 2 * (t.count - 1) ≤ t.capacity
      · rw [if_pos ⟨hover, hfirst⟩, if_pos (hbefore.2 hfirst)]
      · rw [if_neg fun h => hfirst h.2, if_neg fun h => hfirst (hbefore.1 h)]
    · rw [if_neg fun h => hover (hload.2 h), if_neg fun h => hover h.1]

/-! ### Histories -/

variable [PartialEquivBEq κ]

theorem IsReachable.capacity_le (ht : t.IsReachable) : t.capacity ≤ greatestCeiling := by
  refine Nat.le_trans ht.settled.capacity_le ?_
  obtain ⟨hasher, t₀, history, hfresh, rfl⟩ := isReachable_iff.1 ht
  rw [(hfresh.sized_run history).ceiling_eq]
  rcases hfresh with rfl | ⟨most, hbounded⟩
  · exact Nat.le_refl _
  · rw [bounded] at hbounded
    split at hbounded
    · cases hbounded
    · cases hbounded
      exact ceilingBelow_le most

/-- The load factor of a table that came about by a history is within the bound, unless the table
has reached its ceiling. -/
theorem IsReachable.loadFactor_le (ht : t.IsReachable) (hcount : t.count < 2 ^ 53) :
    t.loadFactor ≤ fullLoad ∨ t.capacity = t.ceiling := by
  have hsettled := ht.settled
  have hpower := hsettled.wellFormed.capacity_isPowerOfTwo
  refine hsettled.count_le.imp_left fun hhalf => ?_
  exact (div_le_fullLoad_iff hpower ht.capacity_le hcount).2 hhalf

end BulkLookup.Table
