import BulkLookup.Arena.Lemmas
import BulkLookup.Event
import BulkLookup.Fault

/-!
# Chained hash tables

A table is an array of buckets over an arena of entries. Each bucket heads a chain: it names the
first entry, and every entry names the next. An entry keeps the hash of its key, and it belongs to
the bucket whose number the low bits of that hash spell, which is why the number of buckets is
always a power of two. Two keys mean the same entry when their hashes are equal and the keys are
equal; the hash function and the equality of keys need not agree otherwise.

A table starts with a few buckets and never has more than its ceiling.

## Main definitions

* `Entry`, `Bucket`, `Table` — the data
* `Table.unbounded`, `Table.bounded` — empty tables
* `homeIndex` — the bucket of a hash
* `Table.count`, `Table.capacity`, `Table.loadFactor` — how full a table is

## Main results

* `homeIndex_eq_mod` — for a power of two, the low bits are the remainder
-/

namespace BulkLookup

/-- The bucket of a hash, among `capacity` buckets: the number that the low bits of the hash
spell. -/
def homeIndex (capacity : Nat) (hash : UInt64) : Nat := hash.toNat &&& (capacity - 1)

theorem homeIndex_eq_mod {capacity : Nat} (h : capacity.isPowerOfTwo) (hash : UInt64) :
    homeIndex capacity hash = hash.toNat % capacity := by
  obtain ⟨n, rfl⟩ := h
  exact Nat.and_two_pow_sub_one_eq_mod _ _

theorem homeIndex_lt {capacity : Nat} (h : 0 < capacity) (hash : UInt64) :
    homeIndex capacity hash < capacity :=
  Nat.lt_of_le_of_lt Nat.and_le_right (Nat.sub_lt h Nat.zero_lt_one)

variable [Storage]

/-- A stored pair, the hash of its key, and the next entry of its chain. -/
structure Entry (κ ν : Type) where
  key : κ
  value : ν
  hash : UInt64
  next : Option Handle

/-- The head of a chain, and the number of entries in it. -/
structure Bucket where
  first : Option Handle
  length : Nat
deriving DecidableEq

/-- A bucket without entries. -/
def Bucket.empty : Bucket := ⟨none, 0⟩

/-- A hash table whose entries hang in chains. -/
structure Table (κ ν : Type) where
  hasher : κ → UInt64
  buckets : Array Bucket
  arena : Arena (Entry κ ν)
  /-- The most buckets the table may have. -/
  ceiling : Nat

namespace Table

variable {κ ν : Type}

/-- How many buckets a table starts with, if its ceiling allows as many. -/
def initialCapacity : Nat := 8

/-- The load factor beyond which a table grows. `isOverloaded` is the test for that, without
rounding. -/
def fullLoad : Float := 0.5

/-- The greatest power of two among the 64-bit numbers. -/
def greatestCeiling : Nat := 1 <<< 63

/-- The greatest power of two that is at most `most`. -/
def ceilingBelow (most : UInt64) : Nat := 1 <<< most.toNat.log2

omit [Storage] in
theorem isPowerOfTwo_greatestCeiling : greatestCeiling.isPowerOfTwo := ⟨63, rfl⟩

omit [Storage] in
theorem isPowerOfTwo_ceilingBelow (most : UInt64) : (ceilingBelow most).isPowerOfTwo :=
  ⟨most.toNat.log2, Nat.one_shiftLeft _⟩

omit [Storage] in
theorem ceilingBelow_le (most : UInt64) : ceilingBelow most ≤ greatestCeiling := by
  rw [ceilingBelow, greatestCeiling, Nat.one_shiftLeft, Nat.one_shiftLeft]
  refine Nat.pow_le_pow_right Nat.two_pos (Nat.le_of_lt_succ ?_)
  by_cases hzero : most.toNat = 0
  · rw [hzero]
    decide
  · exact (Nat.log2_lt hzero).2 most.toNat_lt

/-- An empty table with a given ceiling. -/
def withCeiling (hasher : κ → UInt64) (ceiling : Nat) : Table κ ν where
  hasher
  buckets := Array.replicate (min initialCapacity ceiling) .empty
  arena := .empty
  ceiling

/-- An empty table that may grow without end. -/
def unbounded (hasher : κ → UInt64) : Table κ ν := withCeiling hasher greatestCeiling

instance : Inhabited (Table κ ν) := ⟨unbounded fun _ => 0⟩

/-- An empty table of at most `most` buckets. -/
def bounded (hasher : κ → UInt64) (most : UInt64) : Except SetupError (Table κ ν) :=
  if most = 0 then .error .zeroCeiling else .ok (withCeiling hasher (ceilingBelow most))

/-- How many entries a table holds. -/
def count (t : Table κ ν) : Nat := t.arena.size

/-- An empty table holds no entry. -/
@[simp] theorem count_withCeiling (hasher : κ → UInt64) (ceiling : Nat) :
    (withCeiling hasher ceiling : Table κ ν).count = 0 :=
  Arena.size_empty

/-- Whether a table holds no entry. -/
def isEmpty (t : Table κ ν) : Bool := t.count == 0

/-- How many buckets a table has. -/
def capacity (t : Table κ ν) : Nat := t.buckets.size

/-- Entries per bucket. -/
def loadFactor (t : Table κ ν) : Float := Float.ofNat t.count / Float.ofNat t.capacity

/-- The first entry of the chain to which a hash leads. -/
def headOf (t : Table κ ν) (hash : UInt64) : Option Handle :=
  t.buckets[homeIndex t.capacity hash]?.bind Bucket.first

end Table

end BulkLookup
