import BulkLookup.Table.Basic

/-!
# Occupancy

How the entries of a table are spread over its buckets, as far as the counts beside the buckets
tell. Empty buckets count as well.

## Main definitions

* `Occupancy` — the figures
* `Table.occupancy` — the figures of a table
-/

namespace BulkLookup

/-- How the entries of a table are spread. -/
structure Occupancy where
  count : Nat
  capacity : Nat
  ceiling : Nat
  /-- Entries per bucket. -/
  loadFactor : Float
  /-- The length of a shortest chain. -/
  shortest : Nat
  /-- The length of a longest chain. -/
  longest : Nat

namespace Table

variable [Storage] {κ ν : Type}

/-- The lengths of the chains, bucket by bucket. -/
def chainLengths (t : Table κ ν) : List Nat := t.buckets.toList.map Bucket.length

/-- How the entries of a table are spread. -/
def occupancy (t : Table κ ν) : Occupancy where
  count := t.count
  capacity := t.capacity
  ceiling := t.ceiling
  loadFactor := t.loadFactor
  shortest := t.chainLengths.min?.getD 0
  longest := t.chainLengths.max?.getD 0

end Table

end BulkLookup
