import BulkLookup.Text.Described
import BulkLookup.Arena.Slots
import BulkLookup.Hashing
import BulkLookup.Lookup.Bulk
import BulkLookup.Table.Occupancy
import BulkLookup.Work.Ring

/-!
# Descriptions of tables, lookups and queues

The texts under which the results of table operations, the answers of bulk lookups, the occupancy
of a table and a ring are shown.

## Main definitions

* `describeEntry`, `describeRemoved` — the text of a stored pair, and of one that was taken out
* instances of `Described` for the other results
-/

namespace BulkLookup

universe u

/-- A tagged key is shown in full and without quotes. -/
instance : Described TaggedKey where
  describe key := describe key.digest ++ ":" ++ key.name ++ "/" ++ key.tag

instance {τ : Type u} : Described (Ring τ) where
  describe r :=
    record "RingScheduler" [("len", describe r.length), ("capacity", describe r.capacity)]

instance : Described Occupancy where
  describe o := record "MapStats" [
    ("count", describe o.count),
    ("capacity", describe o.capacity),
    ("max_capacity", describe o.ceiling),
    ("load_factor", describe o.loadFactor),
    ("min_bucket_depth", describe o.shortest),
    ("max_bucket_depth", describe o.longest),
    ("avg_bucket_depth", describe o.loadFactor)]

variable [Storage] {κ ν : Type} [Described κ] [Described ν]

/-- A stored pair. -/
def describeEntry (entry : κ × ν) : String :=
  application "EntryRef" [describe entry.1, describe entry.2]

/-- What a lookup found. -/
def describeFound (entry : Option (κ × ν)) : String :=
  match entry with
  | none => "None"
  | some entry => application "Some" [describeEntry entry]

/-- A pair that was taken out of a table. -/
def describeRemoved (entry : κ × ν) : String :=
  record "Removed" [("key", describe entry.1), ("value", describe entry.2)]

instance : Described (Insertion κ ν) where
  describe i := record "InsertResult" [
    ("key", describe i.key), ("value", describe i.value), ("inserted", describe i.inserted)]

instance : Described (Update κ ν) where
  describe u := record "UpdateResult" [
    ("key", describe u.key), ("value", describe u.value), ("previous", describe u.previous)]

instance : Described (Finding κ ν) where
  describe f := record "Lookup" [("key", describe f.query), ("value", describe f.value)]

end BulkLookup
