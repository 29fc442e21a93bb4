import BulkLookup.Table.Growth

/-!
# Operations on tables

The operations by which a table is used. To insert is to store a pair unless its key is there; to
update is to store it in any case, overwriting the value that is there but keeping the stored key.
Both tell where the entry is, so that its value can still be changed, and both make the table grow
when an entry was added. The other operations never change the number of buckets.

In a table whose links are damaged, an operation may end in a fault: `Table.tryInsert` and the
others of its kind say so. Nothing that is done with a table damages its links, and so each
operation also has a plain form, which is used where a table is known to be in order. What it would
come to for a table that is not does not matter.

## Main definitions

* `Placement`, `Insertion`, `Update` — what inserting and updating come to
* `Table.tryInsert`, `Table.tryUpdate`, `Table.tryRemove` — the changes
* `Table.find?`, `Table.tryLookup`, `Table.tryContains` — the questions
* `Table.tryModify`, `Placement.tryModifyValue`, `Placement.stored?` — changing a value in place,
  and reading what is there
* `Table.insert`, `Table.update`, `Table.remove`, `Table.lookup`, `Table.contains`, `Table.modify`,
  `Placement.modifyValue` — the plain forms
-/

namespace BulkLookup

variable [Storage]

/-- Where a pair is after it was stored, or was found stored: the table, the entry in it and the
pair that the entry holds, together with the events on the way. -/
structure Placement (κ ν : Type) where
  table : Table κ ν
  node : Handle
  key : κ
  value : ν
  events : Array Event

namespace Placement

variable {κ ν : Type}

/-- Changes the value where it is stored. -/
def tryModifyValue : Placement κ ν → (ν → ν) → Except Fault (Placement κ ν)
  | ⟨table, node, key, value, events⟩, f =>
    (table.tryModifyValue node f).map fun table => ⟨table, node, key, f value, events⟩

/-- The plain form of `tryModifyValue`. -/
def modifyValue : Placement κ ν → (ν → ν) → Placement κ ν
  | ⟨table, node, key, value, events⟩, f =>
    ⟨table.modifyValue node f, node, key, f value, events⟩

/-- The pair that the table holds at the place. -/
def stored? (p : Placement κ ν) : Option (κ × ν) :=
  (p.table.arena.get? p.node).map fun e => (e.key, e.value)

end Placement

/-- What inserting a pair comes to. -/
structure Insertion (κ ν : Type) extends Placement κ ν where
  /-- Whether the pair was stored; if not, its key was there, and the pair there is told. -/
  inserted : Bool

/-- What updating a pair comes to. -/
structure Update (κ ν : Type) extends Placement κ ν where
  /-- The value that was overwritten, if the key was there. -/
  previous : Option ν

namespace Table

variable {κ ν : Type}

/-- Adds an entry behind `tail`, where a search for its key ended, and lets the table grow. -/
def place (t : Table κ ν) (hash : UInt64) (tail : Option Handle) (key : κ) (value : ν) :
    Except Fault (Placement κ ν) := do
  let (node, attached) ← t.tryAttach hash tail key value
  let (grown, events) ← attached.grow
  return ⟨grown, node, key, value, events⟩

variable [BEq κ]

/-- Stores a pair unless its key is there. -/
def tryInsert (t : Table κ ν) (key : κ) (value : ν) : Except Fault (Insertion κ ν) := do
  let hash := t.hasher key
  match ← t.search hash key with
  | .found _ node e => return ⟨⟨t, node, e.key, e.value, #[]⟩, false⟩
  | .missing tail => return ⟨← t.place hash tail key value, true⟩

/-- Stores a pair, overwriting the value if its key is there. -/
def tryUpdate (t : Table κ ν) (key : κ) (value : ν) : Except Fault (Update κ ν) := do
  let hash := t.hasher key
  match ← t.search hash key with
  | .found _ node e =>
    let updated ← t.tryModifyValue node fun _ => value
    return ⟨⟨updated, node, e.key, value, #[]⟩, some e.value⟩
  | .missing tail => return ⟨← t.place hash tail key value, none⟩

/-- Takes the pair of a key out, if it is there. -/
def tryRemove (t : Table κ ν) (key : κ) : Except Fault (Option (κ × ν) × Table κ ν) := do
  match ← t.search (t.hasher key) key with
  | .found before node e => return (some (e.key, e.value), ← t.tryDetach before node e)
  | .missing _ => return (none, t)

/-- The entry of a key, and the handle behind which it is. -/
def find? (t : Table κ ν) (key : κ) : Except Fault (Option (Handle × Entry κ ν)) := do
  match ← t.search (t.hasher key) key with
  | .found _ node e => return some (node, e)
  | .missing _ => return none

/-- The stored pair of a key. -/
def tryLookup (t : Table κ ν) (key : κ) : Except Fault (Option (κ × ν)) :=
  (t.find? key).map fun found => found.map fun (_, e) => (e.key, e.value)

/-- Whether a key is there. -/
def tryContains (t : Table κ ν) (key : κ) : Except Fault Bool := (t.find? key).map Option.isSome

/-- Changes the value of a key in place, and tells the value it has then. -/
def tryModify (t : Table κ ν) (key : κ) (f : ν → ν) : Except Fault (Option ν × Table κ ν) := do
  match ← t.find? key with
  | some (node, e) => return (some (f e.value), ← t.tryModifyValue node f)
  | none => return (none, t)

/-! ### Plain forms -/

/-- The plain form of `tryInsert`. -/
def insert (t : Table κ ν) (key : κ) (value : ν) : Insertion κ ν :=
  (t.tryInsert key value).toOption.getD ⟨⟨default, default, key, value, #[]⟩, false⟩

/-- The plain form of `tryUpdate`. -/
def update (t : Table κ ν) (key : κ) (value : ν) : Update κ ν :=
  (t.tryUpdate key value).toOption.getD ⟨⟨default, default, key, value, #[]⟩, none⟩

/-- The plain form of `tryRemove`. -/
def remove (t : Table κ ν) (key : κ) : Option (κ × ν) × Table κ ν :=
  (t.tryRemove key).toOption.getD (none, default)

/-- The plain form of `tryLookup`. -/
def lookup (t : Table κ ν) (key : κ) : Option (κ × ν) := (t.tryLookup key).toOption.getD none

/-- The plain form of `tryContains`. -/
def contains (t : Table κ ν) (key : κ) : Bool := (t.tryContains key).toOption.getD false

/-- The plain form of `tryModify`. -/
def modify (t : Table κ ν) (key : κ) (f : ν → ν) : Option ν × Table κ ν :=
  (t.tryModify key f).toOption.getD (none, default)

end Table

end BulkLookup
