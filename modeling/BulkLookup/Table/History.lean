import BulkLookup.Lookup.Bulk

/-!
# Histories of a table

What was done to a table is a list of operations. Performing an operation gives a response, or a
fault if it meets damaged links, and leaves a table and events behind; a history is performed
operation by operation.

## Main definitions

* `Operation`, `Response` — what can be done, and what comes back
* `Table.tryPerform`, `Table.perform` — one operation
* `Table.run` — a history
-/

namespace BulkLookup

/-- What can be done with a table. -/
inductive Operation (κ ν : Type) where
  /-- Inserts a pair, and changes the value that is there then. -/
  | insert (key : κ) (value : ν) (change : ν → ν)
  /-- Updates a pair, and changes the value that is there then. -/
  | update (key : κ) (value : ν) (change : ν → ν)
  | remove (key : κ)
  | lookup (key : κ)
  | contains (key : κ)
  /-- Changes the value of a key in place. -/
  | modify (key : κ) (change : ν → ν)
  | count
  | lookupAll (keys : List κ)

/-- What an operation answers. -/
inductive Response (κ ν : Type) where
  /-- Whether a pair was inserted, the pair stored before the change of its value, and after it. -/
  | inserted (isNew : Bool) (stored : κ × ν) (after : Option (κ × ν))
  /-- The value overwritten, the pair stored before the change of its value, and after it. -/
  | updated (previous : Option ν) (stored : κ × ν) (after : Option (κ × ν))
  | removed (pair : Option (κ × ν))
  | found (pair : Option (κ × ν))
  | contained (isThere : Bool)
  /-- The value after the change, if the key is there. -/
  | modified (value : Option ν)
  | counted (count : Nat)
  | answered (findings : List (Finding κ ν))

variable [Storage]

/-- An operation performed: its response or the fault that ended it, the table afterwards and the
events on the way. -/
structure Performed (κ ν : Type) where
  response : Except Fault (Response κ ν)
  table : Table κ ν
  events : Array Event

namespace Table

variable {κ ν : Type} [BEq κ]

/-- The response to an operation, the table afterwards and the events on the way. -/
def tryPerform (t : Table κ ν) :
    Operation κ ν → Except Fault (Response κ ν × Table κ ν × Array Event)
  | .insert key value change => do
    let i ← t.tryInsert key value
    let p ← i.toPlacement.tryModifyValue change
    return (.inserted i.inserted (i.key, i.value) p.stored?, p.table, p.events)
  | .update key value change => do
    let u ← t.tryUpdate key value
    let p ← u.toPlacement.tryModifyValue change
    return (.updated u.previous (u.key, u.value) p.stored?, p.table, p.events)
  | .remove key => do
    let (pair, t) ← t.tryRemove key
    return (.removed pair, t, #[])
  | .lookup key => do return (.found (← t.tryLookup key), t, #[])
  | .contains key => do return (.contained (← t.tryContains key), t, #[])
  | .modify key change => do
    let (value, t) ← t.tryModify key change
    return (.modified value, t, #[])
  | .count => return (.counted t.count, t, #[])
  | .lookupAll keys => do return (.answered (← t.tryLookupAll keys), t, #[])

/-- Performs one operation. If it ends in a fault, the table is left as it was. -/
def perform (t : Table κ ν) (operation : Operation κ ν) : Performed κ ν :=
  match t.tryPerform operation with
  | .ok (response, table, events) => ⟨.ok response, table, events⟩
  | .error fault => ⟨.error fault, t, #[]⟩

/-- The table after a history. -/
def run (t : Table κ ν) (history : List (Operation κ ν)) : Table κ ν :=
  history.foldl (fun t operation => (t.perform operation).table) t

/-- The responses to the operations of a history, or the faults that ended them. -/
def responses (t : Table κ ν) : List (Operation κ ν) → List (Except Fault (Response κ ν))
  | [] => []
  | operation :: history =>
    let performed := t.perform operation
    performed.response :: performed.table.responses history

/-- A table that came about by some history from an empty one. -/
def IsReachable (t : Table κ ν) : Prop :=
  ∃ hasher history, t = (unbounded hasher).run history ∨
    ∃ most empty, bounded hasher most = .ok empty ∧ t = empty.run history

end Table

end BulkLookup
