/-!
# Arenas

An arena keeps values and hands out a handle for each. Tables keep their entries in an arena, and
link them by handles; how the arena makes its handles, and where it puts the values, does not matter
to them. It is therefore a parameter here: whatever has the operations of `Storage` and keeps its
laws will do. The laws are what is documented of slot maps. An arena is known by what its handles
name; a new handle named nothing before, a change reaches no other handle than its own, and a handle
whose value was taken out names nothing. The handles that name something can be listed, and there
are as many of them as there are values. There is always room for one more value: that a slot map
stops at about four thousand million of them is left out.

## Main definitions

* `Storage` — a kind of arena: its operations, and the laws that they keep
* `Handle`, `Arena` — the names of values, and the arenas themselves
* `Arena.get?`, `Arena.handles`, `Arena.size` — what is there
* `Arena.empty`, `Arena.insert`, `Arena.modify`, `Arena.remove` — the changes
-/

namespace BulkLookup

/-- A kind of arena. -/
class Storage where
  /-- Names a value of an arena. -/
  Handle : Type
  /-- Values of one type, each behind a handle. -/
  Arena : Type → Type
  [decidableEq : DecidableEq Handle]
  /-- A handle for where none is known. It need not name anything. -/
  [inhabited : Inhabited Handle]
  empty {α : Type} : Arena α
  get? {α : Type} : Arena α → Handle → Option α
  insert {α : Type} : Arena α → α → Handle × Arena α
  modify {α : Type} : Arena α → Handle → (α → α) → Arena α
  remove {α : Type} : Arena α → Handle → Option α × Arena α
  size {α : Type} : Arena α → Nat
  handles {α : Type} : Arena α → List Handle
  get?_empty {α : Type} (h : Handle) : get? (empty : Arena α) h = none
  /-- A new handle named nothing before. -/
  get?_insert_fresh {α : Type} (a : Arena α) (value : α) : get? a (insert a value).1 = none
  /-- A new handle names the value stored, and all others name what they named before. -/
  get?_insert {α : Type} (a : Arena α) (value : α) (h : Handle) :
    get? (insert a value).2 h = if h = (insert a value).1 then some value else get? a h
  /-- A change through a handle is a change of what that handle names, and of nothing else. -/
  get?_modify {α : Type} (a : Arena α) (h k : Handle) (f : α → α) :
    get? (modify a h f) k = if k = h then (get? a k).map f else get? a k
  /-- What is taken out is what the handle named. -/
  fst_remove {α : Type} (a : Arena α) (h : Handle) : (remove a h).1 = get? a h
  /-- The handle of a value that was taken out names nothing; no other handle changes. -/
  get?_remove {α : Type} (a : Arena α) (h k : Handle) :
    get? (remove a h).2 k = if k = h then none else get? a k
  /-- The handles listed are those that name something. -/
  mem_handles_iff {α : Type} (a : Arena α) (h : Handle) :
    h ∈ handles a ↔ (get? a h).isSome = true
  nodup_handles {α : Type} (a : Arena α) : (handles a).Nodup
  length_handles {α : Type} (a : Arena α) : (handles a).length = size a

variable [Storage]

/-- Names a value of an arena. -/
abbrev Handle : Type := Storage.Handle

instance : DecidableEq Handle := Storage.decidableEq

instance : Inhabited Handle := Storage.inhabited

/-- Values of one type, each behind a handle. -/
abbrev Arena (α : Type) : Type := Storage.Arena α

namespace Arena

variable {α : Type}

/-- An arena without values. -/
def empty : Arena α := Storage.empty

/-- The value that a handle names, if it names one. -/
def get? (a : Arena α) (h : Handle) : Option α := Storage.get? a h

/-- Stores a value, and makes a handle for it. -/
def insert (a : Arena α) (value : α) : Handle × Arena α := Storage.insert a value

/-- Changes the value that a handle names, if it names one. -/
def modify (a : Arena α) (h : Handle) (f : α → α) : Arena α := Storage.modify a h f

/-- Takes the value that a handle names out, if it names one. -/
def remove (a : Arena α) (h : Handle) : Option α × Arena α := Storage.remove a h

/-- How many values an arena holds. -/
def size (a : Arena α) : Nat := Storage.size a

/-- The handles that name a value. -/
def handles (a : Arena α) : List Handle := Storage.handles a

end Arena

end BulkLookup
