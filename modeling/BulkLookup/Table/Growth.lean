import BulkLookup.Table.Search

/-!
# Growth

A table grows by doubling its buckets as long as it holds more than half as many entries as it has
buckets. At its ceiling it goes on without growing, and says so when it first gets too full.

Moving to another number of buckets creates no entry and copies none. The old chains are read bucket
by bucket, each from its head, and every entry met is cut off and hung behind the last entry that
its new chain has so far. Hence entries that come together again keep their order. It is a fault to
meet a link that leads to no entry, or a chain that is longer than there are entries.

## Main definitions

* `Relinking` — the state of a move: the arena, the new buckets and the ends of the new chains
* `Relinking.append`, `Relinking.tryAppend` — the move of one entry, and the same where it may be
  missing
* `Table.resize` — the move to a given number of buckets
* `Table.grow` — the doublings that are due, with their events

## Main results

* `Table.capacity_resize`, `Table.ceiling_resize` — a move gives the number of buckets asked for
  and leaves the ceiling alone
-/

namespace BulkLookup

variable [Storage]

/-- The state of a move to new buckets. -/
structure Relinking (κ ν : Type) where
  arena : Arena (Entry κ ν)
  buckets : Array Bucket
  /-- The last entry that each new chain has so far. -/
  tails : Array (Option Handle)

namespace Relinking

variable {κ ν : Type}

/-- A move to `capacity` buckets in which no entry was moved yet. -/
def start (arena : Arena (Entry κ ν)) (capacity : Nat) : Relinking κ ν :=
  ⟨arena, Array.replicate capacity .empty, Array.replicate capacity none⟩

/-- The last entry, so far, of the new chain of a hash. -/
def tailOf (r : Relinking κ ν) (hash : UInt64) : Option Handle :=
  r.tails[homeIndex r.buckets.size hash]?.join

/-- Cuts an entry off its old chain and hangs it behind the new chain of its hash. -/
def append : Relinking κ ν → (node : Handle) → (hash : UInt64) → Relinking κ ν
  | ⟨arena, buckets, tails⟩, node, hash =>
    let index := homeIndex buckets.size hash
    -- The link into the old chain goes first; the caller has read it already.
    let arena := arena.modify node fun e => { e with next := none }
    match tails[index]?.join with
    | some last =>
      let arena := arena.modify last fun e => { e with next := some node }
      let buckets := buckets.modify index fun b => { b with length := b.length + 1 }
      ⟨arena, buckets, tails.setIfInBounds index (some node)⟩
    | none =>
      let buckets := buckets.modify index fun b => ⟨some node, b.length + 1⟩
      ⟨arena, buckets, tails.setIfInBounds index (some node)⟩

/-- Moves an entry. Its new bucket has to be there, and so have the entry and the last one of its
new chain. -/
def tryAppend (r : Relinking κ ν) (node : Handle) (hash : UInt64) :
    Except Fault (Relinking κ ν) :=
  let index := homeIndex r.buckets.size hash
  if index < r.buckets.size ∧ index < r.tails.size ∧ (r.arena.get? node).isSome ∧
      (r.tailOf hash).all fun last => (r.arena.get? last).isSome then
    .ok (r.append node hash)
  else .error .brokenChain

/-- Moves the entries of an old chain that goes on at `link`, at most `steps` of them. It is a fault
if the chain goes on behind them, or if a link leads to no entry. -/
def appendChain : (steps : Nat) → Relinking κ ν → (link : Option Handle) →
    Except Fault (Relinking κ ν)
  | _, r, none => .ok r
  | 0, _, some _ => .error .brokenChain
  | steps + 1, r, some node =>
    match r.arena.get? node with
    | none => .error .brokenChain
    | some e => (r.tryAppend node e.hash).bind fun r => appendChain steps r e.next

/-- Moves the entries of old buckets, each chain from its head, at most `steps` entries of a
chain. -/
def appendBuckets (steps : Nat) (r : Relinking κ ν) (old : Array Bucket) :
    Except Fault (Relinking κ ν) :=
  old.foldlM (fun r bucket => r.appendChain steps bucket.first) r

variable {r r' : Relinking κ ν} {steps : Nat}

theorem size_buckets_append (r : Relinking κ ν) (node : Handle) (hash : UInt64) :
    (r.append node hash).buckets.size = r.buckets.size := by
  obtain ⟨arena, buckets, tails⟩ := r
  simp only [append]
  split <;> simp

theorem tryAppend_eq_ok {node : Handle} {hash : UInt64} (h : r.tryAppend node hash = .ok r') :
    r.append node hash = r' := by
  simp only [tryAppend] at h
  split at h
  · exact Except.ok.inj h
  · cases h

theorem size_buckets_appendChain {link : Option Handle}
    (h : r.appendChain steps link = .ok r') : r'.buckets.size = r.buckets.size := by
  induction steps generalizing r link with
  | zero =>
    cases link with
    | none => rw [Except.ok.inj h]
    | some node => cases h
  | succ steps ih =>
    cases link with
    | none => rw [Except.ok.inj h]
    | some node =>
      cases hget : r.arena.get? node with
      | none => simp [appendChain, hget] at h
      | some e =>
        simp only [appendChain, hget] at h
        obtain ⟨r₁, happend, hrest⟩ := Except.bind_eq_ok.1 h
        rw [ih hrest, ← tryAppend_eq_ok happend, size_buckets_append]

theorem size_buckets_appendBuckets {old : Array Bucket}
    (h : r.appendBuckets steps old = .ok r') : r'.buckets.size = r.buckets.size := by
  obtain ⟨old⟩ := old
  simp only [appendBuckets, List.foldlM_toArray'] at h
  induction old generalizing r with
  | nil => rw [Except.ok.inj h]
  | cons bucket old ih =>
    rw [List.foldlM_cons] at h
    obtain ⟨r₁, hchain, hrest⟩ := Except.bind_eq_ok.1 h
    rw [ih hrest, size_buckets_appendChain hchain]

end Relinking

namespace Table

variable {κ ν : Type}

/-- Moves a table to `capacity` buckets. -/
def resize : Table κ ν → (capacity : Nat) → Except Fault (Table κ ν)
  | ⟨hasher, buckets, arena, ceiling⟩, capacity =>
    ((Relinking.start arena capacity).appendBuckets arena.size buckets).map fun moved =>
      ⟨hasher, moved.buckets, moved.arena, ceiling⟩

variable {t moved : Table κ ν} {capacity : Nat}

theorem resize_eq_ok : t.resize capacity = .ok moved ↔
    ∃ r, (Relinking.start t.arena capacity).appendBuckets t.count t.buckets = .ok r ∧
      ⟨t.hasher, r.buckets, r.arena, t.ceiling⟩ = moved :=
  Except.map_eq_ok

theorem capacity_resize (h : t.resize capacity = .ok moved) : moved.capacity = capacity := by
  obtain ⟨r, hr, rfl⟩ := resize_eq_ok.1 h
  rw [Table.capacity, Relinking.size_buckets_appendBuckets hr, Relinking.start,
    Array.size_replicate]

theorem ceiling_resize (h : t.resize capacity = .ok moved) : moved.ceiling = t.ceiling := by
  obtain ⟨r, -, rfl⟩ := resize_eq_ok.1 h
  rfl

theorem hasher_resize (h : t.resize capacity = .ok moved) : moved.hasher = t.hasher := by
  obtain ⟨r, -, rfl⟩ := resize_eq_ok.1 h
  rfl

/-- Whether a table holds more than half as many entries as it has buckets. The numbers are compared
as they are; below `2 ^ 53` entries it comes to the same to compare `loadFactor` with `fullLoad`. -/
def isOverloaded (t : Table κ ν) : Bool := t.capacity < 2 * t.count

/-- Doubles the buckets as long as the table is overloaded and its ceiling allows it. A table that
its ceiling keeps overloaded reports this when it was not overloaded before its latest entry. -/
def grow (t : Table κ ν) : Except Fault (Table κ ν × Array Event) :=
  let items := t.count
  let capacity := t.capacity
  if t.isOverloaded then
    -- Without buckets there is nothing to double; no table gets there.
    if _h : 0 < t.capacity ∧ 2 * t.capacity ≤ t.ceiling then
      match _hmoved : t.resize (2 * capacity) with
      | .error fault => .error fault
      | .ok moved =>
        (grow moved).map fun (grown, events) =>
          (grown, #[.resized capacity (2 * capacity) items] ++ events)
    else if 2 * (items - 1) ≤ capacity then .ok (t, #[.ceilingReached capacity items])
    else .ok (t, #[])
  else .ok (t, #[])
termination_by t.ceiling - t.capacity
decreasing_by
  rw [capacity_resize _hmoved, ceiling_resize _hmoved]
  omega

end Table

end BulkLookup
