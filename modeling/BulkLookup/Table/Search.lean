import BulkLookup.Table.Basic

/-!
# Searching and linking chains

One walk serves every operation on a table. `Table.search` follows the chain to which a hash leads
and stops at the entry it looks for, or at the end of the chain; in both cases it remembers the
entry just before, for that is where the chain is cut or continued. `Table.attach` adds an entry at
the end of a chain, `Table.detach` takes one out of a chain, and `Table.modifyValue` changes one
where it is.

In a table whose links are damaged, a walk could meet a link that leads to no entry, or go round for
ever. It counts the entries it reads, and it is a fault to read more than there are; no chain of a
well-formed table is longer. The three changes take the entries that they write to for granted;
`Table.tryAttach`, `Table.tryDetach` and `Table.tryModifyValue` look first, and it is a fault if one
is missing.

## Main definitions

* `SearchEnd` — where a search ended
* `Table.searchWithin`, `Table.search` — the search
* `Table.attach`, `Table.detach`, `Table.modifyValue` — the changes to chains
* `Table.tryAttach`, `Table.tryDetach`, `Table.tryModifyValue` — the same, where the entries may be
  missing

## Main results

* `Table.count_attach`, `Table.count_detach` — one entry more, one entry less
-/

namespace BulkLookup

variable [Storage]

/-- Where a search along a chain ended. -/
inductive SearchEnd (κ ν : Type) where
  /-- At the entry `entry` behind the handle `node`, which follows `before` in the chain. -/
  | found (before : Option Handle) (node : Handle) (entry : Entry κ ν)
  /-- At the end of the chain, whose last entry is `tail`. -/
  | missing (tail : Option Handle)

/-- Whether an entry is the one that a key and its hash mean. -/
def Entry.isFor {κ ν : Type} [BEq κ] (e : Entry κ ν) (hash : UInt64) (key : κ) :
    Bool :=
  e.hash == hash && e.key == key

namespace Table

variable {κ ν : Type}

section Search

variable [BEq κ]

/-- Searches the chain that goes on at `link` after the entry `before`, reading at most `steps`
entries. It is a fault if the chain goes on behind them, or if a link leads to no entry. -/
def searchWithin (t : Table κ ν) (hash : UInt64) (key : κ) :
    (steps : Nat) → (before link : Option Handle) → Except Fault (SearchEnd κ ν)
  | _, before, none => .ok (.missing before)
  | 0, _, some _ => .error .brokenChain
  | steps + 1, before, some node =>
    match t.arena.get? node with
    | none => .error .brokenChain
    | some e =>
      if e.isFor hash key then .ok (.found before node e)
      else searchWithin t hash key steps (some node) e.next

/-- Searches the chain to which a hash leads. -/
def search (t : Table κ ν) (hash : UInt64) (key : κ) : Except Fault (SearchEnd κ ν) :=
  t.searchWithin hash key t.count none (t.headOf hash)

end Search

/-- Stores a pair in a new entry, behind the entry `tail` that ends the chain of its hash, or as
the first of that chain if there is none. -/
def attach : Table κ ν → (hash : UInt64) → (tail : Option Handle) → κ → ν → Handle × Table κ ν
  | ⟨hasher, buckets, arena, ceiling⟩, hash, tail, key, value =>
    let index := homeIndex buckets.size hash
    let (node, arena) := arena.insert ⟨key, value, hash, none⟩
    match tail with
    | some last =>
      let arena := arena.modify last fun e => { e with next := some node }
      let buckets := buckets.modify index fun b => { b with length := b.length + 1 }
      (node, ⟨hasher, buckets, arena, ceiling⟩)
    | none =>
      let buckets := buckets.modify index fun b => ⟨some node, b.length + 1⟩
      (node, ⟨hasher, buckets, arena, ceiling⟩)

/-- Attaches an entry behind `tail`, which has to be there if it is not none. -/
def tryAttach (t : Table κ ν) (hash : UInt64) (tail : Option Handle) (key : κ) (value : ν) :
    Except Fault (Handle × Table κ ν) :=
  if tail.all fun last => (t.arena.get? last).isSome then .ok (t.attach hash tail key value)
  else .error .brokenChain

/-- Takes the entry behind `node`, which follows `before` in its chain, out of the chain and out
of the table. -/
def detach : Table κ ν → (before : Option Handle) → (node : Handle) → Entry κ ν → Table κ ν
  | ⟨hasher, buckets, arena, ceiling⟩, before, node, entry =>
    let index := homeIndex buckets.size entry.hash
    let arena := (arena.remove node).2
    -- Whatever led to the entry now leads to the one after it.
    match before with
    | some previous =>
      let arena := arena.modify previous fun e => { e with next := entry.next }
      let buckets := buckets.modify index fun b => { b with length := b.length - 1 }
      ⟨hasher, buckets, arena, ceiling⟩
    | none =>
      let buckets := buckets.modify index fun b => ⟨entry.next, b.length - 1⟩
      ⟨hasher, buckets, arena, ceiling⟩

/-- Detaches an entry, which has to be there, and so has the one before it. -/
def tryDetach (t : Table κ ν) (before : Option Handle) (node : Handle) (entry : Entry κ ν) :
    Except Fault (Table κ ν) :=
  if (t.arena.get? node).isSome ∧
      before.all fun previous => previous ≠ node ∧ (t.arena.get? previous).isSome then
    .ok (t.detach before node entry)
  else .error .brokenChain

/-- Changes the value of an entry in place. -/
def modifyValue : Table κ ν → Handle → (ν → ν) → Table κ ν
  | ⟨hasher, buckets, arena, ceiling⟩, node, f =>
    ⟨hasher, buckets, arena.modify node fun e => { e with value := f e.value }, ceiling⟩

/-- Changes the value of an entry, which has to be there. -/
def tryModifyValue (t : Table κ ν) (node : Handle) (f : ν → ν) : Except Fault (Table κ ν) :=
  if (t.arena.get? node).isSome then .ok (t.modifyValue node f) else .error .brokenChain

/-! ### Counts after a change -/

@[simp] theorem capacity_attach (t : Table κ ν) (hash : UInt64) (tail : Option Handle) (key : κ)
    (value : ν) : (t.attach hash tail key value).2.capacity = t.capacity := by
  obtain ⟨hasher, buckets, arena, ceiling⟩ := t
  cases tail <;> simp [attach, capacity]

@[simp] theorem ceiling_attach (t : Table κ ν) (hash : UInt64) (tail : Option Handle) (key : κ)
    (value : ν) : (t.attach hash tail key value).2.ceiling = t.ceiling := by
  obtain ⟨hasher, buckets, arena, ceiling⟩ := t
  cases tail <;> rfl

@[simp] theorem count_attach (t : Table κ ν) (hash : UInt64) (tail : Option Handle) (key : κ)
    (value : ν) : (t.attach hash tail key value).2.count = t.count + 1 := by
  obtain ⟨hasher, buckets, arena, ceiling⟩ := t
  cases tail <;> simp [attach, count]

@[simp] theorem capacity_detach (t : Table κ ν) (before : Option Handle) (node : Handle)
    (e : Entry κ ν) : (t.detach before node e).capacity = t.capacity := by
  obtain ⟨hasher, buckets, arena, ceiling⟩ := t
  cases before <;> simp [detach, capacity]

@[simp] theorem ceiling_detach (t : Table κ ν) (before : Option Handle) (node : Handle)
    (e : Entry κ ν) : (t.detach before node e).ceiling = t.ceiling := by
  obtain ⟨hasher, buckets, arena, ceiling⟩ := t
  cases before <;> rfl

/-- An entry that is there and is taken out of its chain leaves the table with one entry less. -/
theorem count_detach {t : Table κ ν} {before : Option Handle} {node : Handle} {e : Entry κ ν}
    (h : t.arena.get? node = some e) : (t.detach before node e).count + 1 = t.count := by
  obtain ⟨hasher, buckets, arena, ceiling⟩ := t
  cases before <;> simp [detach, count, Arena.size_remove h]

@[simp] theorem capacity_modifyValue (t : Table κ ν) (node : Handle) (f : ν → ν) :
    (t.modifyValue node f).capacity = t.capacity := rfl

@[simp] theorem ceiling_modifyValue (t : Table κ ν) (node : Handle) (f : ν → ν) :
    (t.modifyValue node f).ceiling = t.ceiling := rfl

@[simp] theorem count_modifyValue (t : Table κ ν) (node : Handle) (f : ν → ν) :
    (t.modifyValue node f).count = t.count :=
  t.arena.size_modify node _

end Table

end BulkLookup
