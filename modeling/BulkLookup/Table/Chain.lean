import BulkLookup.Table.Growth

/-!
# Chains as lists

What the links of a table mean can be said with lists: a path from a link is the list of entries
met on the way, and it ends where an entry names no next one. A table is orderly when every bucket
heads a path, when the paths hold each entry of the arena once, in the bucket where its hash puts
it, and when hashes, counts and keys are as they should be. It is well formed when, besides, the
number of its buckets is a power of two; that matters only when it grows.

A path that ends cannot pass an entry twice, for it would then go on for ever; so orderly tables
need no condition to that effect.

## Main definitions

* `Arena.Path` — the handles met from a link to the end of its chain
* `Table.chain` — the handles in the chain of a bucket
* `Table.Orderly`, `Table.WellFormed` — the tables whose chains are in order, and those among them
  that may grow

## Main results

* `Arena.Path.unique`, `Arena.Path.nodup` — there is one path from a link, and it passes no entry
  twice
* `Arena.Path.isSome_get?` — every handle on a path names an entry
* `Arena.Path.follow_eq` — following links finds the path
* `Table.wellFormed_withCeiling` — an empty table is well formed
-/

namespace BulkLookup

variable [Storage] {κ ν : Type}

namespace Arena

/-- The handles met from a link to the end of its chain are those listed. -/
inductive Path (a : Arena (Entry κ ν)) : Option Handle → List Handle → Prop where
  | nil : Path a none []
  | cons {node : Handle} {e : Entry κ ν} {rest : List Handle} :
    a.get? node = some e → Path a e.next rest → Path a (some node) (node :: rest)

/-- The handles met from a link, up to `steps` of them. -/
def follow (a : Arena (Entry κ ν)) : (steps : Nat) → Option Handle → List Handle
  | _, none => []
  | 0, some _ => []
  | steps + 1, some node =>
    match a.get? node with
    | none => []
    | some e => node :: follow a steps e.next

namespace Path

variable {a : Arena (Entry κ ν)} {link : Option Handle} {nodes nodes' : List Handle}

/-- There is one path from a link. -/
theorem unique (h : a.Path link nodes) (h' : a.Path link nodes') : nodes = nodes' := by
  induction h generalizing nodes' with
  | nil => cases h'; rfl
  | cons hget _ ih =>
    cases h' with
    | cons hget' hrest' =>
      obtain rfl := Option.some.inj (hget.symm.trans hget')
      rw [ih hrest']

/-- From every handle on a path, the rest of the path is a path. -/
theorem of_append {before after : List Handle} {node : Handle}
    (h : a.Path link (before ++ node :: after)) : a.Path (some node) (node :: after) := by
  induction before generalizing link with
  | nil =>
    cases h with
    | cons hget hrest => exact .cons hget hrest
  | cons _ before ih =>
    cases h with
    | cons _ hrest => exact ih hrest

/-- A path passes no entry twice. -/
theorem nodup (h : a.Path link nodes) : nodes.Nodup := by
  induction h with
  | nil => exact .nil
  | @cons node e rest hget hrest ih =>
    refine List.nodup_cons.2 ⟨fun hmem => ?_, ih⟩
    obtain ⟨before, after, rfl⟩ := List.append_of_mem hmem
    have heq := hrest.of_append.unique (.cons hget hrest)
    have hlen := congrArg List.length heq
    simp only [List.length_cons, List.length_append] at hlen
    omega

/-- Every handle on a path names an entry. -/
theorem isSome_get? (h : a.Path link nodes) {node : Handle} (hmem : node ∈ nodes) :
    (a.get? node).isSome := by
  obtain ⟨before, after, rfl⟩ := List.append_of_mem hmem
  cases h.of_append with
  | cons hget _ => simp [hget]

/-- Following links finds the path, given steps enough. -/
theorem follow_eq (h : a.Path link nodes) {steps : Nat} (hsteps : nodes.length ≤ steps) :
    a.follow steps link = nodes := by
  induction h generalizing steps with
  | nil => cases steps <;> rfl
  | cons hget _ ih =>
    obtain ⟨steps, rfl⟩ := Nat.exists_eq_add_one_of_ne_zero (Nat.ne_zero_of_lt hsteps)
    simp only [follow, hget]
    rw [ih (Nat.le_of_succ_le_succ hsteps)]

end Path

end Arena

namespace Table

/-- The handles in the chain of a bucket, as many of them as the bucket counts. -/
def chain (t : Table κ ν) (i : Nat) : List Handle :=
  match t.buckets[i]? with
  | none => []
  | some b => t.arena.follow b.length b.first

/-- A table whose chains are in order. -/
structure Orderly [BEq κ] (t : Table κ ν) : Prop where
  capacity_pos : 0 < t.capacity
  /-- Every bucket heads its chain and counts the entries in it. -/
  path_chain : ∀ (i : Nat) (b : Bucket), t.buckets[i]? = some b →
    t.arena.Path b.first (t.chain i) ∧ b.length = (t.chain i).length
  /-- An entry is in the chain of a bucket exactly if its hash puts it there. -/
  mem_chain_iff : ∀ node e, t.arena.get? node = some e → ∀ i < t.capacity,
    (node ∈ t.chain i ↔ homeIndex t.capacity e.hash = i)
  /-- Every entry keeps the hash of its key. -/
  hash_eq : ∀ node e, t.arena.get? node = some e → e.hash = t.hasher e.key
  /-- No two entries mean the same key. -/
  node_eq : ∀ node node' e e', t.arena.get? node = some e → t.arena.get? node' = some e' →
    e.isFor e'.hash e'.key → node = node'

/-- An orderly table whose number of buckets is a power of two. -/
structure WellFormed [BEq κ] (t : Table κ ν) : Prop extends Orderly t where
  capacity_isPowerOfTwo : t.capacity.isPowerOfTwo

theorem capacity_withCeiling (hasher : κ → UInt64) (ceiling : Nat) :
    (withCeiling hasher ceiling : Table κ ν).capacity = min initialCapacity ceiling := by
  simp [withCeiling, capacity]

theorem isPowerOfTwo_capacity_withCeiling (hasher : κ → UInt64) {ceiling : Nat}
    (hceiling : ceiling.isPowerOfTwo) :
    (withCeiling hasher ceiling : Table κ ν).capacity.isPowerOfTwo := by
  obtain ⟨n, rfl⟩ := hceiling
  rw [capacity_withCeiling, initialCapacity]
  rcases Nat.lt_or_ge n 3 with h | h
  · have hle : 2 ^ n ≤ 2 ^ 3 := Nat.pow_le_pow_right Nat.two_pos (Nat.le_of_lt h)
    exact ⟨n, Nat.min_eq_right hle⟩
  · have hle : 2 ^ 3 ≤ 2 ^ n := Nat.pow_le_pow_right Nat.two_pos h
    exact ⟨3, Nat.min_eq_left hle⟩

/-- An empty table is well formed. -/
theorem wellFormed_withCeiling [BEq κ] (hasher : κ → UInt64) {ceiling : Nat}
    (hceiling : ceiling.isPowerOfTwo) : (withCeiling hasher ceiling : Table κ ν).WellFormed where
  capacity_pos := Nat.pos_of_isPowerOfTwo (isPowerOfTwo_capacity_withCeiling hasher hceiling)
  capacity_isPowerOfTwo := isPowerOfTwo_capacity_withCeiling hasher hceiling
  path_chain i b h := by
    obtain ⟨-, rfl⟩ : _ ∧ Bucket.empty = b := by
      simpa [withCeiling, Array.getElem?_replicate] using h
    simp [chain, h, Bucket.empty, Arena.follow, Arena.Path.nil]
  mem_chain_iff := by simp [withCeiling]
  hash_eq := by simp [withCeiling]
  node_eq := by simp [withCeiling]

end Table

end BulkLookup
