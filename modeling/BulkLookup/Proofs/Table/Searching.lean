import BulkLookup.Proofs.Table.Path

/-!
# Searches in orderly tables

A search reads a single chain, and yet it decides whether any entry of the table is the one that a
key and its hash mean: in an orderly table such an entry can be in no other chain. It stops at
that entry, or at the end of the chain, and it always gets there.

## Main results

* `Table.Orderly.path_headOf` — a hash leads to the chain of its bucket
* `Table.Orderly.length_chain_le` — no chain is longer than the table has entries
* `Table.Orderly.exists_search` — a search reads only entries that are there, and ends
* `Table.Orderly.search_cases` — what a search finds, and where
* `Table.Orderly.search_eq_found`, `Table.Orderly.search_eq_missing` — the one entry that is meant
  is where a search ends
-/

namespace BulkLookup

variable [Storage] {κ ν : Type}

theorem Entry.isFor_iff [BEq κ] {e : Entry κ ν} {hash : UInt64} {key : κ} :
    e.isFor hash key = true ↔ e.hash = hash ∧ (e.key == key) = true := by
  rw [Entry.isFor, Bool.and_eq_true, beq_iff_eq]

/-- What an entry is for is told by its key and its hash. -/
theorem Entry.isFor_congr [BEq κ] {e e' : Entry κ ν} (hkey : e'.key = e.key)
    (hhash : e'.hash = e.hash) (hash : UInt64) (key : κ) :
    e'.isFor hash key = e.isFor hash key := by
  rw [isFor, isFor, hkey, hhash]

theorem Entry.isFor_symm [BEq κ] [PartialEquivBEq κ] {e e' : Entry κ ν}
    (hfor : e.isFor e'.hash e'.key = true) : e'.isFor e.hash e.key = true := by
  obtain ⟨hhash, hkey⟩ := isFor_iff.1 hfor
  exact isFor_iff.2 ⟨hhash.symm, BEq.symm hkey⟩

/-- Of two entries for the same key, each is for the key of the other. -/
theorem Entry.isFor_of_isFor [BEq κ] [PartialEquivBEq κ] {e e' : Entry κ ν} {hash : UInt64}
    {key : κ} (hfor : e.isFor hash key = true) (hfor' : e'.isFor hash key = true) :
    e.isFor e'.hash e'.key = true := by
  obtain ⟨hhash, hkey⟩ := isFor_iff.1 hfor
  obtain ⟨hhash', hkey'⟩ := isFor_iff.1 hfor'
  exact isFor_iff.2 ⟨hhash.trans hhash'.symm, BEq.trans hkey (BEq.symm hkey')⟩

namespace Table

variable {t : Table κ ν} {i : Nat}

/-! ### Chains and buckets -/

/-- The path that a bucket heads is its chain, if the bucket counts the entries on it. -/
theorem chain_eq_of_path {b : Bucket} {nodes : List Handle} (hb : t.buckets[i]? = some b)
    (hpath : t.arena.Path b.first nodes) (hlength : b.length = nodes.length) :
    t.chain i = nodes := by
  rw [chain, hb]
  exact hpath.follow_eq (Nat.le_of_eq hlength.symm)

theorem exists_bucket (hi : i < t.capacity) : ∃ b, t.buckets[i]? = some b :=
  ⟨t.buckets[i], Array.getElem?_eq_getElem hi⟩

theorem headOf_eq {b : Bucket} {hash : UInt64}
    (hb : t.buckets[homeIndex t.capacity hash]? = some b) : t.headOf hash = b.first := by
  rw [headOf, hb]
  rfl

namespace Orderly

variable [BEq κ]

theorem homeIndex_lt_capacity (ht : t.Orderly) (hash : UInt64) :
    homeIndex t.capacity hash < t.capacity :=
  homeIndex_lt ht.capacity_pos hash

theorem isSome_get?_of_mem (ht : t.Orderly) {node : Handle} (hi : i < t.capacity)
    (hmem : node ∈ t.chain i) : (t.arena.get? node).isSome := by
  obtain ⟨b, hb⟩ := exists_bucket hi
  exact (ht.path_chain i b hb).1.isSome_get? hmem

theorem nodup_chain (ht : t.Orderly) (hi : i < t.capacity) : (t.chain i).Nodup := by
  obtain ⟨b, hb⟩ := exists_bucket hi
  exact (ht.path_chain i b hb).1.nodup

/-- No chain is longer than the table has entries. -/
theorem length_chain_le (ht : t.Orderly) (hi : i < t.capacity) :
    (t.chain i).length ≤ t.count :=
  t.arena.length_le_size (ht.nodup_chain hi) fun _ => ht.isSome_get?_of_mem hi

/-- A hash leads to the chain of its bucket. -/
theorem path_headOf (ht : t.Orderly) (hash : UInt64) :
    t.arena.Path (t.headOf hash) (t.chain (homeIndex t.capacity hash)) := by
  obtain ⟨b, hb⟩ := exists_bucket (ht.homeIndex_lt_capacity hash)
  rw [headOf_eq hb]
  exact (ht.path_chain _ b hb).1

/-- An entry is in the chain of its hash. -/
theorem mem_chain_homeIndex (ht : t.Orderly) {node : Handle} {e : Entry κ ν}
    (hget : t.arena.get? node = some e) : node ∈ t.chain (homeIndex t.capacity e.hash) :=
  (ht.mem_chain_iff node e hget _ (ht.homeIndex_lt_capacity e.hash)).2 rfl

/-- An entry is in no chain but that of its hash. -/
theorem eq_homeIndex_of_mem (ht : t.Orderly) {node : Handle} {e : Entry κ ν}
    (hget : t.arena.get? node = some e) (hi : i < t.capacity) (hmem : node ∈ t.chain i) :
    homeIndex t.capacity e.hash = i :=
  (ht.mem_chain_iff node e hget i hi).1 hmem

/-- No entry is in two chains. -/
theorem eq_of_mem_chain (ht : t.Orderly) {j : Nat} {node : Handle} (hi : i < t.capacity)
    (hj : j < t.capacity) (hmem : node ∈ t.chain i) (hmem' : node ∈ t.chain j) : i = j := by
  obtain ⟨e, hget⟩ := Option.isSome_iff_exists.1 (ht.isSome_get?_of_mem hi hmem)
  rw [← ht.eq_homeIndex_of_mem hget hi hmem, ht.eq_homeIndex_of_mem hget hj hmem']

end Orderly

/-! ### The walk of a search -/

section Search

variable [BEq κ] {hash : UInt64} {key : κ} {link previous : Option Handle} {steps : Nat}

/-- A search stops at the first entry that is meant, and remembers the one before it. -/
theorem searchWithin_eq_found {before after : List Handle} {node : Handle} {e : Entry κ ν}
    (h : t.arena.Path link (before ++ node :: after)) (hsteps : before.length < steps)
    (hbefore : ∀ other ∈ before, ∀ e, t.arena.get? other = some e → ¬ e.isFor hash key)
    (hget : t.arena.get? node = some e) (hfor : e.isFor hash key) :
    t.searchWithin hash key steps previous link =
      .ok (.found (before.getLast?.or previous) node e) := by
  induction before generalizing link previous steps with
  | nil =>
    obtain ⟨steps, rfl⟩ := Nat.exists_eq_add_one_of_ne_zero (Nat.ne_zero_of_lt hsteps)
    obtain ⟨rfl, -⟩ := Arena.path_cons_iff.1 h
    simp only [searchWithin, hget]
    rw [if_pos hfor]
    rfl
  | cons first before ih =>
    obtain ⟨steps, rfl⟩ := Nat.exists_eq_add_one_of_ne_zero (Nat.ne_zero_of_lt hsteps)
    obtain ⟨rfl, next, hnext, hrest⟩ := Arena.path_cons_iff.1 h
    obtain ⟨e', hget', rfl⟩ := Option.map_eq_some_iff.1 hnext
    simp only [searchWithin, hget']
    rw [if_neg (hbefore first List.mem_cons_self e' hget'),
      ih hrest (Nat.lt_of_succ_lt_succ hsteps) fun other hmem =>
        hbefore other (List.mem_cons_of_mem _ hmem)]
    cases before <;> rfl

/-- A search that meets no entry that is meant ends with the last entry of the chain. -/
theorem searchWithin_eq_missing {nodes : List Handle} (h : t.arena.Path link nodes)
    (hsteps : nodes.length ≤ steps)
    (hnone : ∀ node ∈ nodes, ∀ e, t.arena.get? node = some e → ¬ e.isFor hash key) :
    t.searchWithin hash key steps previous link = .ok (.missing (nodes.getLast?.or previous)) := by
  induction nodes generalizing link previous steps with
  | nil =>
    obtain rfl := Arena.path_nil_iff.1 h
    cases steps <;> rfl
  | cons first rest ih =>
    obtain ⟨steps, rfl⟩ := Nat.exists_eq_add_one_of_ne_zero (Nat.ne_zero_of_lt hsteps)
    obtain ⟨rfl, next, hnext, hrest⟩ := Arena.path_cons_iff.1 h
    obtain ⟨e, hget, rfl⟩ := Option.map_eq_some_iff.1 hnext
    simp only [searchWithin, hget]
    rw [if_neg (hnone first List.mem_cons_self e hget),
      ih hrest (Nat.le_of_succ_le_succ hsteps) fun other hmem =>
        hnone other (List.mem_cons_of_mem _ hmem)]
    cases rest <;> rfl

namespace Orderly

/-- What a search comes to, given as many steps as the chain has entries: the entry that is meant,
with what is before and behind it in its chain, or else the end of that chain, and then no entry
anywhere in the table is meant. -/
theorem searchWithin_cases (ht : t.Orderly) (hash : UInt64) (key : κ) :
    (∃ before node e after, t.chain (homeIndex t.capacity hash) = before ++ node :: after ∧
      t.arena.get? node = some e ∧ e.isFor hash key ∧
      ∀ steps, (t.chain (homeIndex t.capacity hash)).length ≤ steps →
        t.searchWithin hash key steps none (t.headOf hash) =
          .ok (.found before.getLast? node e)) ∨
    ((∀ node e, t.arena.get? node = some e → ¬ e.isFor hash key) ∧
      ∀ steps, (t.chain (homeIndex t.capacity hash)).length ≤ steps →
        t.searchWithin hash key steps none (t.headOf hash) =
          .ok (.missing (t.chain (homeIndex t.capacity hash)).getLast?)) := by
  have hpath := ht.path_headOf hash
  -- The search stops at the first entry of the chain that is meant, if there is one.
  cases hfind : (t.chain (homeIndex t.capacity hash)).find?
      fun node => (t.arena.get? node).any fun e => e.isFor hash key with
  | some node =>
    obtain ⟨hfor, before, after, hchain, hbefore⟩ := List.find?_eq_some_iff_append.1 hfind
    obtain ⟨e, hget, hfor⟩ := (Option.any_eq_true _ _).1 hfor
    refine .inl ⟨before, node, e, after, hchain, hget, hfor, fun steps hsteps => ?_⟩
    rw [hchain, List.length_append, List.length_cons] at hsteps
    rw [hchain] at hpath
    rw [searchWithin_eq_found hpath (by omega) (fun other hmem e' hget' hfor' => ?_) hget hfor,
      Option.or_none]
    have hno := hbefore other hmem
    rw [hget', Option.any_some, hfor'] at hno
    cases hno
  | none =>
    rw [List.find?_eq_none] at hfind
    have hnone : ∀ node ∈ t.chain (homeIndex t.capacity hash), ∀ e,
        t.arena.get? node = some e → ¬ e.isFor hash key := by
      intro node hmem e hget hfor
      refine hfind node hmem ?_
      rw [hget, Option.any_some, hfor]
    refine .inr ⟨fun node e hget hfor => ?_, fun steps hsteps => ?_⟩
    · -- An entry that is meant has the hash in question, hence lies in the chain that was read.
      have hmem := ht.mem_chain_homeIndex hget
      rw [(Entry.isFor_iff.1 hfor).1] at hmem
      exact hnone node hmem e hget hfor
    · rw [searchWithin_eq_missing hpath hsteps hnone, Option.or_none]

/-- What a search finds, and where it ends. -/
theorem search_cases (ht : t.Orderly) (hash : UInt64) (key : κ) :
    (∃ before node e after, t.chain (homeIndex t.capacity hash) = before ++ node :: after ∧
      t.arena.get? node = some e ∧ e.isFor hash key ∧
      t.search hash key = .ok (.found before.getLast? node e)) ∨
    ((∀ node e, t.arena.get? node = some e → ¬ e.isFor hash key) ∧
      t.search hash key =
        .ok (.missing (t.chain (homeIndex t.capacity hash)).getLast?)) := by
  have hlength := ht.length_chain_le (ht.homeIndex_lt_capacity hash)
  rcases ht.searchWithin_cases hash key with
    ⟨before, node, e, after, hchain, hget, hfor, heq⟩ | ⟨hnone, heq⟩
  · exact .inl ⟨before, node, e, after, hchain, hget, hfor, heq t.count hlength⟩
  · exact .inr ⟨hnone, heq t.count hlength⟩

/-- A search comes to an end before it has read more entries than the chain has. -/
theorem searchWithin_eq_search_of_le (ht : t.Orderly) (hash : UInt64) (key : κ) {steps : Nat}
    (hsteps : (t.chain (homeIndex t.capacity hash)).length ≤ steps) :
    t.searchWithin hash key steps none (t.headOf hash) = t.search hash key := by
  have hlength := ht.length_chain_le (ht.homeIndex_lt_capacity hash)
  rw [search]
  rcases ht.searchWithin_cases hash key with ⟨before, node, e, after, -, -, -, heq⟩ | ⟨-, heq⟩
  · rw [heq steps hsteps, heq t.count hlength]
  · rw [heq steps hsteps, heq t.count hlength]

/-- A search reads only entries that are there, and ends. -/
theorem exists_search (ht : t.Orderly) (hash : UInt64) (key : κ) :
    ∃ outcome, t.search hash key = .ok outcome := by
  rcases ht.search_cases hash key with ⟨before, node, e, -, -, -, -, hsearch⟩ | ⟨-, hsearch⟩
  · exact ⟨_, hsearch⟩
  · exact ⟨_, hsearch⟩

/-! ### The entry of a key -/

section Meant

variable {node node' : Handle} {e e' : Entry κ ν}

/-- Only one entry is for a key. -/
theorem eq_of_isFor [PartialEquivBEq κ] (ht : t.Orderly) (hget : t.arena.get? node = some e)
    (hget' : t.arena.get? node' = some e') (hfor : e.isFor hash key) (hfor' : e'.isFor hash key) :
    node = node' :=
  ht.node_eq node node' e e' hget hget' (Entry.isFor_of_isFor hfor hfor')

/-- The search for a key ends at the entry that is for it, in the chain of its hash. -/
theorem search_eq_found [PartialEquivBEq κ] (ht : t.Orderly) (hget : t.arena.get? node = some e)
    (hfor : e.isFor hash key) :
    ∃ before after, t.chain (homeIndex t.capacity e.hash) = before ++ node :: after ∧
      t.search hash key = .ok (.found before.getLast? node e) := by
  obtain ⟨before, node', e', after, hchain, hget', hfor', hsearch⟩ | ⟨hnone, -⟩ :=
    ht.search_cases hash key
  · obtain rfl := ht.eq_of_isFor hget hget' hfor hfor'
    obtain rfl := Option.some.inj (hget.symm.trans hget')
    rw [(Entry.isFor_iff.1 hfor).1]
    exact ⟨before, after, hchain, hsearch⟩
  · exact absurd hfor (hnone node e hget)

theorem search_eq_missing (ht : t.Orderly)
    (hnone : ∀ node e, t.arena.get? node = some e → ¬ e.isFor hash key) :
    t.search hash key = .ok (.missing (t.chain (homeIndex t.capacity hash)).getLast?) := by
  obtain ⟨-, node, e, -, -, hget, hfor, -⟩ | ⟨-, hsearch⟩ := ht.search_cases hash key
  · exact absurd hfor (hnone node e hget)
  · exact hsearch

/-- Where a search stops, there is an entry that is for the key. -/
theorem of_search_eq_found (ht : t.Orderly) {before : Option Handle}
    (hsearch : t.search hash key = .ok (.found before node e)) :
    t.arena.get? node = some e ∧ e.isFor hash key := by
  obtain ⟨before', node', e', after, -, hget, hfor, hsearch'⟩ | ⟨-, hsearch'⟩ :=
    ht.search_cases hash key
  · obtain ⟨-, rfl, rfl⟩ := SearchEnd.found.inj (Except.ok.inj (hsearch.symm.trans hsearch'))
    exact ⟨hget, hfor⟩
  · cases hsearch.symm.trans hsearch'

/-- A search that does not stop at an entry ends with the chain, and no entry is for the key. -/
theorem of_search_eq_missing (ht : t.Orderly) {tail : Option Handle}
    (hsearch : t.search hash key = .ok (.missing tail)) :
    tail = (t.chain (homeIndex t.capacity hash)).getLast? ∧
      ∀ node e, t.arena.get? node = some e → ¬ e.isFor hash key := by
  obtain ⟨before', node', e', after, -, -, -, hsearch'⟩ | ⟨hnone, hsearch'⟩ :=
    ht.search_cases hash key
  · cases hsearch.symm.trans hsearch'
  · exact ⟨SearchEnd.missing.inj (Except.ok.inj (hsearch.symm.trans hsearch')), hnone⟩

end Meant

end Orderly

end Search

end Table

end BulkLookup
