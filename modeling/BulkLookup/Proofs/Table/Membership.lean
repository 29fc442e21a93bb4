import BulkLookup.Proofs.Table.Refinement

/-!
# What a search decides

A search reads one chain, and no more of its entries than the bucket counts. In an orderly table
that is enough to know whether any entry of the table is for the key, and which one. If none is, the
search has come to the last entry of the chain. This matters to whoever attaches an entry behind it:
behind an entry further up, the rest of the chain would be lost, and without one, all of it.

## Main definitions

* `Table.Gains` — a table with one entry more, at the end of its chain

## Main results

* `Table.Orderly.gains_attach` — what is attached behind the last entry of a chain changes nothing
  else
* `Table.search_of_orderly` — all that the end of a search tells
-/

namespace BulkLookup

namespace Table

section AnyStorage

variable [Storage] {κ ν : Type}

variable {t : Table κ ν} {hash : UInt64} {tail : Option Handle} {key : κ} {value : ν}

/-! ### One entry more -/

/-- The table `t'` is the table `t` with one entry more: the handle `node` names it, and it ends the
chain of its hash. -/
structure Gains (t t' : Table κ ν) (node : Handle) (e : Entry κ ν) : Prop where
  get?_fresh : t.arena.get? node = none
  get?_node : t'.arena.get? node = some e
  /-- All other handles name what they named, but the last entry of the old chain links to the new
  one. -/
  get?_other : ∀ other, other ≠ node → t'.arena.get? other =
    if (t.chain (homeIndex t.capacity e.hash)).getLast? = some other then
      (t.arena.get? other).map fun e => { e with next := some node }
    else t.arena.get? other
  chain_home : t'.chain (homeIndex t.capacity e.hash) =
    t.chain (homeIndex t.capacity e.hash) ++ [node]
  /-- The bucket of the hash heads the longer chain, and counts one entry more. -/
  bucket_home : ∃ b b', t.buckets[homeIndex t.capacity e.hash]? = some b ∧
    t'.buckets[homeIndex t.capacity e.hash]? = some b' ∧
    t'.arena.Path b'.first (t.chain (homeIndex t.capacity e.hash) ++ [node]) ∧
    b'.length = b.length + 1
  /-- All other buckets are the same, with their chains and the entries in them. -/
  elsewhere : ∀ i < t.capacity, i ≠ homeIndex t.capacity e.hash →
    t'.buckets[i]? = t.buckets[i]? ∧ t'.chain i = t.chain i ∧
    ∀ other ∈ t.chain i, t'.arena.get? other = t.arena.get? other
  count_eq : t'.count = t.count + 1
  hasher_eq : t'.hasher = t.hasher
  capacity_eq : t'.capacity = t.capacity
  ceiling_eq : t'.ceiling = t.ceiling

theorem buckets_attach_of_ne {i : Nat} (hne : i ≠ homeIndex t.capacity hash) :
    (t.attach hash tail key value).2.buckets[i]? = t.buckets[i]? := by
  rw [buckets_attach, Array.getElem?_modify, if_neg (Ne.symm hne)]

namespace Orderly

variable [BEq κ]

/-- The bucket of an entry that is attached heads the longer chain, and counts one entry more. -/
theorem exists_bucket_attach (ht : t.Orderly)
    (htail : tail = (t.chain (homeIndex t.capacity hash)).getLast?) :
    ∃ b b', t.buckets[homeIndex t.capacity hash]? = some b ∧
      (t.attach hash tail key value).2.buckets[homeIndex t.capacity hash]? = some b' ∧
      (t.attach hash tail key value).2.arena.Path b'.first
        (t.chain (homeIndex t.capacity hash) ++ [(t.attach hash tail key value).1]) ∧
      b'.length = b.length + 1 := by
  have hhome := ht.homeIndex_lt_capacity hash
  obtain ⟨b, hb⟩ := exists_bucket hhome
  obtain ⟨b', hb'⟩ := exists_bucket (t := (t.attach hash tail key value).2)
    (by rwa [capacity_attach])
  obtain ⟨hpath', hlength'⟩ := ht.headsPaths_attach htail _ b' hb'
  simp only [if_true] at hpath' hlength'
  rw [List.length_append, List.length_singleton, ← (ht.path_chain _ b hb).2] at hlength'
  exact ⟨b, b', hb, hb', hpath', hlength'⟩

/-- The entries of other chains do not even change their links. -/
theorem get?_attach_of_mem (ht : t.Orderly)
    (htail : tail = (t.chain (homeIndex t.capacity hash)).getLast?) {i : Nat} (hi : i < t.capacity)
    (hne : i ≠ homeIndex t.capacity hash) {other : Handle} (hmem : other ∈ t.chain i) :
    (t.attach hash tail key value).2.arena.get? other = t.arena.get? other := by
  rw [get?_attach (ht.isSome_get?_of_tail htail), if_neg, if_neg]
  · -- The entry that gets a new link is in the chain of the hash, and so in no other.
    rw [htail]
    intro hlast
    exact hne (ht.eq_of_mem_chain hi (ht.homeIndex_lt_capacity hash) hmem
      (List.mem_of_getLast? hlast))
  · exact ne_attach_of_isSome (ht.isSome_get?_of_mem hi hmem)

/-- An entry attached behind the last one of its chain is all that an orderly table gains. -/
theorem gains_attach (ht : t.Orderly)
    (htail : tail = (t.chain (homeIndex t.capacity hash)).getLast?) :
    t.Gains (t.attach hash tail key value).2 (t.attach hash tail key value).1
      ⟨key, value, hash, none⟩ := by
  have hlive := ht.isSome_get?_of_tail htail
  have hhome := ht.homeIndex_lt_capacity hash
  exact {
    get?_fresh := get?_attach_fresh ..
    get?_node := by rw [get?_attach hlive, if_pos rfl]
    get?_other := fun other hne => by rw [get?_attach hlive, if_neg hne, htail]
    chain_home := by rw [ht.chain_attach htail hhome, if_pos rfl]
    bucket_home := ht.exists_bucket_attach htail
    elsewhere := fun i hi hne => ⟨buckets_attach_of_ne hne,
      by rw [ht.chain_attach htail hi, if_neg hne],
      fun other => ht.get?_attach_of_mem htail hi hne⟩
    count_eq := count_attach ..
    hasher_eq := hasher_attach ..
    capacity_eq := capacity_attach ..
    ceiling_eq := ceiling_attach .. }

end Orderly

/-! ### The end of a search -/

/-- All that the end of a search for a key tells of an orderly table.

The search reads only entries that are there, and ends when it has read as many of them as the
bucket of its hash counts, if not before. It stops at an entry exactly if there is, anywhere in the
table, an entry for the key; that entry is then the only one. If it does not stop at an entry, it
has come to the last entry of the chain, which links to none, or the chain is empty. A pair can be
attached there, whatever its key, and it is all that the table gains; and if it is the key in
question that is attached, the table is orderly again. -/
theorem search_of_orderly [BEq κ] [PartialEquivBEq κ] (ht : t.Orderly) (key : κ) :
    let hash := t.hasher key
    let chain := t.chain (homeIndex t.capacity hash)
    ∃ stop, t.search hash key = .ok stop ∧
    (∃ b, t.buckets[homeIndex t.capacity hash]? = some b ∧ ∀ steps, b.length ≤ steps →
      t.searchWithin hash key steps none (t.headOf hash) = .ok stop) ∧
    ((∃ before node e, stop = .found before node e) ↔
      ∃ node e, t.arena.get? node = some e ∧ e.isFor hash key = true) ∧
    (∀ before node e, stop = .found before node e →
      t.arena.get? node = some e ∧ e.isFor hash key = true ∧
      ∀ other e', t.arena.get? other = some e' → e'.isFor hash key = true → other = node) ∧
    ∀ tail, stop = .missing tail →
      tail = chain.getLast? ∧ (tail = none ↔ chain = []) ∧
      (∀ last, tail = some last → t.arena.nextOf? last = some none) ∧
      ∀ stored value, ∃ node t', t.tryAttach hash tail stored value = .ok (node, t') ∧
        t.Gains t' node ⟨stored, value, hash, none⟩ ∧ (stored = key → t'.Orderly) := by
  intro hash chain
  obtain ⟨stop, hsearch⟩ := ht.exists_search hash key
  refine ⟨stop, hsearch, ?_, ⟨?_, ?_⟩, ?_, ?_⟩
  · obtain ⟨b, hb⟩ := exists_bucket (ht.homeIndex_lt_capacity hash)
    have hlength : b.length = chain.length := (ht.path_chain _ b hb).2
    refine ⟨b, hb, fun steps hsteps => ?_⟩
    rw [ht.searchWithin_eq_search_of_le hash key (hlength ▸ hsteps), hsearch]
  · rintro ⟨before, node, e, rfl⟩
    exact ⟨node, e, ht.of_search_eq_found hsearch⟩
  · rintro ⟨node, e, hget, hfor⟩
    obtain ⟨before, after, -, hfound⟩ := ht.search_eq_found hget hfor
    exact ⟨before.getLast?, node, e, Except.ok.inj (hsearch.symm.trans hfound)⟩
  · rintro before node e rfl
    obtain ⟨hget, hfor⟩ := ht.of_search_eq_found hsearch
    exact ⟨hget, hfor, fun other e' hget' hfor' => ht.eq_of_isFor hget' hget hfor' hfor⟩
  · rintro tail rfl
    obtain ⟨htail, hnone⟩ := ht.of_search_eq_missing hsearch
    refine ⟨htail, ?_, fun last hlast => ?_, fun stored value =>
      ⟨_, _, ht.tryAttach_eq htail stored value, ht.gains_attach htail, ?_⟩⟩
    · rw [htail]
      exact List.getLast?_eq_none_iff
    · exact (ht.path_headOf hash).nextOf?_of_getLast? (htail.symm.trans hlast)
    · rintro rfl
      exact ht.attach htail hnone

end AnyStorage

/-- Two keys in one chain, with the slot of a third one free between them: a search for the second
of them stops there; a search for a key that is not there ends behind it, where that key is attached
in the free slot. -/
theorem search_of_orderly_behind_a_free_slot :
    let k : UInt64 → TaggedKey := fun digest => ⟨digest, "a", "stored"⟩
    let t : Table TaggedKey Nat := (unbounded TaggedKey.digest).run
      [.insert (k 0) 0 (· + 0), .insert (k 8) 8 (· + 0), .insert (k 16) 16 (· + 0), .remove (k 8)]
    let asked : TaggedKey := ⟨16, "a", "asked"⟩
    let new : TaggedKey := ⟨24, "a", "new"⟩
    t.Orderly ∧ t.chain 0 = [⟨0, 0⟩, ⟨2, 0⟩] ∧
      (∃ before e, t.search (t.hasher asked) asked = .ok (.found before ⟨2, 0⟩ e)) ∧
      t.search (t.hasher new) new = .ok (.missing (some ⟨2, 0⟩)) ∧
      ∃ t', t.tryAttach (t.hasher new) (some ⟨2, 0⟩) new 24 = .ok (⟨1, 1⟩, t') ∧
        t'.chain 0 = [⟨0, 0⟩, ⟨2, 0⟩, ⟨1, 1⟩] ∧ t'.Orderly := by
  intro k t asked new
  have ht : t.Orderly := (IsReachable.wellFormed ⟨_, _, .inl rfl⟩).toOrderly
  have hchain : t.chain 0 = [⟨0, 0⟩, ⟨2, 0⟩] := by decide +kernel
  have hhome : homeIndex t.capacity (t.hasher new) = 0 := by decide +kernel
  have hfound : ∃ before e, t.search (t.hasher asked) asked = .ok (.found before ⟨2, 0⟩ e) := by
    have hany : (t.arena.get? ⟨2, 0⟩).any (fun e => e.isFor (t.hasher asked) asked) = true := by
      decide +kernel
    obtain ⟨e, hget, hfor⟩ := (Option.any_eq_true _ _).1 hany
    obtain ⟨stop, hsearch, -, hiff, hunique, -⟩ := search_of_orderly ht asked
    obtain ⟨before, node, e', rfl⟩ := hiff.2 ⟨_, e, hget, hfor⟩
    obtain ⟨-, -, honly⟩ := hunique before node e' rfl
    exact ⟨before, e', honly ⟨2, 0⟩ e hget hfor ▸ hsearch⟩
  obtain ⟨stop, hsearch, -, hiff, -, hmissing⟩ := search_of_orderly ht new
  cases stop with
  | found before node e =>
    -- The entries that there are, one after the other, are not for the new key.
    obtain ⟨node', e', hget, hfor⟩ := hiff.1 ⟨before, node, e, rfl⟩
    have hnone : ∀ node ∈ t.arena.handles, ¬ (t.arena.get? node).any
        (fun e => e.isFor (t.hasher new) new) = true := by
      decide +kernel
    refine absurd ?_ (hnone node' (Arena.mem_handles_iff.2 (Option.isSome_of_eq_some hget)))
    rw [hget, Option.any_some, hfor]
  | missing tail =>
    obtain ⟨htail, -, -, hattach⟩ := hmissing tail rfl
    rw [hhome, hchain] at htail
    obtain rfl : tail = some ⟨2, 0⟩ := htail
    obtain ⟨node, t', ht', hgains, horderly⟩ := hattach new 24
    have hnode : (t.attach (t.hasher new) (some ⟨2, 0⟩) new 24).1 = ⟨1, 1⟩ := by decide +kernel
    obtain rfl : node = ⟨1, 1⟩ := by
      rw [← hnode, tryAttach_eq_ok ht']
    have hlonger := hgains.chain_home
    simp only [hhome, hchain] at hlonger
    exact ⟨ht, hchain, hfound, hsearch, t', ht', hlonger, horderly rfl⟩

end Table

end BulkLookup
