import BulkLookup.Proofs.Table.Refinement

/-!
# What a removal leaves alone

To take a key out of an orderly table is to erase one entry from one chain. Whether the entry comes
first, last or in between makes no difference to the rest of its chain, and no other entry is
touched beyond the link that led to the one erased. If no entry is for the key, nothing changes at
all.

## Main results

* `Table.Orderly.tryRemove_eq_detach`, `Table.Orderly.tryRemove_eq_self` — a removal detaches the
  entry of its key, if there is one
* `Table.Orderly.chain_detach_self`, `Table.Orderly.exists_bucket_detach` — its chain and bucket
* `Table.Orderly.chain_detach_of_ne`, `Table.Orderly.get?_detach_of_mem` — the other chains
* `Table.remove_of_orderly` — all that a removal does
-/

namespace BulkLookup

namespace Table

section AnyStorage

variable [Storage] {κ ν : Type} [BEq κ]

variable {t : Table κ ν} {key : κ} {node : Handle} {e : Entry κ ν} {before after : List Handle}

/-! ### A removal -/

namespace Orderly

/-- A removal detaches the entry that is for the key. -/
theorem tryRemove_eq_detach [PartialEquivBEq κ] (ht : t.Orderly)
    (hget : t.arena.get? node = some e) (hfor : e.isFor (t.hasher key) key) :
    ∃ before after, t.chain (homeIndex t.capacity e.hash) = before ++ node :: after ∧
      t.tryRemove key = .ok (some (e.key, e.value), t.detach before.getLast? node e) := by
  obtain ⟨before, after, hchain, hsearch⟩ := ht.search_eq_found hget hfor
  exact ⟨before, after, hchain, tryRemove_of_found hsearch (ht.tryDetach_eq hget hchain)⟩

/-- Where no entry is for the key, a removal changes nothing. -/
theorem tryRemove_eq_self (ht : t.Orderly)
    (hnone : ∀ node e, t.arena.get? node = some e → ¬ e.isFor (t.hasher key) key) :
    t.tryRemove key = .ok (none, t) :=
  tryRemove_of_missing (ht.search_eq_missing hnone)

/-! ### Chains and entries after detaching one -/

/-- The chain of an entry that is detached is the old one without it. -/
theorem chain_detach_self (ht : t.Orderly) (hget : t.arena.get? node = some e)
    (hchain : t.chain (homeIndex t.capacity e.hash) = before ++ node :: after) :
    (t.detach before.getLast? node e).chain (homeIndex t.capacity e.hash) =
      (t.chain (homeIndex t.capacity e.hash)).erase node := by
  have hhome := ht.homeIndex_lt_capacity e.hash
  rw [ht.chain_detach hget hchain hhome, (ht.nodup_chain hhome).erase_eq_filter]
  apply List.filter_congr
  intro other _
  simp only [ne_eq, decide_not, bne, beq_eq_decide]

/-- The bucket of an entry that is detached heads what is left of its chain, and counts one entry
less. -/
theorem exists_bucket_detach (ht : t.Orderly) (hget : t.arena.get? node = some e)
    (hchain : t.chain (homeIndex t.capacity e.hash) = before ++ node :: after) :
    ∃ b b', t.buckets[homeIndex t.capacity e.hash]? = some b ∧
      (t.detach before.getLast? node e).buckets[homeIndex t.capacity e.hash]? = some b' ∧
      (t.detach before.getLast? node e).arena.Path b'.first
        ((t.chain (homeIndex t.capacity e.hash)).erase node) ∧ b'.length + 1 = b.length := by
  have hhome := ht.homeIndex_lt_capacity e.hash
  have hself := ht.chain_detach_self hget hchain
  obtain ⟨b, hb⟩ := exists_bucket hhome
  obtain ⟨b', hb'⟩ := exists_bucket (t := t.detach before.getLast? node e)
    (by rwa [capacity_detach])
  -- The counts beside the bucket are right before and after, so the chains tell them.
  obtain ⟨hpath', hlength'⟩ := (ht.detach hget hchain).path_chain _ b' hb'
  rw [hself] at hpath' hlength'
  refine ⟨b, b', hb, hb', hpath', ?_⟩
  rw [hlength', (ht.path_chain _ b hb).2]
  exact List.length_erase_add_one (ht.mem_chain_homeIndex hget)

/-- Nothing is missing in the other chains. -/
theorem chain_detach_of_ne (ht : t.Orderly) (hget : t.arena.get? node = some e)
    (hchain : t.chain (homeIndex t.capacity e.hash) = before ++ node :: after) {i : Nat}
    (hi : i < t.capacity) (hne : i ≠ homeIndex t.capacity e.hash) :
    (t.detach before.getLast? node e).chain i = t.chain i := by
  rw [ht.chain_detach hget hchain hi]
  apply List.filter_eq_self.2
  intro other hmem
  refine decide_eq_true fun heq => hne ?_
  rw [heq] at hmem
  exact ht.eq_of_mem_chain hi (ht.homeIndex_lt_capacity e.hash) hmem (ht.mem_chain_homeIndex hget)

/-- The entries of other chains do not even change their links. -/
theorem get?_detach_of_mem (ht : t.Orderly)
    (hchain : t.chain (homeIndex t.capacity e.hash) = before ++ node :: after) {i : Nat}
    (hi : i < t.capacity) (hne : i ≠ homeIndex t.capacity e.hash) {other : Handle}
    (hmem : other ∈ t.chain i) :
    (t.detach before.getLast? node e).arena.get? other = t.arena.get? other := by
  have hhome := ht.homeIndex_lt_capacity e.hash
  -- No entry of the chain that is edited is in another one.
  have hother : ∀ entry ∈ before ++ node :: after, other ≠ entry := by
    rintro entry hentry rfl
    exact hne (ht.eq_of_mem_chain hi hhome hmem (hchain ▸ hentry))
  rw [get?_detach (ht.getLast?_ne_of_chain_eq hhome hchain), if_neg, if_neg]
  · intro hlast
    exact hother other (List.mem_append_left _ (List.mem_of_getLast? hlast)) rfl
  · exact hother node (List.mem_append_right _ List.mem_cons_self)

end Orderly

omit [BEq κ] in
theorem buckets_detach_of_ne {i : Nat} (hne : i ≠ homeIndex t.capacity e.hash)
    (previous : Option Handle) : (t.detach previous node e).buckets[i]? = t.buckets[i]? := by
  rw [buckets_detach, Array.getElem?_modify, if_neg (Ne.symm hne)]

omit [BEq κ] in
/-- Entries other than the one detached change at most their links. -/
theorem cut_get?_detach {previous : Option Handle} (hprevious : previous ≠ some node)
    {other : Handle} (hother : other ≠ node) :
    ((t.detach previous node e).arena.get? other).map Entry.cut =
      (t.arena.get? other).map Entry.cut := by
  rw [get?_detach hprevious, if_neg hother]
  split
  · rw [Option.map_map]
    rfl
  · rfl

/-- All that a removal does to an orderly table. It meets no fault.

If no entry is for the key, it takes nothing out, and the table is the same. Otherwise, of the one
entry that is for it: its pair is taken out; its handle names nothing any more, and there is one
entry less. It was in the chain of the hash of the key, and that chain is the old one without it,
which the bucket counts one entry less. All other buckets and the entries in their chains are the
same, links included; and every other handle names the same key, value and hash as before. The table
is orderly again. -/
theorem remove_of_orderly [PartialEquivBEq κ] (ht : t.Orderly) (key : κ) :
    let home := homeIndex t.capacity (t.hasher key)
    ((∀ node e, t.arena.get? node = some e → ¬ e.isFor (t.hasher key) key = true) →
      t.tryRemove key = .ok (none, t)) ∧
    ∀ node e, t.arena.get? node = some e → e.isFor (t.hasher key) key = true →
      ∃ rest, t.tryRemove key = .ok (some (e.key, e.value), rest) ∧
      (rest.arena.get? node = none ∧ rest.count + 1 = t.count) ∧
      (node ∈ t.chain home ∧ rest.chain home = (t.chain home).erase node ∧
        ∃ b b', t.buckets[home]? = some b ∧ rest.buckets[home]? = some b' ∧
          rest.arena.Path b'.first ((t.chain home).erase node) ∧ b'.length + 1 = b.length) ∧
      (∀ i < t.capacity, i ≠ home → rest.buckets[i]? = t.buckets[i]? ∧
        rest.chain i = t.chain i ∧
        ∀ other ∈ t.chain i, rest.arena.get? other = t.arena.get? other) ∧
      (∀ other, other ≠ node → (rest.arena.get? other).map (fun e => (e.key, e.value, e.hash)) =
        (t.arena.get? other).map fun e => (e.key, e.value, e.hash)) ∧
      rest.hasher = t.hasher ∧ rest.capacity = t.capacity ∧ rest.ceiling = t.ceiling ∧
      rest.Orderly := by
  intro home
  refine ⟨ht.tryRemove_eq_self, fun node e hget hfor => ?_⟩
  obtain ⟨before, after, hchain, hremove⟩ := ht.tryRemove_eq_detach hget hfor
  have hhome : home = homeIndex t.capacity e.hash := by
    rw [(Entry.isFor_iff.1 hfor).1]
  have hprevious : before.getLast? ≠ some node :=
    ht.getLast?_ne_of_chain_eq (ht.homeIndex_lt_capacity e.hash) hchain
  rw [hhome]
  refine ⟨t.detach before.getLast? node e, hremove,
    ⟨?_, count_detach hget⟩,
    ⟨ht.mem_chain_homeIndex hget, ht.chain_detach_self hget hchain,
      ht.exists_bucket_detach hget hchain⟩,
    fun i hi hne => ⟨buckets_detach_of_ne hne _, ht.chain_detach_of_ne hget hchain hi hne,
      fun other => ht.get?_detach_of_mem hchain hi hne⟩,
    fun other hother => Entry.map_eq_of_cut (cut_get?_detach hprevious hother) fun _ => rfl,
    hasher_detach .., capacity_detach .., ceiling_detach .., ht.detach hget hchain⟩
  rw [get?_detach hprevious, if_pos rfl]

end AnyStorage

/-- Of three keys in one chain, the middle one is taken out. -/
theorem remove_of_orderly_in_the_middle :
    let k : UInt64 → TaggedKey := fun digest => ⟨digest, "a", "stored"⟩
    let t : Table TaggedKey Nat := (unbounded TaggedKey.digest).run
      [.insert (k 0) 0 (· + 0), .insert (k 8) 8 (· + 0), .insert (k 16) 16 (· + 0)]
    let asked : TaggedKey := ⟨8, "a", "asked"⟩
    t.Orderly ∧ t.chain 0 = [⟨0, 0⟩, ⟨1, 0⟩, ⟨2, 0⟩] ∧
      ∃ rest, t.tryRemove asked = .ok (some (k 8, 8), rest) ∧
        rest.chain 0 = [⟨0, 0⟩, ⟨2, 0⟩] ∧ rest.arena.get? ⟨1, 0⟩ = none ∧ rest.Orderly := by
  intro k t asked
  have ht : t.Orderly := (IsReachable.wellFormed ⟨_, _, .inl rfl⟩).toOrderly
  have hget : t.arena.get? ⟨1, 0⟩ = some ⟨k 8, 8, 8, some ⟨2, 0⟩⟩ := by
    simp only [t, k]
    cbv
  have hfor : (⟨k 8, 8, 8, some ⟨2, 0⟩⟩ : Entry TaggedKey Nat).isFor (t.hasher asked) asked := by
    decide +kernel
  have hhome : homeIndex t.capacity (t.hasher asked) = 0 := by decide +kernel
  have hchain : t.chain 0 = [⟨0, 0⟩, ⟨1, 0⟩, ⟨2, 0⟩] := by decide +kernel
  obtain ⟨rest, hremove, ⟨hfreed, -⟩, ⟨-, herased, -⟩, -, -, -, -, -, horderly⟩ :=
    (remove_of_orderly ht asked).2 ⟨1, 0⟩ _ hget hfor
  rw [hhome, hchain] at herased
  exact ⟨ht, hchain, rest, hremove, herased.trans (by decide), hfreed, horderly⟩

end Table

end BulkLookup
