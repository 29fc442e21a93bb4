import BulkLookup.Proofs.Table.Relinking
import BulkLookup.Arena.Slots
import BulkLookup.Hashing
import Mathlib.Data.List.Range

/-!
# Moving any table

A move asks little of a table: every bucket heads a path that ends, and every entry is on exactly
one of these paths. Entries may hang in buckets where their hashes do not put them, the counts
beside the buckets may be wrong, and neither the old nor the new number of buckets has to be a power
of two. The move counts afresh, and it puts every entry where its hash says.

The new chains are read off the old ones. Each is the part of the old chains, bucket after bucket,
that belongs into the new bucket, and what it links is its own: no entry links back to where it was.

## Main definitions

* `Table.Threads` — every entry is on exactly one of the paths that the buckets head

## Main results

* `Table.Threads.exists_resize` — a move meets no dead link
* `Table.Threads.headsPaths_resize`, `Table.Threads.resize` — the new chains, out of the old ones in
  order
* `Table.Threads.exists_link` — every link leads along the chain of its entry
* `Table.resize_of_threads` — all that a move does
-/

namespace BulkLookup

section AnyStorage

variable [Storage] {κ ν : Type}

/-- The last entry of a path links to none. -/
theorem Arena.Path.nextOf?_of_getLast? {a : Arena (Entry κ ν)} {link : Option Handle}
    {nodes : List Handle} (h : a.Path link nodes) {last : Handle}
    (hlast : nodes.getLast? = some last) : a.nextOf? last = some none := by
  obtain ⟨before, rfl⟩ := List.getLast?_eq_some_iff.1 hlast
  obtain ⟨-, next, hnext, hend⟩ := Arena.path_cons_iff.1 h.of_append
  rw [hnext, Arena.path_nil_iff.1 hend]

namespace Table

variable {t moved : Table κ ν} {capacity : Nat} {chains : Nat → List Handle}

/-- No entry belongs into two buckets. -/
theorem eq_of_isAt {i j : Nat} {node : Handle} (hi : t.isAt capacity i node = true)
    (hj : t.isAt capacity j node = true) : i = j := by
  obtain ⟨e, hget, hhome⟩ := (Option.any_eq_true _ _).1 hi
  rw [← beq_iff_eq.1 hhome]
  exact (isAt_of_get? hget).1 hj

/-! ### Tables whose entries hang in chains -/

/-- Every bucket heads the path that `chains` gives for it, and every entry is on exactly one of
these paths. -/
structure Threads (t : Table κ ν) (chains : Nat → List Handle) : Prop where
  path : ∀ i b, t.buckets[i]? = some b → t.arena.Path b.first (chains i)
  eq_of_mem : ∀ i < t.capacity, ∀ j < t.capacity, ∀ node ∈ chains i, node ∈ chains j → i = j
  exists_mem : ∀ node, (t.arena.get? node).isSome = true → ∃ i < t.capacity, node ∈ chains i

namespace Threads

theorem isSome_get?_of_mem (h : t.Threads chains) {i : Nat} (hi : i < t.capacity) {node : Handle}
    (hmem : node ∈ chains i) : (t.arena.get? node).isSome = true := by
  obtain ⟨b, hb⟩ := exists_bucket hi
  exact (h.path i b hb).isSome_get? hmem

theorem nodup (h : t.Threads chains) {i : Nat} (hi : i < t.capacity) : (chains i).Nodup := by
  obtain ⟨b, hb⟩ := exists_bucket hi
  exact (h.path i b hb).nodup

theorem length_le (h : t.Threads chains) {i : Nat} (hi : i < t.capacity) :
    (chains i).length ≤ t.count :=
  t.arena.length_le_size (h.nodup hi) fun _ => h.isSome_get?_of_mem hi

/-- The entries of all chains are those that there are. -/
theorem mem_flatMap_iff (h : t.Threads chains) {node : Handle} :
    node ∈ (List.range t.capacity).flatMap chains ↔ (t.arena.get? node).isSome = true := by
  rw [List.mem_flatMap]
  constructor
  · rintro ⟨i, hi, hmem⟩
    exact h.isSome_get?_of_mem (List.mem_range.1 hi) hmem
  · intro hlive
    obtain ⟨i, hi, hmem⟩ := h.exists_mem node hlive
    exact ⟨i, List.mem_range.2 hi, hmem⟩

/-- No entry occurs twice among those of all chains. -/
theorem nodup_flatMap (h : t.Threads chains) :
    ((List.range t.capacity).flatMap chains).Nodup := by
  refine List.nodup_flatMap.2 ⟨fun i hi => h.nodup (List.mem_range.1 hi), ?_⟩
  apply List.pairwise_iff_getElem.2
  intro j k hj hk hjk
  rw [List.length_range] at hj hk
  change (chains (List.range t.capacity)[j]).Disjoint (chains (List.range t.capacity)[k])
  rw [List.getElem_range, List.getElem_range]
  intro node hmem hmem'
  exact Nat.ne_of_lt hjk (h.eq_of_mem j hj k hk node hmem hmem')

/-- Every link leads to the entry that comes next in the chain of its own, or to none at its end. -/
theorem exists_link (h : t.Threads chains) {node : Handle} {link : Option Handle}
    (hnext : t.arena.nextOf? node = some link) :
    ∃ i < t.capacity, ∃ before after, chains i = before ++ node :: after ∧ link = after.head? := by
  have hlive : (t.arena.get? node).isSome = true := by
    rw [← Option.isSome_map (f := Entry.next), ← Arena.nextOf?, hnext]
    rfl
  obtain ⟨i, hi, hmem⟩ := h.exists_mem node hlive
  obtain ⟨before, after, hchain⟩ := List.append_of_mem hmem
  obtain ⟨b, hb⟩ := exists_bucket hi
  have hpath := h.path i b hb
  rw [hchain] at hpath
  obtain ⟨-, next, hnext', hrest⟩ := Arena.path_cons_iff.1 hpath.of_append
  obtain rfl := Option.some.inj (hnext.symm.trans hnext')
  exact ⟨i, hi, before, after, hchain, hrest.link_eq_head?⟩

/-! ### The move -/

/-- Every step of a move finds what it needs. -/
theorem exists_carries (h : t.Threads chains) (hcapacity : 0 < capacity) :
    ∃ r, (Relinking.start t.arena capacity).appendBuckets t.count t.buckets = .ok r ∧
      r.Carries t capacity ((List.range t.capacity).flatMap chains) := by
  -- Each old bucket heads its chain, which has no more entries than a move reads.
  have hpaths : List.Forall₂ (fun b nodes => t.arena.Path b.first nodes ∧ nodes.length ≤ t.count)
      t.buckets.toList ((List.range t.capacity).map chains) := by
    refine List.forall₂_iff_get.2 ⟨?_, fun i hi hi' => ?_⟩
    · rw [List.length_map, List.length_range]
      rfl
    · have hb : t.buckets[i]? = some t.buckets[i] := Array.getElem?_eq_getElem hi
      rw [List.get_eq_getElem, List.get_eq_getElem, List.getElem_map, List.getElem_range]
      exact ⟨h.path i _ hb, h.length_le hi⟩
  have hnodup := h.nodup_flatMap
  rw [List.flatMap_def] at hnodup ⊢
  have hmoved := (Relinking.Carries.start t capacity).appendBuckets hcapacity hpaths
  rw [List.nil_append] at hmoved
  exact hmoved hnodup

/-- A move meets no dead link, and moves every entry. -/
theorem exists_resize (h : t.Threads chains) (hcapacity : 0 < capacity) :
    ∃ moved, t.resize capacity = .ok moved := by
  obtain ⟨r, hr, -⟩ := h.exists_carries hcapacity
  exact ⟨_, resize_eq_ok.2 ⟨r, hr, rfl⟩⟩

/-- What a move has carried when it is done. -/
theorem carries_resize (h : t.Threads chains) (hcapacity : 0 < capacity)
    (hmoved : t.resize capacity = .ok moved) :
    ∃ r : Relinking κ ν, r.Carries t capacity ((List.range t.capacity).flatMap chains) ∧
      moved.buckets = r.buckets ∧ moved.arena = r.arena := by
  obtain ⟨r, hr, hcarries⟩ := h.exists_carries hcapacity
  obtain ⟨r', hr', rfl⟩ := resize_eq_ok.1 hmoved
  obtain rfl := Except.ok.inj (hr.symm.trans hr')
  exact ⟨r, hcarries, rfl, rfl⟩

/-- The new buckets head, and count, the entries of all old chains that belong into them. -/
theorem headsPaths_resize (h : t.Threads chains) (hcapacity : 0 < capacity)
    (hmoved : t.resize capacity = .ok moved) :
    moved.HeadsPaths fun i =>
      ((List.range t.capacity).flatMap chains).filter (t.isAt capacity i) := by
  obtain ⟨r, hcarries, hbuckets, harena⟩ := h.carries_resize hcapacity hmoved
  intro i b hb
  rw [hbuckets] at hb
  rw [harena]
  exact hcarries.path i b hb

theorem count_resize (h : t.Threads chains) (hcapacity : 0 < capacity)
    (hmoved : t.resize capacity = .ok moved) : moved.count = t.count := by
  obtain ⟨r, hcarries, -, harena⟩ := h.carries_resize hcapacity hmoved
  rw [count, harena]
  exact hcarries.size_arena

/-- No entry changes but for its link. -/
theorem get?_resize (h : t.Threads chains) (hcapacity : 0 < capacity)
    (hmoved : t.resize capacity = .ok moved) (node : Handle) :
    (moved.arena.get? node).map Entry.cut = (t.arena.get? node).map Entry.cut := by
  obtain ⟨r, hcarries, -, harena⟩ := h.carries_resize hcapacity hmoved
  rw [harena]
  exact hcarries.cut_get? node

theorem isSome_get?_resize (h : t.Threads chains) (hcapacity : 0 < capacity)
    (hmoved : t.resize capacity = .ok moved) (node : Handle) :
    (moved.arena.get? node).isSome = (t.arena.get? node).isSome := by
  have hcut := congrArg Option.isSome (h.get?_resize hcapacity hmoved node)
  rwa [Option.isSome_map, Option.isSome_map] at hcut

/-- After a move, every entry is on exactly one path again: that of the bucket of its hash. -/
theorem resize (h : t.Threads chains) (hcapacity : 0 < capacity)
    (hmoved : t.resize capacity = .ok moved) :
    moved.Threads fun i =>
      ((List.range t.capacity).flatMap chains).filter (t.isAt capacity i) where
  path i b hb := (h.headsPaths_resize hcapacity hmoved i b hb).1
  eq_of_mem i _ j _ node hmem hmem' :=
    eq_of_isAt (List.mem_filter.1 hmem).2 (List.mem_filter.1 hmem').2
  exists_mem node hlive := by
    rw [h.isSome_get?_resize hcapacity hmoved] at hlive
    obtain ⟨e, hget⟩ := Option.isSome_iff_exists.1 hlive
    rw [capacity_resize hmoved]
    exact ⟨homeIndex capacity e.hash, homeIndex_lt hcapacity e.hash,
      List.mem_filter.2 ⟨h.mem_flatMap_iff.2 hlive, (isAt_of_get? hget).2 rfl⟩⟩

end Threads

/-- All that a move does to a table whose entries hang in chains, whatever else may be wrong with
it.

The move comes to an end without meeting a dead link, and there are as many buckets as asked for.
Each of them heads a path that is made of the old chains, bucket after bucket, as far as the low
bits of the hashes put their entries there, and it counts the entries on it; the last of them links
to none. Every entry is on exactly one of these paths, each entry that was there is there once, and
no link leads but to the next entry of its path. Handles name the same keys, values and hashes as
before. -/
theorem resize_of_threads (h : t.Threads chains) (hcapacity : 0 < capacity) :
    ∃ moved, t.resize capacity = .ok moved ∧
    let chains' := fun i => (List.range t.capacity).flatMap fun j =>
      (chains j).filter fun node =>
        (t.arena.get? node).any fun e => e.hash.toNat &&& (capacity - 1) == i
    moved.capacity = capacity ∧
    (∀ i < capacity, ∃ b, moved.buckets[i]? = some b ∧ moved.arena.Path b.first (chains' i) ∧
      b.length = (chains' i).length ∧
      ∀ last, (chains' i).getLast? = some last → moved.arena.nextOf? last = some none) ∧
    moved.Threads chains' ∧
    ((List.range capacity).flatMap chains').Perm ((List.range t.capacity).flatMap chains) ∧
    (∀ node link, moved.arena.nextOf? node = some link → ∃ i < capacity, ∃ before after,
      chains' i = before ++ node :: after ∧ link = after.head?) ∧
    (∀ node, (moved.arena.get? node).map (fun e => (e.key, e.value, e.hash)) =
      (t.arena.get? node).map fun e => (e.key, e.value, e.hash)) ∧
    moved.count = t.count ∧ moved.hasher = t.hasher ∧ moved.ceiling = t.ceiling := by
  obtain ⟨moved, hmoved⟩ := h.exists_resize hcapacity
  refine ⟨moved, hmoved, ?_⟩
  intro chains'
  have hchains : chains' = fun i =>
      ((List.range t.capacity).flatMap chains).filter (t.isAt capacity i) := by
    funext i
    rw [List.filter_flatMap]
    rfl
  have hpaths : moved.HeadsPaths chains' := hchains ▸ h.headsPaths_resize hcapacity hmoved
  have hthreads : moved.Threads chains' := hchains ▸ h.resize hcapacity hmoved
  have hsize : moved.capacity = capacity := capacity_resize hmoved
  refine ⟨hsize, fun i hi => ?_, hthreads, ?_, fun node link hnext => ?_,
    fun node => Entry.map_eq_of_cut (h.get?_resize hcapacity hmoved node) fun _ => rfl,
    h.count_resize hcapacity hmoved, hasher_resize hmoved, ceiling_resize hmoved⟩
  · obtain ⟨b, hb⟩ := exists_bucket (hsize.symm ▸ hi)
    obtain ⟨hpath, hlength⟩ := hpaths i b hb
    exact ⟨b, hb, hpath, hlength, fun last => hpath.nextOf?_of_getLast?⟩
  · have hnodup := hthreads.nodup_flatMap
    have hmem : ∀ node, node ∈ (List.range moved.capacity).flatMap chains' ↔
        (moved.arena.get? node).isSome = true := fun node => hthreads.mem_flatMap_iff
    rw [hsize] at hnodup hmem
    refine (List.perm_ext_iff_of_nodup hnodup h.nodup_flatMap).2 fun node => ?_
    rw [hmem, h.mem_flatMap_iff, h.isSome_get?_resize hcapacity hmoved]
  · rw [← hsize]
    exact hthreads.exists_link hnext

end Table

end AnyStorage

namespace Table

/-- Three buckets that count wrongly, with entries in buckets where their hashes do not put them:
after a move to four, the ends of two old chains meet in one new chain, in the order of the old
buckets. -/
theorem resize_of_threads_of_tagged_keys :
    let entry (digest : UInt64) (next : Option Handle) : Entry TaggedKey Nat :=
      ⟨⟨digest, "a", "key"⟩, 0, digest, next⟩
    let arena := (((Arena.empty.insert (entry 1 (some ⟨1, 0⟩))).2.insert (entry 6 none)).2.insert
      (entry 2 none)).2
    let t : Table TaggedKey Nat :=
      ⟨TaggedKey.digest, #[⟨some ⟨0, 0⟩, 7⟩, ⟨none, 3⟩, ⟨some ⟨2, 0⟩, 0⟩], arena, 64⟩
    let chains : Nat → List Handle
      | 0 => [⟨0, 0⟩, ⟨1, 0⟩]
      | 2 => [⟨2, 0⟩]
      | _ => []
    t.Threads chains ∧ ∃ moved, t.resize 4 = .ok moved ∧ moved.capacity = 4 ∧
      ∃ b, moved.buckets[2]? = some b ∧ moved.arena.Path b.first [⟨1, 0⟩, ⟨2, 0⟩] ∧
        b.length = 2 := by
  intro entry arena t chains
  have h : t.Threads chains := by
    refine ⟨fun i b hb => ?_, by decide, fun node hlive => ?_⟩
    · rcases i with _ | _ | _ | i
      · obtain rfl := Option.some.inj hb
        exact .cons rfl (.cons rfl .nil)
      · obtain rfl := Option.some.inj hb
        exact .nil
      · obtain rfl := Option.some.inj hb
        exact .cons rfl .nil
      · exact absurd hb (by simp [t])
    · -- The entries that there are, one after the other.
      have hmem : node ∈ [⟨0, 0⟩, ⟨1, 0⟩, ⟨2, 0⟩] := Arena.mem_handles_iff.2 hlive
      simp only [List.mem_cons, List.not_mem_nil, or_false] at hmem
      obtain rfl | rfl | rfl := hmem
      · exact ⟨0, by decide, by decide⟩
      · exact ⟨0, by decide, by decide⟩
      · exact ⟨2, by decide, by decide⟩
  obtain ⟨moved, hmoved, hcapacity, hbuckets, -⟩ := resize_of_threads h (show 0 < 4 by decide)
  obtain ⟨b, hb, hpath, hlength, -⟩ := hbuckets 2 (by decide)
  refine ⟨h, moved, hmoved, hcapacity, b, hb, ?_, hlength.trans (by decide)⟩
  convert hpath using 1
  decide

end Table

end BulkLookup
