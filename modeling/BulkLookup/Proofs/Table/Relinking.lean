import BulkLookup.Proofs.Table.Editing
import Mathlib.Data.List.Nodup

/-!
# Moving to other buckets

A move reads the old chains while it takes them apart: each entry is cut off and hung behind its new
chain, and the link that led on from it has been read just before. At every moment the arena is
split into new chains, made of the entries moved so far in the order in which they were met, and
entries that no one has touched yet. `Relinking.Carries` says this. A move that has come that far
can go on, for all that it needs is there; so it ends, with every entry moved.

## Main definitions

* `Relinking.Carries` — how far a move has come

## Main results

* `Relinking.Carries.append` — what one step does
* `Relinking.Carries.appendBuckets` — the move meets no dead link, and carries all entries
-/

namespace BulkLookup

variable [Storage] {κ ν : Type}

/-- An entry without its link. -/
def Entry.cut (e : Entry κ ν) : Entry κ ν := { e with next := none }

/-- Entries that differ in their links only are the same in all else. -/
theorem Entry.map_eq_of_cut {α : Type*} {first second : Option (Entry κ ν)} {f : Entry κ ν → α}
    (hcut : first.map Entry.cut = second.map Entry.cut) (hf : ∀ e : Entry κ ν, f e.cut = f e) :
    first.map f = second.map f := by
  have hmap := congrArg (Option.map f) hcut
  rwa [Option.map_map, Option.map_map, (funext hf : f ∘ Entry.cut = f)] at hmap

namespace Table

variable {t : Table κ ν}

/-- Whether the hash of an entry puts it into the bucket `i` among `capacity` buckets. -/
def isAt (t : Table κ ν) (capacity i : Nat) (node : Handle) : Bool :=
  (t.arena.get? node).any fun e => homeIndex capacity e.hash == i

theorem isAt_of_get? {node : Handle} {e : Entry κ ν} (hget : t.arena.get? node = some e)
    {capacity i : Nat} : t.isAt capacity i node = true ↔ homeIndex capacity e.hash = i := by
  rw [isAt, hget, Option.any_some, beq_iff_eq]

/-- One more entry adds to the share of its own bucket, and to no other. -/
theorem filter_isAt_concat {node : Handle} {e : Entry κ ν} (hget : t.arena.get? node = some e)
    (nodes : List Handle) (capacity i : Nat) :
    (nodes ++ [node]).filter (t.isAt capacity i) =
      if homeIndex capacity e.hash = i then nodes.filter (t.isAt capacity i) ++ [node]
      else nodes.filter (t.isAt capacity i) := by
  rw [List.filter_append]
  split
  · next hi => rw [List.filter_cons_of_pos ((isAt_of_get? hget).2 hi), List.filter_nil]
  · next hi =>
    rw [List.filter_cons_of_neg fun hat => hi ((isAt_of_get? hget).1 hat), List.filter_nil,
      List.append_nil]

end Table

namespace Relinking

/-! ### Hanging one entry behind a new chain -/

section Append

variable {r : Relinking κ ν} {node : Handle} {hash : UInt64}

theorem get?_append (htail : r.tailOf hash ≠ some node) (other : Handle) :
    (r.append node hash).arena.get? other =
      if other = node then (r.arena.get? other).map Entry.cut
      else if r.tailOf hash = some other then
        (r.arena.get? other).map fun e => { e with next := some node }
      else r.arena.get? other := by
  obtain ⟨arena, buckets, tails⟩ := r
  simp only [tailOf] at htail ⊢
  simp only [append]
  split
  · next last hlast =>
    simp only [hlast, Option.some.injEq, Arena.get?_modify] at htail ⊢
    by_cases hother : other = last
    · obtain rfl := hother
      have hne : other ≠ node := fun heq => htail (congrArg some heq)
      rw [if_pos rfl, if_neg hne, if_neg hne, if_pos rfl]
    · rw [if_neg hother, if_neg (Ne.symm hother)]
      rfl
  · next hnone =>
    simp only [hnone, reduceCtorEq, if_false]
    exact arena.get?_modify node other _

theorem buckets_append (r : Relinking κ ν) (node : Handle) (hash : UInt64) :
    (r.append node hash).buckets = r.buckets.modify (homeIndex r.buckets.size hash) fun b =>
      ⟨(r.tailOf hash).elim (some node) fun _ => b.first, b.length + 1⟩ := by
  obtain ⟨arena, buckets, tails⟩ := r
  simp only [append, tailOf]
  split <;> next h => rw [h]; rfl

theorem tails_append (r : Relinking κ ν) (node : Handle) (hash : UInt64) :
    (r.append node hash).tails =
      r.tails.setIfInBounds (homeIndex r.buckets.size hash) (some node) := by
  obtain ⟨arena, buckets, tails⟩ := r
  simp only [append]
  split <;> rfl

theorem size_arena_append (r : Relinking κ ν) (node : Handle) (hash : UInt64) :
    (r.append node hash).arena.size = r.arena.size := by
  obtain ⟨arena, buckets, tails⟩ := r
  simp only [append]
  split <;> simp only [Arena.size_modify]

theorem nextOf?_append (htail : r.tailOf hash ≠ some node) {other : Handle} (hother : other ≠ node)
    (hlive : (r.arena.get? other).isSome) :
    (r.append node hash).arena.nextOf? other =
      if r.tailOf hash = some other then some (some node) else r.arena.nextOf? other := by
  obtain ⟨e, hget⟩ := Option.isSome_iff_exists.1 hlive
  rw [Arena.nextOf?, Arena.nextOf?, get?_append htail, if_neg hother, hget]
  split <;> rfl

end Append

/-! ### How far a move has come -/

/-- A move of `t` to `capacity` buckets, in which the entries behind the handles `done` were moved,
in this order: they make up the new chains, and nothing else was touched. -/
structure Carries (r : Relinking κ ν) (t : Table κ ν) (capacity : Nat) (done : List Handle) :
    Prop where
  size_buckets : r.buckets.size = capacity
  size_tails : r.tails.size = capacity
  size_arena : r.arena.size = t.arena.size
  /-- No entry changes but for its link. -/
  cut_get? : ∀ node, (r.arena.get? node).map Entry.cut = (t.arena.get? node).map Entry.cut
  /-- Entries still to be moved do not even change their link. -/
  get?_of_notMem : ∀ node ∉ done, r.arena.get? node = t.arena.get? node
  /-- The handles moved so far named entries. -/
  isSome_get? : ∀ node ∈ done, (t.arena.get? node).isSome
  /-- Each new bucket heads its share of the entries moved so far. -/
  path : ∀ i b, r.buckets[i]? = some b →
    r.arena.Path b.first (done.filter (t.isAt capacity i)) ∧
      b.length = (done.filter (t.isAt capacity i)).length
  /-- The last one of each share is known. -/
  tail : ∀ i < capacity, r.tails[i]?.join = (done.filter (t.isAt capacity i)).getLast?

namespace Carries

variable {r : Relinking κ ν} {t : Table κ ν} {capacity : Nat} {done : List Handle}

/-- A move has carried nothing when it starts. -/
theorem start (t : Table κ ν) (capacity : Nat) :
    (Relinking.start t.arena capacity).Carries t capacity [] where
  size_buckets := by simp [Relinking.start]
  size_tails := by simp [Relinking.start]
  size_arena := rfl
  cut_get? _ := rfl
  get?_of_notMem _ _ := rfl
  isSome_get? := by simp
  path i b hb := by
    obtain ⟨-, rfl⟩ : _ ∧ Bucket.empty = b := by
      simpa [Relinking.start, Array.getElem?_replicate] using hb
    exact ⟨.nil, rfl⟩
  tail i hi := by simp [Relinking.start, hi]

/-- What a handle names during a move is what it named before, but for the link. -/
theorem exists_get? (h : r.Carries t capacity done) {node : Handle} {e : Entry κ ν}
    (hget : r.arena.get? node = some e) :
    ∃ e₀, t.arena.get? node = some e₀ ∧ e.key = e₀.key ∧ e.value = e₀.value ∧ e.hash = e₀.hash := by
  have hcut := h.cut_get? node
  rw [hget, Option.map_some, eq_comm, Option.map_eq_some_iff] at hcut
  obtain ⟨e₀, hget₀, heq⟩ := hcut
  obtain ⟨hkey, hvalue, hhash, -⟩ := Entry.mk.injEq .. ▸ heq
  exact ⟨e₀, hget₀, hkey.symm, hvalue.symm, hhash.symm⟩

theorem isSome_get?_eq (h : r.Carries t capacity done) (node : Handle) :
    (r.arena.get? node).isSome = (t.arena.get? node).isSome := by
  have hcut := congrArg Option.isSome (h.cut_get? node)
  rwa [Option.isSome_map, Option.isSome_map] at hcut

theorem tailOf_eq (h : r.Carries t capacity done) (hcapacity : 0 < capacity) (hash : UInt64) :
    r.tailOf hash = (done.filter (t.isAt capacity (homeIndex capacity hash))).getLast? := by
  rw [tailOf, h.size_buckets]
  exact h.tail _ (homeIndex_lt hcapacity hash)

/-- The end of a new chain is an entry that was moved. -/
theorem mem_of_tailOf_eq (h : r.Carries t capacity done) (hcapacity : 0 < capacity) {hash : UInt64}
    {last : Handle} (hlast : r.tailOf hash = some last) : last ∈ done := by
  rw [h.tailOf_eq hcapacity] at hlast
  exact (List.mem_filter.1 (List.mem_of_getLast? hlast)).1

theorem tailOf_ne (h : r.Carries t capacity done) (hcapacity : 0 < capacity) {node : Handle}
    (hnode : node ∉ done) (hash : UInt64) : r.tailOf hash ≠ some node :=
  fun hlast => hnode (h.mem_of_tailOf_eq hcapacity hlast)

/-- Of the entries moved so far, the next one changes the link of the last in its own share only. -/
theorem nextOf?_append (h : r.Carries t capacity done) (hcapacity : 0 < capacity)
    {node other : Handle} (hnode : node ∉ done) (hother : other ∈ done) (hash : UInt64) :
    (r.append node hash).arena.nextOf? other =
      if (done.filter (t.isAt capacity (homeIndex capacity hash))).getLast? = some other then
        some (some node)
      else r.arena.nextOf? other := by
  have hne : other ≠ node := by
    rintro rfl
    exact hnode hother
  have hlive : (r.arena.get? other).isSome := by
    rw [h.isSome_get?_eq]
    exact h.isSome_get? other hother
  rw [Relinking.nextOf?_append (h.tailOf_ne hcapacity hnode hash) hne hlive,
    h.tailOf_eq hcapacity]

/-- The share of the bucket of an entry, with that entry at its end. -/
theorem path_append_self (h : r.Carries t capacity done) (hcapacity : 0 < capacity) {node : Handle}
    {e : Entry κ ν} (hget : t.arena.get? node = some e) (hnode : node ∉ done) {b : Bucket}
    (hb : r.buckets[homeIndex capacity e.hash]? = some b) :
    (r.append node e.hash).arena.Path ((r.tailOf e.hash).elim (some node) fun _ => b.first)
      (done.filter (t.isAt capacity (homeIndex capacity e.hash)) ++ [node]) := by
  obtain ⟨hpath, -⟩ := h.path _ b hb
  have hend : (r.append node e.hash).arena.nextOf? node = some none := by
    rw [Arena.nextOf?, get?_append (h.tailOf_ne hcapacity hnode e.hash), if_pos rfl,
      h.get?_of_notMem node hnode, hget]
    rfl
  have hpath' := hpath.append_singleton hend fun other hmem =>
    h.nextOf?_append hcapacity hnode (List.mem_filter.1 hmem).1 e.hash
  -- The bucket takes the entry as its first one if it had none.
  rw [← h.tailOf_eq hcapacity] at hpath'
  exact hpath'

/-- The share of any other bucket. -/
theorem path_append_of_ne (h : r.Carries t capacity done) (hcapacity : 0 < capacity) {node : Handle}
    {hash : UInt64} (hnode : node ∉ done) {i : Nat} (hi : homeIndex capacity hash ≠ i) {b : Bucket}
    (hb : r.buckets[i]? = some b) :
    (r.append node hash).arena.Path b.first (done.filter (t.isAt capacity i)) := by
  obtain ⟨hpath, -⟩ := h.path i b hb
  apply hpath.congr
  intro other hmem
  obtain ⟨hother, hat⟩ := List.mem_filter.1 hmem
  rw [h.nextOf?_append hcapacity hnode hother, if_neg]
  -- The entry that got a new link belongs to another share.
  intro hlast
  have hat' := (List.mem_filter.1 (List.mem_of_getLast? hlast)).2
  obtain ⟨e, hget⟩ := Option.isSome_iff_exists.1 (h.isSome_get? other hother)
  rw [Table.isAt_of_get? hget] at hat hat'
  exact hi (hat'.symm.trans hat)

/-- One more entry is moved. -/
theorem append (h : r.Carries t capacity done) (hcapacity : 0 < capacity) {node : Handle}
    {e : Entry κ ν} (hget : t.arena.get? node = some e) (hnode : node ∉ done) :
    (r.append node e.hash).Carries t capacity (done ++ [node]) := by
  have htail := h.tailOf_ne hcapacity hnode e.hash
  constructor
  · rw [size_buckets_append, h.size_buckets]
  · rw [tails_append, Array.size_setIfInBounds, h.size_tails]
  · rw [size_arena_append, h.size_arena]
  -- Only links change: that of the entry itself, and that of the last in its share.
  · intro other
    rw [get?_append htail, ← h.cut_get? other]
    split
    · rw [Option.map_map]
      rfl
    · split
      · rw [Option.map_map]
        rfl
      · rfl
  · intro other hother
    rw [List.mem_append, List.mem_singleton, not_or] at hother
    rw [get?_append htail, if_neg hother.2, if_neg, h.get?_of_notMem other hother.1]
    exact fun hlast => hother.1 (h.mem_of_tailOf_eq hcapacity hlast)
  · intro other hother
    rcases List.mem_append.1 hother with hother | hother
    · exact h.isSome_get? other hother
    · rw [List.mem_singleton.1 hother, hget]
      rfl
  -- The bucket of the entry gets one more, all others stay as they are.
  · intro i b' hb'
    rw [buckets_append, Array.getElem?_modify, h.size_buckets] at hb'
    rw [Table.filter_isAt_concat hget]
    by_cases hi : homeIndex capacity e.hash = i
    · obtain rfl := hi
      rw [if_pos rfl, Option.map_eq_some_iff] at hb'
      obtain ⟨b, hb, rfl⟩ := hb'
      rw [if_pos rfl, List.length_append, List.length_singleton, (h.path _ b hb).2]
      exact ⟨h.path_append_self hcapacity hget hnode hb, rfl⟩
    · rw [if_neg hi] at hb' ⊢
      exact ⟨h.path_append_of_ne hcapacity hnode hi hb', (h.path i b' hb').2⟩
  · intro i hi
    rw [tails_append, h.size_buckets, Table.filter_isAt_concat hget, Array.getElem?_setIfInBounds]
    split
    · rw [if_pos (h.size_tails ▸ homeIndex_lt hcapacity e.hash), List.getLast?_concat,
        Option.join_some]
    · exact h.tail i hi

/-! ### Moving many entries -/

variable {link : Option Handle} {steps : Nat} {nodes : List Handle}

/-- Moving one more entry meets no dead handle. -/
theorem tryAppend (h : r.Carries t capacity done) (hcapacity : 0 < capacity) {node : Handle}
    {e : Entry κ ν} (hget : t.arena.get? node = some e) (hnode : node ∉ done) :
    ∃ r', r.tryAppend node e.hash = .ok r' ∧ r'.Carries t capacity (done ++ [node]) := by
  have hhome := homeIndex_lt hcapacity e.hash
  have hlive : ∀ last ∈ r.tailOf e.hash, (r.arena.get? last).isSome := by
    intro last hlast
    rw [h.isSome_get?_eq]
    exact h.isSome_get? last (h.mem_of_tailOf_eq hcapacity hlast)
  refine ⟨r.append node e.hash, ?_, h.append hcapacity hget hnode⟩
  rw [Relinking.tryAppend, h.size_buckets, h.size_tails, if_pos]
  refine ⟨hhome, hhome, ?_, ?_⟩
  · rw [h.isSome_get?_eq, hget]
    rfl
  · rw [Option.all_eq_true]
    exact hlive

/-- Moving an old chain meets no dead handle, and moves all its entries in order. -/
theorem appendChain (h : r.Carries t capacity done) (hcapacity : 0 < capacity)
    (hpath : t.arena.Path link nodes) (hsteps : nodes.length ≤ steps)
    (hnew : ∀ node ∈ nodes, node ∉ done) :
    ∃ r', r.appendChain steps link = .ok r' ∧ r'.Carries t capacity (done ++ nodes) := by
  have hnodup := hpath.nodup
  induction nodes generalizing r link steps done with
  | nil =>
    obtain rfl := Arena.path_nil_iff.1 hpath
    refine ⟨r, by cases steps <;> rfl, ?_⟩
    rwa [List.append_nil]
  | cons node rest ih =>
    obtain ⟨steps, rfl⟩ := Nat.exists_eq_add_one_of_ne_zero (Nat.ne_zero_of_lt hsteps)
    obtain ⟨rfl, next, hnext, hrest⟩ := Arena.path_cons_iff.1 hpath
    obtain ⟨e, hget, rfl⟩ := Option.map_eq_some_iff.1 hnext
    obtain ⟨hfresh, hnodup⟩ := List.nodup_cons.1 hnodup
    have hnode := hnew node List.mem_cons_self
    obtain ⟨r₁, happend, h₁⟩ := h.tryAppend hcapacity hget hnode
    -- The rest of the chain does not come back to the entry just moved.
    have hnew₁ : ∀ other ∈ rest, other ∉ done ++ [node] := by
      intro other hmem hdone
      rcases List.mem_append.1 hdone with hdone | heq
      · exact hnew other (List.mem_cons_of_mem _ hmem) hdone
      · exact hfresh (List.mem_singleton.1 heq ▸ hmem)
    obtain ⟨r₂, hchain, h₂⟩ := ih h₁ hrest (Nat.le_of_succ_le_succ hsteps) hnew₁ hnodup
    rw [List.append_assoc, List.singleton_append] at h₂
    refine ⟨r₂, ?_, h₂⟩
    -- The link out of the entry is read before it changes.
    have hget' : r.arena.get? node = some e := by rw [h.get?_of_notMem node hnode, hget]
    simp only [Relinking.appendChain, hget']
    exact Except.bind_eq_ok.2 ⟨r₁, happend, hchain⟩

/-- Moving all old chains meets no dead handle, and moves their entries chain after chain. -/
theorem appendBuckets (h : r.Carries t capacity done) (hcapacity : 0 < capacity)
    {old : Array Bucket} {chains : List (List Handle)}
    (hpaths : List.Forall₂ (fun b nodes => t.arena.Path b.first nodes ∧ nodes.length ≤ steps)
      old.toList chains)
    (hnodup : (done ++ chains.flatten).Nodup) :
    ∃ r', r.appendBuckets steps old = .ok r' ∧
      r'.Carries t capacity (done ++ chains.flatten) := by
  obtain ⟨old⟩ := old
  change List.Forall₂ _ old chains at hpaths
  simp only [Relinking.appendBuckets, List.foldlM_toArray']
  induction hpaths generalizing r done with
  | nil =>
    refine ⟨r, rfl, ?_⟩
    rwa [List.flatten_nil, List.append_nil]
  | @cons b nodes old chains hb _ ih =>
    rw [List.flatten_cons, ← List.append_assoc] at hnodup ⊢
    have hnew : ∀ node ∈ nodes, node ∉ done := fun node hmem hdone =>
      (List.nodup_append.1 (List.nodup_append.1 hnodup).1).2.2 node hdone node hmem rfl
    obtain ⟨r₁, hchain, h₁⟩ := h.appendChain hcapacity hb.1 hb.2 hnew
    obtain ⟨r₂, hrest, h₂⟩ := ih h₁ hnodup
    refine ⟨r₂, ?_, h₂⟩
    rw [List.foldlM_cons]
    exact Except.bind_eq_ok.2 ⟨r₁, hchain, hrest⟩

end Carries

end Relinking

end BulkLookup
