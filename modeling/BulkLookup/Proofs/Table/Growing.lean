import BulkLookup.Proofs.Table.Resizing

/-!
# Well-formed tables as they grow

After a move each chain is made of the entries of all old chains, one chain after the other, as far
as their hashes put them there. When the number of buckets doubles, all entries of a new chain come
from one old chain, so that they keep their order.

## Main definitions

* `Table.handles` — the handles of all entries, chain after chain

## Main results

* `Table.WellFormed.exists_resize`, `Table.WellFormed.exists_grow` — a well-formed table meets no
  dead link as it moves and grows
* `Table.WellFormed.chain_resize` — the new chains, out of the old ones in order
* `Table.WellFormed.chain_double` — each chain of a doubled table out of one old chain
* `Table.grow_induction`, `Table.WellFormed.grow_induction` — what outlasts every doubling outlasts
  growing
* `Table.WellFormed.grow`, `Table.WellFormed.count_grow`, `Table.WellFormed.pair?_grow` — a
  well-formed table stays well formed as it grows, and keeps its pairs
-/

namespace BulkLookup

variable [Storage] {κ ν : Type}

/-! ### Moving a whole table -/

namespace Table

variable {t moved : Table κ ν} {capacity : Nat}

/-- The handles of all entries, chain after chain. -/
def handles (t : Table κ ν) : List Handle := (List.range t.capacity).flatMap t.chain

/-- In an orderly table, every entry is in the chain of exactly one bucket. -/
theorem Orderly.threads [BEq κ] (ht : t.Orderly) : t.Threads t.chain where
  path i b hb := (ht.path_chain i b hb).1
  eq_of_mem _ hi _ hj _ hmem hmem' := ht.eq_of_mem_chain hi hj hmem hmem'
  exists_mem node hlive := by
    obtain ⟨e, hget⟩ := Option.isSome_iff_exists.1 hlive
    exact ⟨_, ht.homeIndex_lt_capacity e.hash, ht.mem_chain_homeIndex hget⟩

namespace WellFormed

variable [BEq κ]

theorem mem_handles_iff (ht : t.WellFormed) {node : Handle} :
    node ∈ t.handles ↔ (t.arena.get? node).isSome :=
  ht.threads.mem_flatMap_iff

/-- No handle occurs twice among those of all entries. -/
theorem nodup_handles (ht : t.WellFormed) : t.handles.Nodup := ht.threads.nodup_flatMap

/-- A move meets no dead link. -/
theorem exists_resize (ht : t.WellFormed) (hcapacity : 0 < capacity) :
    ∃ moved, t.resize capacity = .ok moved :=
  ht.threads.exists_resize hcapacity

theorem headsPaths_resize (ht : t.WellFormed) (hcapacity : 0 < capacity)
    (hmoved : t.resize capacity = .ok moved) :
    moved.HeadsPaths fun i => t.handles.filter (t.isAt capacity i) :=
  ht.threads.headsPaths_resize hcapacity hmoved

/-- The chains after a move: the entries of all old chains in order, each in its bucket. -/
theorem chain_resize (ht : t.WellFormed) (hmoved : t.resize capacity = .ok moved) {i : Nat}
    (hi : i < capacity) : moved.chain i = t.handles.filter (t.isAt capacity i) :=
  (ht.headsPaths_resize (Nat.zero_lt_of_lt hi) hmoved).chain_eq (by rwa [capacity_resize hmoved])

theorem count_resize (ht : t.WellFormed) (hcapacity : 0 < capacity)
    (hmoved : t.resize capacity = .ok moved) : moved.count = t.count :=
  ht.threads.count_resize hcapacity hmoved

theorem get?_resize (ht : t.WellFormed) (hcapacity : 0 < capacity)
    (hmoved : t.resize capacity = .ok moved) (node : Handle) :
    (moved.arena.get? node).map Entry.cut = (t.arena.get? node).map Entry.cut :=
  ht.threads.get?_resize hcapacity hmoved node

/-- A move changes no pair. -/
theorem pair?_resize (ht : t.WellFormed) (hcapacity : 0 < capacity)
    (hmoved : t.resize capacity = .ok moved) (node : Handle) :
    moved.pair? node = t.pair? node :=
  Entry.map_eq_of_cut (ht.get?_resize hcapacity hmoved node) fun _ => rfl

/-- Every entry after a move is an old one, with its key and hash. -/
theorem exists_get?_of_resize (ht : t.WellFormed) (hcapacity : 0 < capacity)
    (hmoved : t.resize capacity = .ok moved) {node : Handle} {e : Entry κ ν}
    (hget : moved.arena.get? node = some e) :
    ∃ e₀, t.arena.get? node = some e₀ ∧ e.key = e₀.key ∧ e.hash = e₀.hash := by
  obtain ⟨r, hcarries, -, harena⟩ := ht.threads.carries_resize hcapacity hmoved
  rw [harena] at hget
  obtain ⟨e₀, hget₀, hkey, -, hhash⟩ := hcarries.exists_get? hget
  exact ⟨e₀, hget₀, hkey, hhash⟩

/-- A table stays well formed when it moves to a number of buckets that is a power of two. -/
theorem resize (ht : t.WellFormed) (hcapacity : capacity.isPowerOfTwo)
    (hmoved : t.resize capacity = .ok moved) : moved.WellFormed where
  toOrderly := by
    have hpos : 0 < capacity := Nat.pos_of_isPowerOfTwo hcapacity
    refine ht.of_entries (by rwa [capacity_resize hmoved]) (hasher_resize hmoved)
      (fun node e => ht.exists_get?_of_resize hpos hmoved) (ht.headsPaths_resize hpos hmoved)
      fun node e hget i _ => ?_
    obtain ⟨e₀, hget₀, -, hhash⟩ := ht.exists_get?_of_resize hpos hmoved hget
    rw [capacity_resize hmoved, List.mem_filter, ht.mem_handles_iff, isAt_of_get? hget₀, hget₀,
      hhash]
    exact and_iff_right rfl
  capacity_isPowerOfTwo := by rwa [capacity_resize hmoved]

/-! ### Doubling -/

theorem isPowerOfTwo_double (ht : t.WellFormed) : (2 * t.capacity).isPowerOfTwo := by
  rw [Nat.mul_comm]
  exact Nat.isPowerOfTwo_mul_two_of_isPowerOfTwo ht.capacity_isPowerOfTwo

/-- Twice as many buckets read one more bit of a hash. -/
theorem homeIndex_double (ht : t.WellFormed) (hash : UInt64) :
    homeIndex (2 * t.capacity) hash % t.capacity = homeIndex t.capacity hash := by
  rw [homeIndex_eq_mod ht.isPowerOfTwo_double, homeIndex_eq_mod ht.capacity_isPowerOfTwo]
  exact Nat.mod_mod_of_dvd _ (Nat.dvd_mul_left t.capacity 2)

/-- When the buckets double, every new chain is a part of one old chain, in its order. -/
theorem chain_double (ht : t.WellFormed) (hmoved : t.resize (2 * t.capacity) = .ok moved) {i : Nat}
    (hi : i < 2 * t.capacity) :
    moved.chain i = (t.chain (i % t.capacity)).filter (t.isAt (2 * t.capacity) i) := by
  have hhome : i % t.capacity < t.capacity := Nat.mod_lt _ ht.capacity_pos
  -- The old chains are read in order: some before the one in question, and some behind it.
  obtain ⟨before, after, hrange⟩ := List.append_of_mem (List.mem_range.2 hhome)
  have hnodup := hrange ▸ List.nodup_range (n := t.capacity)
  obtain ⟨hbefore, hafter⟩ : i % t.capacity ∉ before ∧ i % t.capacity ∉ after := by
    have := (List.nodup_middle.1 hnodup).notMem
    rwa [List.mem_append, not_or] at this
  -- The entries of any other old chain go elsewhere.
  have hothers : ∀ js : List Nat, (∀ j ∈ js, j ∈ List.range t.capacity) → i % t.capacity ∉ js →
      (js.flatMap t.chain).filter (t.isAt (2 * t.capacity) i) = [] := by
    intro js hrange hnot
    refine List.filter_eq_nil_iff.2 fun node hmem hat => hnot ?_
    obtain ⟨j, hj, hmem⟩ := List.mem_flatMap.1 hmem
    have hlt := List.mem_range.1 (hrange j hj)
    obtain ⟨e, hget⟩ := Option.isSome_iff_exists.1 (ht.isSome_get?_of_mem hlt hmem)
    rw [← (isAt_of_get? hget).1 hat, ht.homeIndex_double, ht.eq_homeIndex_of_mem hget hlt hmem]
    exact hj
  rw [ht.chain_resize hmoved hi, handles, hrange, List.flatMap_append, List.flatMap_cons,
    List.filter_append, List.filter_append, hothers before, hothers after, List.append_nil,
    List.nil_append]
  · intro j hj
    rw [hrange]
    exact List.mem_append_right _ (List.mem_cons_of_mem _ hj)
  · exact hafter
  · intro j hj
    rw [hrange]
    exact List.mem_append_left _ hj
  · exact hbefore

/-- The buckets of a well-formed table can be doubled. -/
theorem exists_double (ht : t.WellFormed) : ∃ moved, t.resize (2 * t.capacity) = .ok moved :=
  ht.exists_resize (Nat.mul_pos Nat.two_pos ht.capacity_pos)

/-- A table stays well formed when its buckets double. -/
theorem resize_double (ht : t.WellFormed) (hmoved : t.resize (2 * t.capacity) = .ok moved) :
    moved.WellFormed :=
  ht.resize ht.isPowerOfTwo_double hmoved

end WellFormed

/-! ### Growing -/

/-- Whether a table is due to double, and may. -/
def IsDue (t : Table κ ν) : Prop :=
  t.isOverloaded = true ∧ 0 < t.capacity ∧ 2 * t.capacity ≤ t.ceiling

instance (t : Table κ ν) : Decidable t.IsDue := inferInstanceAs (Decidable (_ ∧ _))

/-- What growing comes to: the buckets are doubled first if the table is due to, and the doubling is
reported before all else. -/
theorem grow_of_isDue (h : t.IsDue) (hmoved : t.resize (2 * t.capacity) = .ok moved) :
    t.grow = moved.grow.map fun (grown, events) =>
      (grown, #[.resized t.capacity (2 * t.capacity) t.count] ++ events) := by
  obtain ⟨hload, hroom⟩ := h
  rw [grow, if_pos hload, dif_pos hroom]
  split
  · next hfault => cases hmoved.symm.trans hfault
  · next hmoved' => rw [Except.ok.inj (hmoved.symm.trans hmoved')]

/-- A table that does not double is left as it is, which it reports at most once. -/
theorem grow_of_not_isDue (h : ¬ t.IsDue) :
    t.grow = .ok (t, if t.isOverloaded = true ∧ 2 * (t.count - 1) ≤ t.capacity then
      #[.ceilingReached t.capacity t.count] else #[]) := by
  rw [grow]
  by_cases hload : t.isOverloaded = true
  · rw [if_pos hload, dif_neg fun hroom => h ⟨hload, hroom⟩]
    by_cases hfirst : 2 * (t.count - 1) ≤ t.capacity
    · rw [if_pos hfirst, if_pos ⟨hload, hfirst⟩]
    · rw [if_neg hfirst, if_neg fun hreport => hfirst hreport.2]
  · rw [if_neg hload, if_neg fun hreport => hload hreport.1]

/-- A well-formed table meets no dead link as it grows. -/
theorem WellFormed.exists_grow [BEq κ] (ht : t.WellFormed) :
    ∃ grown events, t.grow = .ok (grown, events) := by
  fun_induction grow t with
  | case1 t capacity hload hroom fault hfault =>
    obtain ⟨moved, hmoved⟩ := ht.exists_double
    cases hmoved.symm.trans hfault
  | case2 t items capacity hload hroom moved hmoved ih =>
    obtain ⟨grown, events, hgrown⟩ := ih (ht.resize_double hmoved)
    rw [hgrown]
    exact ⟨grown, _, rfl⟩
  | case3 t => exact ⟨t, _, rfl⟩
  | case4 t => exact ⟨t, _, rfl⟩
  | case5 t => exact ⟨t, _, rfl⟩

/-- What holds of a table and outlasts every doubling holds when the table has grown. -/
theorem grow_induction {P : Table κ ν → Prop}
    (hstep : ∀ t moved, t.resize (2 * t.capacity) = .ok moved → P t → P moved) (ht : P t)
    {grown : Table κ ν} {events : Array Event} (hgrown : t.grow = .ok (grown, events)) :
    P grown := by
  fun_induction grow t generalizing grown events with
  | case1 => cases hgrown
  | case2 t items capacity hload hroom moved hmoved =>
    rename_i ih
    obtain ⟨⟨grown', events'⟩, hgrown', heq⟩ := Except.map_eq_ok.1 hgrown
    obtain ⟨rfl, -⟩ := Prod.mk.inj heq
    exact ih (hstep t moved hmoved ht) hgrown'
  -- The buckets of these tables do not double any more.
  | case3 => cases hgrown; exact ht
  | case4 => cases hgrown; exact ht
  | case5 => cases hgrown; exact ht

variable {grown : Table κ ν} {events : Array Event}

theorem hasher_grow (hgrown : t.grow = .ok (grown, events)) : grown.hasher = t.hasher :=
  grow_induction (P := fun t' => t'.hasher = t.hasher)
    (fun _ _ hmoved h => (hasher_resize hmoved).trans h) rfl hgrown

theorem ceiling_grow (hgrown : t.grow = .ok (grown, events)) : grown.ceiling = t.ceiling :=
  grow_induction (P := fun t' => t'.ceiling = t.ceiling)
    (fun _ _ hmoved h => (ceiling_resize hmoved).trans h) rfl hgrown

variable [BEq κ]

namespace WellFormed

/-- A table stays well formed as it grows. -/
theorem grow (ht : t.WellFormed) (hgrown : t.grow = .ok (grown, events)) : grown.WellFormed :=
  grow_induction (fun _ _ hmoved ht => resize_double ht hmoved) ht hgrown

/-- What outlasts the doublings of well-formed tables outlasts growing. -/
theorem grow_induction {P : Table κ ν → Prop} (ht : t.WellFormed)
    (hgrown : t.grow = .ok (grown, events)) (hP : P t)
    (hstep : ∀ t' moved, t'.WellFormed → t'.resize (2 * t'.capacity) = .ok moved → P t' → P moved) :
    P grown := by
  have hkept : grown.WellFormed ∧ P grown := by
    refine Table.grow_induction (P := fun t' => t'.WellFormed ∧ P t') ?_ ⟨ht, hP⟩ hgrown
    rintro t' moved hmoved ⟨ht', hP'⟩
    exact ⟨ht'.resize_double hmoved, hstep t' moved ht' hmoved hP'⟩
  exact hkept.2

theorem count_grow (ht : t.WellFormed) (hgrown : t.grow = .ok (grown, events)) :
    grown.count = t.count := by
  refine ht.grow_induction (P := fun t' => t'.count = t.count) hgrown rfl ?_
  intro t' moved ht' hmoved hcount
  have hpos := Nat.mul_pos Nat.two_pos ht'.capacity_pos
  exact (ht'.count_resize hpos hmoved).trans hcount

/-- Growing changes no pair. -/
theorem pair?_grow (ht : t.WellFormed) (hgrown : t.grow = .ok (grown, events)) {node : Handle} :
    grown.pair? node = t.pair? node := by
  refine ht.grow_induction (P := fun t' => t'.pair? node = t.pair? node) hgrown rfl ?_
  intro t' moved ht' hmoved hpair
  have hpos := Nat.mul_pos Nat.two_pos ht'.capacity_pos
  exact (ht'.pair?_resize hpos hmoved node).trans hpair

end WellFormed

end Table

end BulkLookup
