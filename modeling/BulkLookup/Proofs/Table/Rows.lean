import BulkLookup.Proofs.Table.Performing

/-!
# The rows of a table

The rows of a table are its entries in the order in which they were first stored: each row gives a
handle and the pair behind it. `Table.Lists` says that a list is the list of rows of a table. It
ties the list to everything the table keeps: the live handles are those of the rows, each chain is
the part of the rows that belongs into its bucket, in their order, and the count is their number.

A row joins at the end, a row leaves where it is, and a new value stays in its row; growing leaves
the rows alone.

## Main definitions

* `Row`, `Table.share` — a handle with its pair, and the rows that belong into a bucket
* `Table.Lists` — the rows of a table

## Main results

* `Table.lists_withCeiling` — an empty table has no rows
* `Table.Lists.attach`, `Table.Lists.detach`, `Table.Lists.modifyValue`, `Table.Lists.grow` — the
  rows after a change
* `Table.Lists.search_cases` — a search finds the row of a key, if there is one
-/

namespace BulkLookup

variable [Storage]

/-- A handle and the pair behind it. -/
structure Row (κ ν : Type) where
  node : Handle
  pair : κ × ν

namespace Table

variable {κ ν : Type}

/-- The rows that belong into the bucket `i`. -/
def share (t : Table κ ν) (rows : List (Row κ ν)) (i : Nat) : List (Row κ ν) :=
  rows.filter fun row => homeIndex t.capacity (t.hasher row.pair.1) == i

/-- Whether a row is the one that a key means. -/
def isRowFor [BEq κ] (t : Table κ ν) (key : κ) (row : Row κ ν) : Bool :=
  t.hasher row.pair.1 == t.hasher key && row.pair.1 == key

/-- The rows of a table: its entries in the order in which they were first stored. -/
structure Lists [BEq κ] (t : Table κ ν) (rows : List (Row κ ν)) : Prop where
  wellFormed : t.WellFormed
  nodup : (rows.map Row.node).Nodup
  /-- The rows are the live handles with their pairs. -/
  mem_iff : ∀ row, row ∈ rows ↔ t.pair? row.node = some row.pair
  /-- A chain is the part of the rows that belongs into its bucket, in their order. -/
  chain_eq : ∀ i < t.capacity, t.chain i = (t.share rows i).map Row.node
  length_eq : rows.length = t.count

variable {t t' : Table κ ν} {rows before after : List (Row κ ν)} {row : Row κ ν}

theorem share_congr (hcapacity : t'.capacity = t.capacity) (hhasher : t'.hasher = t.hasher)
    (rows : List (Row κ ν)) (i : Nat) : t'.share rows i = t.share rows i := by
  rw [share, share, hcapacity, hhasher]

theorem share_append (t : Table κ ν) (rows rows' : List (Row κ ν)) (i : Nat) :
    t.share (rows ++ rows') i = t.share rows i ++ t.share rows' i :=
  List.filter_append rows rows'

theorem share_singleton (t : Table κ ν) (row : Row κ ν) (i : Nat) :
    t.share [row] i = if homeIndex t.capacity (t.hasher row.pair.1) = i then [row] else [] := by
  rw [share, List.filter_cons, List.filter_nil]
  simp only [beq_iff_eq]

theorem pair?_eq_some_iff {node : Handle} {pair : κ × ν} :
    t.pair? node = some pair ↔ ∃ e, t.arena.get? node = some e ∧ (e.key, e.value) = pair :=
  Option.map_eq_some_iff

variable [BEq κ]

theorem isRowFor_iff {key : κ} :
    t.isRowFor key row = true ↔
      t.hasher row.pair.1 = t.hasher key ∧ (row.pair.1 == key) = true := by
  rw [isRowFor, Bool.and_eq_true, beq_iff_eq]

/-- An empty table has no rows. -/
theorem lists_withCeiling (hasher : κ → UInt64) {ceiling : Nat} (hceiling : ceiling.isPowerOfTwo) :
    (withCeiling hasher ceiling : Table κ ν).Lists [] where
  wellFormed := wellFormed_withCeiling hasher hceiling
  nodup := .nil
  mem_iff row := by
    rw [pair?_eq_some_iff]
    simp [withCeiling]
  chain_eq i hi := by
    obtain ⟨b, hb⟩ := exists_bucket hi
    obtain ⟨-, rfl⟩ : _ ∧ Bucket.empty = b := by
      simpa [withCeiling, Array.getElem?_replicate] using hb
    rw [chain, hb]
    rfl
  length_eq := (count_withCeiling hasher ceiling).symm

namespace Lists

/-! ### Rows and entries -/

/-- Behind the handle of a row is an entry with the pair of the row, and with the hash of its
key. -/
theorem exists_entry (h : t.Lists rows) (hmem : row ∈ rows) :
    ∃ e, t.arena.get? row.node = some e ∧ (e.key, e.value) = row.pair ∧
      e.hash = t.hasher row.pair.1 := by
  obtain ⟨e, hget, hpair⟩ := pair?_eq_some_iff.1 ((h.mem_iff row).1 hmem)
  have hhash := h.wellFormed.hash_eq row.node e hget
  exact ⟨e, hget, hpair, by rw [hhash, ← hpair]⟩

/-- An entry is in a row. -/
theorem mem_of_get? (h : t.Lists rows) {node : Handle} {e : Entry κ ν}
    (hget : t.arena.get? node = some e) : ⟨node, e.key, e.value⟩ ∈ rows :=
  (h.mem_iff ⟨node, e.key, e.value⟩).2 (pair?_eq_some_iff.2 ⟨e, hget, rfl⟩)

theorem isFor_iff (h : t.Lists rows) (hmem : row ∈ rows) {e : Entry κ ν}
    (hget : t.arena.get? row.node = some e) {key : κ} :
    e.isFor (t.hasher key) key = true ↔ t.isRowFor key row = true := by
  obtain ⟨e', hget', hpair, hhash⟩ := h.exists_entry hmem
  obtain rfl := Option.some.inj (hget.symm.trans hget')
  rw [Entry.isFor_iff, isRowFor_iff, hhash, ← hpair]

/-- If no row is for a key, no entry is. -/
theorem not_isFor (h : t.Lists rows) {key : κ} (hnone : ∀ row ∈ rows, t.isRowFor key row = false)
    (node : Handle) (e : Entry κ ν) (hget : t.arena.get? node = some e) :
    ¬ e.isFor (t.hasher key) key := by
  intro hfor
  have hmem := h.mem_of_get? hget
  have hrow := hnone _ hmem
  rw [(h.isFor_iff hmem hget).1 hfor] at hrow
  cases hrow

/-- No two rows mean the same key. -/
theorem row_eq (h : t.Lists rows) {row' : Row κ ν} (hmem : row ∈ rows) (hmem' : row' ∈ rows)
    (hhash : t.hasher row.pair.1 = t.hasher row'.pair.1)
    (hkey : (row.pair.1 == row'.pair.1) = true) : row = row' := by
  obtain ⟨e, hget, hpair, hhash₁⟩ := h.exists_entry hmem
  obtain ⟨e', hget', hpair', hhash₂⟩ := h.exists_entry hmem'
  have hnode : row.node = row'.node := by
    refine h.wellFormed.node_eq _ _ e e' hget hget' (Entry.isFor_iff.2 ⟨?_, ?_⟩)
    · rw [hhash₁, hhash₂, hhash]
    · rwa [← hpair, ← hpair'] at hkey
  have hpairs := (h.mem_iff row).1 hmem
  rw [hnode, (h.mem_iff row').1 hmem'] at hpairs
  obtain ⟨node, pair⟩ := row
  obtain ⟨node', pair'⟩ := row'
  obtain rfl : node = node' := hnode
  obtain rfl : pair' = pair := Option.some.inj hpairs
  rfl

/-- A row is the only one with its handle. -/
theorem node_ne (h : t.Lists (before ++ row :: after)) {other : Row κ ν}
    (hmem : other ∈ before ++ after) : other.node ≠ row.node := by
  intro heq
  have hnodup := h.nodup
  rw [List.map_append, List.map_cons, List.nodup_middle, List.nodup_cons, ← List.map_append]
    at hnodup
  exact hnodup.1 (heq ▸ List.mem_map_of_mem hmem)

/-- Beside the row of a key, no other row is for that key. -/
theorem not_isRowFor [PartialEquivBEq κ] (h : t.Lists (before ++ row :: after)) {key : κ}
    (hrow : t.isRowFor key row = true) {other : Row κ ν} (hmem : other ∈ before ++ after) :
    t.isRowFor key other = false := by
  apply Bool.eq_false_iff.2
  intro hother
  have hmem' : other ∈ before ++ row :: after := by
    rw [List.mem_append, List.mem_cons]
    exact (List.mem_append.1 hmem).imp_right .inr
  obtain ⟨hhash, hkey⟩ := isRowFor_iff.1 hrow
  obtain ⟨hhash', hkey'⟩ := isRowFor_iff.1 hother
  have heq : other = row := h.row_eq hmem' (List.mem_append_right before List.mem_cons_self)
    (hhash'.trans hhash.symm) (BEq.trans hkey' (BEq.symm hkey))
  exact h.node_ne hmem (congrArg Row.node heq)

/-! ### Rows after a change -/

/-- A new entry adds a row at the end. -/
theorem attach [PartialEquivBEq κ] (h : t.Lists rows) {tail : Option Handle} {key : κ} {value : ν}
    (htail : tail = (t.chain (homeIndex t.capacity (t.hasher key))).getLast?)
    (hnew : ∀ row ∈ rows, t.isRowFor key row = false) :
    (t.attach (t.hasher key) tail key value).2.Lists
      (rows ++ [⟨(t.attach (t.hasher key) tail key value).1, key, value⟩]) := by
  have hlive := h.wellFormed.isSome_get?_of_tail htail
  have hfresh := t.get?_attach_fresh (t.hasher key) tail key value
  have hnode : ∀ row ∈ rows, row.node ≠ (t.attach (t.hasher key) tail key value).1 := by
    intro row hmem
    obtain ⟨e, hget, -⟩ := h.exists_entry hmem
    exact ne_attach_of_isSome (Option.isSome_iff_exists.2 ⟨e, hget⟩)
  constructor
  · exact h.wellFormed.attach htail (h.not_isFor hnew)
  -- The new handle is not that of any row.
  · rw [List.map_append, List.map_singleton, List.nodup_append]
    refine ⟨h.nodup, List.nodup_singleton _, ?_⟩
    intro node hmem node' hmem'
    obtain ⟨row, hrow, rfl⟩ := List.mem_map.1 hmem
    rw [List.mem_singleton.1 hmem']
    exact hnode row hrow
  · intro row
    rw [pair?_attach hlive, List.mem_append, List.mem_singleton, h.mem_iff]
    split
    · next heq =>
      have hnone : t.pair? row.node = none := by rw [heq, pair?, hfresh, Option.map_none]
      rw [hnone, or_iff_right (by simp)]
      constructor
      · rintro rfl
        rfl
      · intro hpair
        obtain ⟨node, pair⟩ := row
        obtain rfl := Option.some.inj hpair
        rw [← heq]
    · next hne =>
      refine or_iff_left fun heq => hne ?_
      rw [heq]
  · intro i hi
    rw [capacity_attach] at hi
    rw [h.wellFormed.chain_attach htail hi, share_append, share_singleton,
      share_congr (capacity_attach ..) (hasher_attach ..), capacity_attach, hasher_attach,
      List.map_append, h.chain_eq i hi]
    by_cases hhome : homeIndex t.capacity (t.hasher key) = i
    · rw [if_pos hhome.symm, if_pos hhome, List.map_singleton]
    · rw [if_neg (Ne.symm hhome), if_neg hhome, List.map_nil, List.append_nil]
  · rw [List.length_append, List.length_singleton, h.length_eq, count_attach]

/-- Detaching an entry takes its row out. -/
theorem detach (h : t.Lists (before ++ row :: after)) {e : Entry κ ν}
    (hget : t.arena.get? row.node = some e) {earlier later : List Handle}
    (hchain : t.chain (homeIndex t.capacity e.hash) = earlier ++ row.node :: later) :
    (t.detach earlier.getLast? row.node e).Lists (before ++ after) := by
  have hne := h.wellFormed.getLast?_ne_of_chain_eq
    (h.wellFormed.homeIndex_lt_capacity e.hash) hchain
  have hnodup := h.nodup
  rw [List.map_append, List.map_cons, List.nodup_middle, List.nodup_cons, ← List.map_append]
    at hnodup
  constructor
  · exact h.wellFormed.detach hget hchain
  · exact hnodup.2
  -- The rows are those of the other handles, behind which nothing changed.
  · intro other
    have hiff := h.mem_iff other
    rw [List.mem_append, List.mem_cons, or_left_comm, ← List.mem_append] at hiff
    rw [pair?_detach hne]
    split
    · next heq => exact iff_of_false (fun hmem => h.node_ne hmem heq) nofun
    · next hnode =>
      rw [← hiff, or_iff_right]
      rintro rfl
      exact hnode rfl
  · intro i hi
    rw [capacity_detach] at hi
    rw [h.wellFormed.chain_detach hget hchain hi, share_congr (capacity_detach ..)
      (hasher_detach ..), h.chain_eq i hi, List.filter_map]
    congr 1
    -- Among the rows of the bucket, the one in question is the only one with its handle.
    rw [share, share, List.filter_filter, List.filter_append, List.filter_append,
      List.filter_cons_of_neg (by simp)]
    congr 1 <;>
    · apply List.filter_congr
      intro other hmem
      have hother : other.node ≠ row.node := h.node_ne (List.mem_append.2 (by tauto))
      simp [hother]
  -- One row less for one entry less.
  · have hcount : (t.detach earlier.getLast? row.node e).count + 1 = t.count := count_detach hget
    have hlength := h.length_eq
    rw [List.length_append, List.length_cons] at hlength
    rw [List.length_append]
    omega

/-- A new value changes the pair of its row. -/
theorem modifyValue (h : t.Lists (before ++ row :: after)) (f : ν → ν) :
    (t.modifyValue row.node f).Lists
      (before ++ ⟨row.node, row.pair.1, f row.pair.2⟩ :: after) := by
  have hrow : t.pair? row.node = some row.pair :=
    (h.mem_iff row).1 (List.mem_append_right before List.mem_cons_self)
  constructor
  · exact h.wellFormed.modifyValue
  · have hnodup := h.nodup
    rw [List.map_append, List.map_cons] at hnodup ⊢
    exact hnodup
  · intro other
    have hiff := h.mem_iff other
    rw [List.mem_append, List.mem_cons, or_left_comm, ← List.mem_append] at hiff ⊢
    -- The handle of the row has the new pair, and any other handle its old one.
    rw [pair?_modifyValue]
    split
    · next heq =>
      rw [heq, hrow, Option.map_some, or_iff_left fun hmem => h.node_ne hmem heq]
      constructor
      · rintro rfl
        rfl
      · intro hpair
        obtain ⟨node, pair⟩ := other
        obtain rfl := Option.some.inj hpair
        rw [← heq]
    · next hnode =>
      rw [← hiff]
      constructor
      · rintro (rfl | hmem)
        · exact absurd rfl hnode
        · exact .inr hmem
      · rintro (rfl | hmem)
        · exact absurd rfl hnode
        · exact .inr hmem
  · intro i hi
    rw [h.wellFormed.chain_modifyValue hi, h.chain_eq i hi,
      share_congr (capacity_modifyValue t row.node f) rfl]
    simp only [share, List.filter_append, List.filter_cons, List.map_append]
    -- The key stays, and so the row belongs where it belonged.
    congr 1
    split <;> rfl
  · rw [count_modifyValue, ← h.length_eq, List.length_append, List.length_append]
    rfl

/-- Doubling the buckets leaves the rows alone. -/
theorem resize_double (h : t.Lists rows) (hmoved : t.resize (2 * t.capacity) = .ok t') :
    t'.Lists rows := by
  have ht := h.wellFormed
  have hpos := Nat.mul_pos Nat.two_pos ht.capacity_pos
  constructor
  · exact ht.resize_double hmoved
  · exact h.nodup
  · intro row
    rw [ht.pair?_resize hpos hmoved]
    exact h.mem_iff row
  · intro i hi
    rw [capacity_resize hmoved] at hi
    have hhome : i % t.capacity < t.capacity := Nat.mod_lt _ ht.capacity_pos
    rw [ht.chain_double hmoved hi, h.chain_eq _ hhome, List.filter_map]
    congr 1
    rw [share, share, List.filter_filter, capacity_resize hmoved, hasher_resize hmoved]
    apply List.filter_congr
    intro row hmem
    obtain ⟨e, hget, -, hhash⟩ := h.exists_entry hmem
    have hat : t.isAt (2 * t.capacity) i row.node =
        (homeIndex (2 * t.capacity) (t.hasher row.pair.1) == i) := by
      rw [isAt, hget, Option.any_some, hhash]
    rw [Function.comp_apply, hat]
    -- A row that belongs into the new bucket belonged into the old one.
    by_cases hi' : homeIndex (2 * t.capacity) (t.hasher row.pair.1) = i
    · rw [← hi', ht.homeIndex_double, beq_self_eq_true, beq_self_eq_true]
      rfl
    · rw [beq_eq_false_iff_ne.2 hi', Bool.false_and]
  · rw [ht.count_resize hpos hmoved]
    exact h.length_eq

/-- Growing leaves the rows alone. -/
theorem grow (h : t.Lists rows) {events : Array Event} (hgrown : t.grow = .ok (t', events)) :
    t'.Lists rows :=
  grow_induction (P := fun t => t.Lists rows) (fun _ _ hmoved h => resize_double h hmoved) h hgrown

/-! ### Searching for a row -/

/-- What a search for a key finds: its row and what is before and behind the entry in its chain, or
else the end of the chain, and then no row is the one meant. -/
theorem search_cases [PartialEquivBEq κ] (h : t.Lists rows) (key : κ) :
    (∃ before row after e earlier later, rows = before ++ row :: after ∧
      t.isRowFor key row = true ∧ (∀ other ∈ before ++ after, t.isRowFor key other = false) ∧
      t.arena.get? row.node = some e ∧ (e.key, e.value) = row.pair ∧
      t.chain (homeIndex t.capacity e.hash) = earlier ++ row.node :: later ∧
      t.search (t.hasher key) key = .ok (.found earlier.getLast? row.node e)) ∨
    ((∀ row ∈ rows, t.isRowFor key row = false) ∧
      t.search (t.hasher key) key =
        .ok (.missing (t.chain (homeIndex t.capacity (t.hasher key))).getLast?)) := by
  obtain ⟨earlier, node, e, later, hchain, hget, hfor, hsearch⟩ | ⟨hnone, hsearch⟩ :=
    h.wellFormed.search_cases (t.hasher key) key
  · have hmem := h.mem_of_get? hget
    have hrow := (h.isFor_iff hmem hget).1 hfor
    obtain ⟨before, after, rfl⟩ := List.append_of_mem hmem
    -- An entry that is meant has the hash that was searched for.
    rw [← (Entry.isFor_iff.1 hfor).1] at hchain
    exact .inl ⟨before, _, after, e, earlier, later, rfl, hrow, fun _ => h.not_isRowFor hrow, hget,
      rfl, hchain, hsearch⟩
  · refine .inr ⟨fun row hmem => Bool.eq_false_iff.2 fun hrow => ?_, hsearch⟩
    obtain ⟨e, hget, -⟩ := h.exists_entry hmem
    exact hnone row.node e hget ((h.isFor_iff hmem hget).2 hrow)

/-- A pair that is placed at the end of the chain of its key gets a row at the end. -/
theorem place [PartialEquivBEq κ] (h : t.Lists rows) {tail : Option Handle} {key : κ} {value : ν}
    (htail : tail = (t.chain (homeIndex t.capacity (t.hasher key))).getLast?)
    (hnew : ∀ row ∈ rows, t.isRowFor key row = false) {p : Placement κ ν}
    (hplace : t.place (t.hasher key) tail key value = .ok p) :
    p.table.Lists (rows ++ [⟨p.node, key, value⟩]) := by
  obtain ⟨hgrown, hnode, -, -⟩ := exists_grow_of_place hplace
  rw [hnode]
  exact (h.attach htail hnew).grow hgrown

end Lists

end Table

end BulkLookup
