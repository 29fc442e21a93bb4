import BulkLookup.Proofs.Table.Rows
import BulkLookup.Table.PairList
import BulkLookup.Arena.Slots
import BulkLookup.Hashing

/-!
# Tables answer as lists of pairs do

A table represents a list of pairs when the pairs of its rows are those of the list. Every operation
then gives the same response on both, and leaves a table that represents the list it leaves. Hence a
history that starts from an empty table can be read off the plain list: neither the number of
buckets, nor the moments at which the table grows, nor the way in which hashes spread over the
buckets can be seen in a response.

## Main definitions

* `PairList.empty` — the list without pairs
* `PairList.Splits` — the pair of a key, with what is before and behind it
* `PairList.SameMatches` — hashes that agree on which keys match
* `Table.Represents` — a table, the list of pairs it stands for, and the rows between them
* `Table.IsFresh` — the empty tables

## Main results

* `Table.Represents.perform` — one operation gives the same response on both
* `PairList.responses_rehash` — hashes that agree on which keys match give the same responses
* `Table.Represents.run` — a table represents the list through a whole history
* `Table.responses_eq_pairList` — from an empty table, all responses are those of the plain list
-/

namespace BulkLookup

variable {κ ν : Type}

namespace PairList

/-- The list without pairs. -/
def empty (hasher : κ → UInt64) : PairList κ ν := ⟨hasher, []⟩

variable [BEq κ] {l : PairList κ ν} {key : κ} {before after : List (κ × ν)} {pair : κ × ν}

/-- A list holds one pair for a key, with other pairs before and behind it. -/
structure Splits (l : PairList κ ν) (key : κ) (before : List (κ × ν)) (pair : κ × ν)
    (after : List (κ × ν)) : Prop where
  pairs_eq : l.pairs = before ++ pair :: after
  isFor : l.isFor key pair = true
  /-- No other pair is for the key. -/
  not_isFor : ∀ other ∈ before ++ after, l.isFor key other = false

/-- Changing the value of a key leaves pairs that are not for it alone. -/
theorem map_eq_self {pairs : List (κ × ν)} (hnone : ∀ pair ∈ pairs, l.isFor key pair = false)
    (f : ν → ν) :
    pairs.map (fun pair => if l.isFor key pair then (pair.1, f pair.2) else pair) = pairs := by
  conv => rhs; rw [← List.map_id pairs]
  apply List.map_congr_left
  intro pair hmem
  rw [hnone pair hmem]
  rfl

namespace Splits

theorem not_isFor_before (h : l.Splits key before pair after) {other : κ × ν}
    (hmem : other ∈ before) : l.isFor key other = false :=
  h.not_isFor other (List.mem_append_left after hmem)

theorem not_isFor_after (h : l.Splits key before pair after) {other : κ × ν}
    (hmem : other ∈ after) : l.isFor key other = false :=
  h.not_isFor other (List.mem_append_right before hmem)

theorem find?_eq (h : l.Splits key before pair after) : l.find? key = some pair := by
  refine List.find?_eq_some_iff_append.2 ⟨h.isFor, before, after, h.pairs_eq, fun other hmem => ?_⟩
  rw [h.not_isFor_before hmem]
  rfl

theorem mapValue_eq (h : l.Splits key before pair after) (f : ν → ν) :
    l.mapValue key f = ⟨l.hasher, before ++ (pair.1, f pair.2) :: after⟩ := by
  rw [mapValue, h.pairs_eq, List.map_append, List.map_cons, if_pos h.isFor,
    map_eq_self fun _ => h.not_isFor_before, map_eq_self fun _ => h.not_isFor_after]

theorem erase_eq (h : l.Splits key before pair after) :
    l.erase key = ⟨l.hasher, before ++ after⟩ := by
  rw [erase, h.pairs_eq, List.eraseP_append_right, List.eraseP_cons_of_pos h.isFor]
  intro other hmem
  rw [h.not_isFor_before hmem]
  exact Bool.false_ne_true

end Splits

/-! ### Keys without a pair -/

theorem find?_eq_none (hnone : ∀ pair ∈ l.pairs, l.isFor key pair = false) :
    l.find? key = none := by
  refine List.find?_eq_none.2 fun pair hmem => ?_
  rw [hnone pair hmem]
  exact Bool.false_ne_true

theorem mapValue_eq_self (hnone : ∀ pair ∈ l.pairs, l.isFor key pair = false) (f : ν → ν) :
    l.mapValue key f = l := by
  rw [mapValue, map_eq_self hnone]

theorem erase_eq_self (hnone : ∀ pair ∈ l.pairs, l.isFor key pair = false) :
    l.erase key = l := by
  rw [erase, List.eraseP_of_forall_not]
  intro pair hmem
  rw [hnone pair hmem]
  exact Bool.false_ne_true

/-! ### Another hash -/

/-- Whether two hashes agree on which keys match: whether equal keys have equal hashes under the one
exactly if they have equal hashes under the other. -/
def SameMatches (hasher hasher' : κ → UInt64) : Prop :=
  ∀ a b, (a == b) = true → (hasher' a = hasher' b ↔ hasher a = hasher b)

variable {hasher : κ → UInt64}

/-- The list with another hash. -/
def rehash (l : PairList κ ν) (hasher : κ → UInt64) : PairList κ ν := ⟨hasher, l.pairs⟩

theorem isFor_rehash (hsame : SameMatches l.hasher hasher) (key : κ) :
    (l.rehash hasher).isFor key = l.isFor key := by
  funext pair
  rw [isFor, isFor]
  -- Only equal keys are ever compared by their hashes.
  by_cases hkey : (pair.1 == key) = true
  · rw [hkey, Bool.and_true, Bool.and_true, Bool.eq_iff_iff, beq_iff_eq, beq_iff_eq]
    exact hsame pair.1 key hkey
  · rw [Bool.eq_false_iff.2 hkey, Bool.and_false, Bool.and_false]

theorem find?_rehash (hsame : SameMatches l.hasher hasher) (key : κ) :
    (l.rehash hasher).find? key = l.find? key := by
  rw [find?, isFor_rehash hsame]
  rfl

theorem mapValue_rehash (hsame : SameMatches l.hasher hasher) (key : κ) (f : ν → ν) :
    (l.rehash hasher).mapValue key f = (l.mapValue key f).rehash hasher := by
  rw [mapValue, isFor_rehash hsame]
  rfl

theorem erase_rehash (hsame : SameMatches l.hasher hasher) (key : κ) :
    (l.rehash hasher).erase key = (l.erase key).rehash hasher := by
  rw [erase, isFor_rehash hsame]
  rfl

theorem hasher_perform (l : PairList κ ν) (operation : Operation κ ν) :
    (l.perform operation).2.hasher = l.hasher := by
  cases operation with
  | insert key value change => simp only [perform]; split <;> rfl
  | update key value change => simp only [perform]; split <;> rfl
  | _ => rfl

theorem hasher_run (l : PairList κ ν) (history : List (Operation κ ν)) :
    (l.run history).hasher = l.hasher := by
  induction history generalizing l with
  | nil => rfl
  | cons operation history ih => exact (ih _).trans (hasher_perform l operation)

/-- An operation cannot tell hashes apart that agree on which keys match. -/
theorem perform_rehash (hsame : SameMatches l.hasher hasher) (operation : Operation κ ν) :
    (l.rehash hasher).perform operation =
      ((l.perform operation).1, (l.perform operation).2.rehash hasher) := by
  cases operation with
  | insert key value change =>
    simp only [perform, find?_rehash hsame, mapValue_rehash hsame]
    split <;> rfl
  | update key value change =>
    simp only [perform, find?_rehash hsame, mapValue_rehash hsame]
    split <;> rfl
  | remove key => simp only [perform, find?_rehash hsame, erase_rehash hsame]
  | lookup key => simp only [perform, find?_rehash hsame]
  | contains key => simp only [perform, find?_rehash hsame]
  | modify key change => simp only [perform, find?_rehash hsame, mapValue_rehash hsame]
  | count => rfl
  | lookupAll keys => simp only [perform, find?_rehash hsame]

/-- A history cannot tell hashes apart that agree on which keys match. -/
theorem responses_rehash (hsame : SameMatches l.hasher hasher) (history : List (Operation κ ν)) :
    (l.rehash hasher).responses history = l.responses history := by
  induction history generalizing l with
  | nil => rfl
  | cons operation history ih =>
    simp only [responses]
    rw [perform_rehash hsame, ih (by rwa [hasher_perform])]

end PairList

namespace Table

section AnyStorage

variable [Storage]

/-- A table, the list of pairs that it stands for, and the rows between them. -/
structure Represents [BEq κ] (t : Table κ ν) (l : PairList κ ν) (rows : List (Row κ ν)) :
    Prop where
  lists : t.Lists rows
  hasher_eq : l.hasher = t.hasher
  pairs_eq : l.pairs = rows.map Row.pair

namespace Represents

variable [BEq κ] {t : Table κ ν} {l : PairList κ ν} {rows before after : List (Row κ ν)}
  {row : Row κ ν} {key : κ}

theorem isFor_eq (h : t.Represents l rows) (key : κ) (row : Row κ ν) :
    l.isFor key row.pair = t.isRowFor key row := by
  rw [PairList.isFor, isRowFor, h.hasher_eq]

theorem map_not_isFor (h : t.Represents l rows) {others : List (Row κ ν)}
    (hnone : ∀ row ∈ others, t.isRowFor key row = false) :
    ∀ pair ∈ others.map Row.pair, l.isFor key pair = false := by
  intro pair hmem
  obtain ⟨row, hrow, rfl⟩ := List.mem_map.1 hmem
  rw [h.isFor_eq]
  exact hnone row hrow

theorem not_isFor (h : t.Represents l rows) (hnone : ∀ row ∈ rows, t.isRowFor key row = false) :
    ∀ pair ∈ l.pairs, l.isFor key pair = false := by
  rw [h.pairs_eq]
  exact h.map_not_isFor hnone

/-- The row of a key splits the list of pairs as it splits the rows. -/
theorem splits (h : t.Represents l (before ++ row :: after)) (hrow : t.isRowFor key row = true)
    (hothers : ∀ other ∈ before ++ after, t.isRowFor key other = false) :
    l.Splits key (before.map Row.pair) row.pair (after.map Row.pair) where
  pairs_eq := by rw [h.pairs_eq, List.map_append, List.map_cons]
  isFor := by rw [h.isFor_eq, hrow]
  not_isFor := by
    rw [← List.map_append]
    exact h.map_not_isFor hothers

/-- A changed value is changed in the table and in the list. -/
theorem modifyValue (h : t.Represents l (before ++ row :: after)) (f : ν → ν) :
    (t.modifyValue row.node f).Represents
      ⟨l.hasher, before.map Row.pair ++ (row.pair.1, f row.pair.2) :: after.map Row.pair⟩
      (before ++ ⟨row.node, row.pair.1, f row.pair.2⟩ :: after) where
  lists := h.lists.modifyValue f
  hasher_eq := h.hasher_eq
  pairs_eq := by rw [List.map_append, List.map_cons]

/-- A pair that is placed where the search for its key ended joins the list at the end. -/
theorem place [PartialEquivBEq κ] (h : t.Represents l rows)
    (hnone : ∀ row ∈ rows, t.isRowFor key row = false) {value : ν} {p : Placement κ ν}
    (hplace : t.place (t.hasher key) (t.chain (homeIndex t.capacity (t.hasher key))).getLast? key
      value = .ok p) :
    p.table.Represents (l.append (key, value)) (rows ++ [⟨p.node, key, value⟩]) where
  lists := h.lists.place rfl hnone hplace
  hasher_eq := by
    rw [hasher_grow (exists_grow_of_place hplace).1, hasher_attach]
    exact h.hasher_eq
  pairs_eq := by rw [PairList.append, h.pairs_eq, List.map_append, List.map_singleton]

/-- A pair placed for a key that no row is for, and changed where it is. -/
theorem exists_place [PartialEquivBEq κ] (h : t.Represents l rows)
    (hnone : ∀ row ∈ rows, t.isRowFor key row = false) (value : ν) (change : ν → ν) :
    ∃ p, t.place (t.hasher key) (t.chain (homeIndex t.capacity (t.hasher key))).getLast? key value =
        .ok p ∧ p.stored? = some (key, value) ∧ p.key = key ∧ p.value = value ∧
      (p.table.modifyValue p.node change).Represents (l.append (key, change value))
        (rows ++ [⟨p.node, key, change value⟩]) := by
  obtain ⟨p, hplace, hstored⟩ := h.lists.wellFormed.exists_place (h.lists.not_isFor hnone) value
  obtain ⟨-, -, hkey, hvalue⟩ := exists_grow_of_place hplace
  refine ⟨p, hplace, hstored, hkey, hvalue, ?_⟩
  have hmodified := (h.place hnone hplace).modifyValue change
  rw [PairList.append, h.pairs_eq]
  exact hmodified

/-! ### Operations -/

/-- What a search finds in the table, and what the list holds there. -/
theorem search_cases [PartialEquivBEq κ] (h : t.Represents l rows) (key : κ) :
    (∃ before node after e earlier later,
      rows = before ++ (⟨node, e.key, e.value⟩ : Row κ ν) :: after ∧
      l.Splits key (before.map Row.pair) (e.key, e.value) (after.map Row.pair) ∧
      t.arena.get? node = some e ∧
      t.chain (homeIndex t.capacity e.hash) = earlier ++ node :: later ∧
      t.search (t.hasher key) key = .ok (.found earlier.getLast? node e)) ∨
    ((∀ row ∈ rows, t.isRowFor key row = false) ∧
      (∀ pair ∈ l.pairs, l.isFor key pair = false) ∧
      t.search (t.hasher key) key =
        .ok (.missing (t.chain (homeIndex t.capacity (t.hasher key))).getLast?)) := by
  obtain ⟨before, ⟨node, pair⟩, after, e, earlier, later, rfl, hrow, hothers, hget, rfl, hchain,
    hsearch⟩ | ⟨hnone, hsearch⟩ := h.lists.search_cases key
  · exact .inl ⟨before, node, after, e, earlier, later, rfl, h.splits hrow hothers, hget, hchain,
      hsearch⟩
  · exact .inr ⟨hnone, h.not_isFor hnone, hsearch⟩

variable [PartialEquivBEq κ]

/-- Looking a key up finds the pair that the list holds. -/
theorem tryLookup_eq (h : t.Represents l rows) (key : κ) : t.tryLookup key = .ok (l.find? key) := by
  obtain ⟨before, node, after, e, earlier, later, rfl, hsplits, -, -, hsearch⟩ |
    ⟨-, hnone, hsearch⟩ := h.search_cases key
  · rw [hsplits.find?_eq]
    exact Except.map_eq_ok.2 ⟨_, find?_of_found hsearch, rfl⟩
  · rw [PairList.find?_eq_none hnone]
    exact Except.map_eq_ok.2 ⟨_, find?_of_missing hsearch, rfl⟩

theorem lookup_eq (h : t.Represents l rows) (key : κ) : t.lookup key = l.find? key :=
  Except.ok.inj ((h.lists.wellFormed.tryLookup_eq key).symm.trans (h.tryLookup_eq key))

/-- A key is there if the list holds a pair for it. -/
theorem contains_eq (h : t.Represents l rows) (key : κ) :
    t.contains key = (l.find? key).isSome := by
  obtain ⟨found, hfound⟩ := h.lists.wellFormed.exists_find? key
  rw [← h.lookup_eq, contains, tryContains, lookup, tryLookup, hfound]
  exact (Option.isSome_map ..).symm

theorem insert (h : t.Represents l rows) (key : κ) (value : ν) (change : ν → ν) :
    (t.perform (.insert key value change)).response =
        .ok (l.perform (.insert key value change)).1 ∧
      ∃ rows', (t.perform (.insert key value change)).table.Represents
        (l.perform (.insert key value change)).2 rows' := by
  obtain ⟨before, node, after, e, earlier, later, rfl, hsplits, hget, -, hsearch⟩ |
    ⟨hrows, hnone, hsearch⟩ := h.search_cases key
  · -- The pair that is there stays, and its value is changed.
    have hstored : t.pair? node = some (e.key, e.value) := by rw [pair?, hget, Option.map_some]
    rw [perform_insert (tryInsert_of_found hsearch) hstored]
    simp only [PairList.perform, hsplits.find?_eq, hsplits.mapValue_eq]
    exact ⟨trivial, _, h.modifyValue change⟩
  · -- A new key is placed behind all others.
    obtain ⟨p, hplace, hstored, hkey, hvalue, h'⟩ := h.exists_place hrows value change
    rw [perform_insert (tryInsert_of_missing hsearch hplace) hstored]
    simp only [PairList.perform, PairList.find?_eq_none hnone, hkey, hvalue]
    exact ⟨trivial, _, h'⟩

theorem update (h : t.Represents l rows) (key : κ) (value : ν) (change : ν → ν) :
    (t.perform (.update key value change)).response =
        .ok (l.perform (.update key value change)).1 ∧
      ∃ rows', (t.perform (.update key value change)).table.Represents
        (l.perform (.update key value change)).2 rows' := by
  obtain ⟨before, node, after, e, earlier, later, rfl, hsplits, hget, -, hsearch⟩ |
    ⟨hrows, hnone, hsearch⟩ := h.search_cases key
  · -- The value is overwritten first, and the new one is changed.
    have hstored : (t.modifyValue node fun _ => value).pair? node = some (e.key, value) := by
      rw [pair?_modifyValue, if_pos rfl, pair?, hget, Option.map_some, Option.map_some]
    have hlive := Option.isSome_of_eq_some hget
    rw [perform_update (tryUpdate_of_found hsearch hlive) hstored]
    simp only [PairList.perform, hsplits.find?_eq, hsplits.mapValue_eq]
    exact ⟨trivial, _, (h.modifyValue fun _ => value).modifyValue change⟩
  · -- A new key is placed behind all others.
    obtain ⟨p, hplace, hstored, hkey, hvalue, h'⟩ := h.exists_place hrows value change
    rw [perform_update (tryUpdate_of_missing hsearch hplace) hstored]
    simp only [PairList.perform, PairList.find?_eq_none hnone, hkey, hvalue]
    exact ⟨trivial, _, h'⟩

theorem remove (h : t.Represents l rows) (key : κ) :
    (t.perform (.remove key)).response = .ok (l.perform (.remove key)).1 ∧
      ∃ rows', (t.perform (.remove key)).table.Represents (l.perform (.remove key)).2 rows' := by
  obtain ⟨before, node, after, e, earlier, later, rfl, hsplits, hget, hchain, hsearch⟩ |
    ⟨-, hnone, hsearch⟩ := h.search_cases key
  · have hdetach := h.lists.wellFormed.tryDetach_eq hget hchain
    rw [perform_remove (tryRemove_of_found hsearch hdetach)]
    simp only [PairList.perform, hsplits.find?_eq, hsplits.erase_eq]
    refine ⟨trivial, before ++ after, h.lists.detach hget hchain, ?_, ?_⟩
    · rw [hasher_detach]
      exact h.hasher_eq
    · rw [List.map_append]
  · rw [perform_remove (tryRemove_of_missing hsearch)]
    simp only [PairList.perform, PairList.find?_eq_none hnone, PairList.erase_eq_self hnone]
    exact ⟨trivial, rows, h⟩

theorem modify (h : t.Represents l rows) (key : κ) (change : ν → ν) :
    (t.perform (.modify key change)).response = .ok (l.perform (.modify key change)).1 ∧
      ∃ rows', (t.perform (.modify key change)).table.Represents
        (l.perform (.modify key change)).2 rows' := by
  obtain ⟨before, node, after, e, earlier, later, rfl, hsplits, hget, -, hsearch⟩ |
    ⟨-, hnone, hsearch⟩ := h.search_cases key
  · have hlive := Option.isSome_of_eq_some hget
    rw [perform_modify (tryModify_of_found hsearch hlive change)]
    simp only [PairList.perform, hsplits.find?_eq, hsplits.mapValue_eq]
    exact ⟨rfl, _, h.modifyValue change⟩
  · rw [perform_modify (tryModify_of_missing hsearch change)]
    simp only [PairList.perform, PairList.find?_eq_none hnone, PairList.mapValue_eq_self hnone]
    exact ⟨rfl, rows, h⟩

/-- An operation meets no fault and gives the same response on a table as on the list that it
represents, and leaves a table that represents the list that it leaves. -/
theorem perform (h : t.Represents l rows) (operation : Operation κ ν) :
    (t.perform operation).response = .ok (l.perform operation).1 ∧
      ∃ rows', (t.perform operation).table.Represents (l.perform operation).2 rows' := by
  have ht := h.lists.wellFormed
  cases operation with
  | insert key value change => exact h.insert key value change
  | update key value change => exact h.update key value change
  | remove key => exact h.remove key
  | lookup key =>
    rw [ht.perform_lookup, h.lookup_eq]
    exact ⟨rfl, rows, h⟩
  | contains key =>
    rw [ht.perform_contains, h.contains_eq]
    exact ⟨rfl, rows, h⟩
  | modify key change => exact h.modify key change
  | count =>
    have hcount : l.pairs.length = t.count := by
      rw [h.pairs_eq, List.length_map, h.lists.length_eq]
    rw [PairList.perform, hcount]
    exact ⟨rfl, rows, h⟩
  | lookupAll keys =>
    have hanswers : t.lookupAll keys = keys.map fun key => ⟨key, l.find? key⟩ :=
      List.map_congr_left fun key _ => by rw [answer, h.lookup_eq]
    rw [ht.perform_lookupAll, hanswers]
    exact ⟨rfl, rows, h⟩

/-- A table represents the list through a whole history. -/
theorem run (h : t.Represents l rows) (history : List (Operation κ ν)) :
    t.responses history = (l.responses history).map .ok ∧
      ∃ rows', (t.run history).Represents (l.run history) rows' := by
  induction history generalizing t l rows with
  | nil => exact ⟨rfl, rows, h⟩
  | cons operation history ih =>
    obtain ⟨hresponse, rows', h'⟩ := h.perform operation
    obtain ⟨hresponses, hrun⟩ := ih h'
    refine ⟨?_, hrun⟩
    rw [responses, PairList.responses, hresponse, hresponses, List.map_cons]

end Represents

/-! ### From an empty table on -/

/-- Names are compared, and so equality is an equivalence. -/
instance : EquivBEq TaggedKey where
  symm := fun {a b} (h : (a.name == b.name) = true) => show (b.name == a.name) = true from
    BEq.symm h
  trans := fun {a b c} (h : (a.name == b.name) = true) (h' : (b.name == c.name) = true) =>
    show (a.name == c.name) = true from BEq.trans h h'
  rfl := fun {a} => show (a.name == a.name) = true from BEq.rfl

variable [BEq κ]

theorem represents_withCeiling (hasher : κ → UInt64) {ceiling : Nat}
    (hceiling : ceiling.isPowerOfTwo) :
    (withCeiling hasher ceiling : Table κ ν).Represents (.empty hasher) [] where
  lists := lists_withCeiling hasher hceiling
  hasher_eq := rfl
  pairs_eq := rfl

/-- The empty tables in which keys are hashed by `hasher`. -/
def IsFresh (hasher : κ → UInt64) (t : Table κ ν) : Prop :=
  t = unbounded hasher ∨ ∃ most, bounded hasher most = .ok t

omit [BEq κ] in
theorem bounded_eq (hasher : κ → UInt64) {most : UInt64} (hmost : 1 ≤ most) :
    (bounded hasher most : Except SetupError (Table κ ν)) =
      .ok (withCeiling hasher (ceilingBelow most)) := by
  have hne : most ≠ 0 := by
    rintro rfl
    exact absurd hmost (by decide)
  rw [bounded, if_neg hne]

omit [BEq κ] in
/-- Every positive bound gives an empty table. -/
theorem exists_bounded (hasher : κ → UInt64) {most : UInt64} (hmost : 1 ≤ most) :
    ∃ t : Table κ ν, bounded hasher most = .ok t :=
  ⟨_, bounded_eq hasher hmost⟩

omit [BEq κ] in
/-- An empty table has a power of two as its ceiling. -/
theorem IsFresh.exists_eq {hasher : κ → UInt64} {t : Table κ ν} (h : t.IsFresh hasher) :
    ∃ ceiling : Nat, ceiling.isPowerOfTwo ∧ t = withCeiling hasher ceiling := by
  rcases h with rfl | ⟨most, hbounded⟩
  · exact ⟨greatestCeiling, isPowerOfTwo_greatestCeiling, rfl⟩
  · rw [bounded] at hbounded
    split at hbounded
    · cases hbounded
    · exact ⟨ceilingBelow most, isPowerOfTwo_ceilingBelow most, (Except.ok.inj hbounded).symm⟩

theorem IsFresh.represents {hasher : κ → UInt64} {t : Table κ ν} (h : t.IsFresh hasher) :
    t.Represents (.empty hasher) [] := by
  obtain ⟨ceiling, hceiling, rfl⟩ := h.exists_eq
  exact represents_withCeiling hasher hceiling

/-- After a history from an empty table on, looking a key up finds the pair that the plain list
holds. -/
theorem IsFresh.lookup_run [PartialEquivBEq κ] {hasher : κ → UInt64} {t : Table κ ν}
    (h : t.IsFresh hasher) (history : List (Operation κ ν)) (key : κ) :
    (t.run history).lookup key = ((PairList.empty hasher).run history).find? key := by
  obtain ⟨-, rows, hrepresents⟩ := h.represents.run history
  exact hrepresents.lookup_eq key

theorem isReachable_iff {t : Table κ ν} :
    t.IsReachable ↔ ∃ hasher t₀ history, IsFresh hasher t₀ ∧ t = t₀.run history := by
  constructor
  · rintro ⟨hasher, history, heq | ⟨most, t₀, hbounded, heq⟩⟩
    · exact ⟨hasher, unbounded hasher, history, .inl rfl, heq⟩
    · exact ⟨hasher, t₀, history, .inr ⟨most, hbounded⟩, heq⟩
  · rintro ⟨hasher, t₀, history, rfl | ⟨most, hbounded⟩, heq⟩
    · exact ⟨hasher, history, .inl heq⟩
    · exact ⟨hasher, history, .inr ⟨most, t₀, hbounded, heq⟩⟩

/-- A table that came about by a history represents some list. -/
theorem IsReachable.exists_represents [PartialEquivBEq κ] {t : Table κ ν} (h : t.IsReachable) :
    ∃ l rows, t.Represents l rows := by
  obtain ⟨hasher, t₀, history, hfresh, rfl⟩ := isReachable_iff.1 h
  exact ⟨_, (hfresh.represents.run history).2⟩

/-- A table that came about by a history is well-formed. -/
theorem IsReachable.wellFormed [PartialEquivBEq κ] {t : Table κ ν} (h : t.IsReachable) :
    t.WellFormed := by
  obtain ⟨l, rows, hrepresents⟩ := h.exists_represents
  exact hrepresents.lists.wellFormed

/-- From an empty table on, no operation meets a fault, and all responses are those of the plain
list, whatever the bound on the number of buckets; and another hash gives the same responses if it
agrees on which keys match. -/
theorem responses_eq_pairList [PartialEquivBEq κ] (hasher : κ → UInt64)
    (history : List (Operation κ ν)) :
    (unbounded hasher).responses history =
      ((PairList.empty hasher).responses history).map .ok ∧
    (∀ most : UInt64, 1 ≤ most → ∃ t : Table κ ν, bounded hasher most = .ok t ∧
      t.responses history = ((PairList.empty hasher).responses history).map .ok) ∧
    ∀ hasher' : κ → UInt64, PairList.SameMatches hasher hasher' →
      (unbounded hasher').responses history = (unbounded hasher).responses history := by
  have hlist : ∀ {hasher : κ → UInt64} {t : Table κ ν}, t.IsFresh hasher →
      t.responses history = ((PairList.empty hasher).responses history).map .ok := fun hfresh =>
    (hfresh.represents.run history).1
  refine ⟨hlist (.inl rfl), fun most hmost => ?_, fun hasher' hsame => ?_⟩
  · obtain ⟨t, hbounded⟩ : ∃ t : Table κ ν, bounded hasher most = .ok t :=
      exists_bounded hasher hmost
    exact ⟨t, hbounded, hlist (.inr ⟨most, hbounded⟩)⟩
  · rw [hlist (.inl rfl), hlist (.inl rfl)]
    exact congrArg (List.map Except.ok)
      (PairList.responses_rehash (l := .empty hasher) hsame history)

end AnyStorage

/-- Two keys of one name but of different digests are kept apart, and of two keys that match, the
one stored first stays, even among tables of a single bucket. -/
theorem responses_of_tagged_keys :
    let k : TaggedKey := ⟨0, "a", "first"⟩
    let k' : TaggedKey := ⟨8, "a", "other digest"⟩
    ∃ t : Table TaggedKey Nat, bounded TaggedKey.digest 1 = .ok t ∧
      t.responses [.insert k 1 (· + 1), .insert ⟨0, "a", "second"⟩ 5 (· + 10),
        .update k' 7 (· + 0), .remove ⟨0, "a", "third"⟩, .lookup k', .count] =
      [.ok (.inserted true (k, 1) (some (k, 2))), .ok (.inserted false (k, 2) (some (k, 12))),
        .ok (.updated none (k', 7) (some (k', 7))), .ok (.removed (some (k, 12))),
        .ok (.found (some (k', 7))), .ok (.counted 1)] := by
  intro k k'
  obtain ⟨t, hbounded, ht⟩ := (responses_eq_pairList TaggedKey.digest
    [.insert k 1 (· + 1), .insert ⟨0, "a", "second"⟩ 5 (· + 10), .update k' 7 (· + 0),
      .remove ⟨0, "a", "third"⟩, .lookup k', .count]).2.1 1 (by decide)
  exact ⟨t, hbounded, ht.trans (by rfl)⟩

end Table

end BulkLookup
