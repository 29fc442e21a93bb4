import BulkLookup.Proofs.Table.Growing
import BulkLookup.Table.History

/-!
# What operations do to well-formed tables

An operation searches for its key, and what it does then depends on how the search has ended. This
module says what each operation comes to in either case, so that its definition need not be opened
again. In a well-formed table no operation ends in a fault: every link that it follows leads to an
entry, and so does every handle through which it writes. Hence the plain forms of the operations are
as good as the others there.

All changes that operations make are made of three edits: an entry for a new key is hung behind the
chain of that key and the table grows, the entry of a key is taken out, and values are changed.
Whatever outlasts the edits outlasts the operations.

## Main definitions

* `Table.added` — a table with one entry more, behind the chain of its key
* `Table.Edit` — an operation as a sequence of edits

## Main results

* `Table.WellFormed.exists_place` — a new pair can be placed, and read at its place
* `Table.WellFormed.edit_perform` — every operation is a sequence of edits
* `Table.WellFormed.tryInsert_eq`, `Table.WellFormed.tryUpdate_eq`, `Table.Orderly.tryRemove_eq`,
  `Table.Orderly.tryModify_eq`, `Table.Orderly.tryLookup_eq`, `Table.Orderly.tryContains_eq`,
  `Table.Orderly.tryLookupAll_eq` — the plain forms
-/

namespace BulkLookup

variable [Storage] {κ ν : Type}

namespace Table

variable {t : Table κ ν} {hash : UInt64} {key : κ} {value : ν} {node : Handle} {e : Entry κ ν}

/-! ### Edits of entries that are there -/

theorem tryModifyValue_eq (hlive : (t.arena.get? node).isSome = true) (f : ν → ν) :
    t.tryModifyValue node f = .ok (t.modifyValue node f) :=
  if_pos hlive

theorem tryAttach_eq_ok {tail : Option Handle} {attached : Handle × Table κ ν}
    (h : t.tryAttach hash tail key value = .ok attached) :
    t.attach hash tail key value = attached := by
  rw [tryAttach] at h
  split at h
  · exact Except.ok.inj h
  · cases h

namespace Orderly

variable [BEq κ]

/-- An entry can be attached behind the last one of its chain. -/
theorem tryAttach_eq (ht : t.Orderly) {tail : Option Handle}
    (htail : tail = (t.chain (homeIndex t.capacity hash)).getLast?) (key : κ) (value : ν) :
    t.tryAttach hash tail key value = .ok (t.attach hash tail key value) := by
  rw [tryAttach, if_pos]
  rw [Option.all_eq_true]
  exact fun last hlast => ht.isSome_get?_of_tail htail last hlast

/-- Whatever comes just before an entry in its chain is another entry, and it is there. -/
theorem ne_and_isSome_get?_of_getLast? (ht : t.Orderly) {i : Nat} (hi : i < t.capacity)
    {before after : List Handle} (hchain : t.chain i = before ++ node :: after) {previous : Handle}
    (hprevious : before.getLast? = some previous) :
    previous ≠ node ∧ (t.arena.get? previous).isSome = true := by
  constructor
  · rintro rfl
    exact ht.getLast?_ne_of_chain_eq hi hchain hprevious
  · apply ht.isSome_get?_of_mem hi
    rw [hchain]
    exact List.mem_append_left _ (List.mem_of_getLast? hprevious)

/-- An entry can be detached from the one before it in its chain. -/
theorem tryDetach_eq (ht : t.Orderly) (hget : t.arena.get? node = some e)
    {before after : List Handle}
    (hchain : t.chain (homeIndex t.capacity e.hash) = before ++ node :: after) :
    t.tryDetach before.getLast? node e = .ok (t.detach before.getLast? node e) := by
  rw [tryDetach, if_pos]
  refine ⟨Option.isSome_of_eq_some hget, ?_⟩
  rw [Option.all_eq_true]
  intro previous hprevious
  exact decide_eq_true
    (ht.ne_and_isSome_get?_of_getLast? (ht.homeIndex_lt_capacity e.hash) hchain hprevious)

end Orderly

/-! ### Placing a new pair -/

/-- A pair that was placed is behind a new handle, in a table that has grown since. -/
theorem exists_grow_of_place {tail : Option Handle} {p : Placement κ ν}
    (hplace : t.place hash tail key value = .ok p) :
    (t.attach hash tail key value).2.grow = .ok (p.table, p.events) ∧
      p.node = (t.attach hash tail key value).1 ∧ p.key = key ∧ p.value = value := by
  obtain ⟨⟨node, attached⟩, hattach, hrest⟩ := Except.bind_eq_ok.1 hplace
  obtain ⟨⟨grown, events⟩, hgrown, heq⟩ := Except.bind_eq_ok.1 hrest
  obtain rfl := Except.ok.inj heq
  rw [tryAttach_eq_ok hattach]
  exact ⟨hgrown, rfl, rfl, rfl⟩

/-- Writing through a place changes the pair that is there. -/
theorem stored?_modifyValue {p : Placement κ ν} {pair : κ × ν} (hstored : p.stored? = some pair)
    (f : ν → ν) : (p.modifyValue f).stored? = some (pair.1, f pair.2) := by
  have hpair : p.table.pair? p.node = some pair := hstored
  change (p.table.modifyValue p.node f).pair? p.node = _
  rw [pair?_modifyValue, if_pos rfl, hpair, Option.map_some]

theorem tryModifyValue_of_stored? {p : Placement κ ν} {pair : κ × ν}
    (hstored : p.stored? = some pair) (f : ν → ν) :
    p.tryModifyValue f = .ok (p.modifyValue f) := by
  obtain ⟨e, hget, -⟩ := Option.map_eq_some_iff.1 hstored
  exact Except.map_eq_ok.2 ⟨_, tryModifyValue_eq (Option.isSome_of_eq_some hget) f, rfl⟩

/-- A table with one entry more, behind the chain of its key. -/
def added (t : Table κ ν) (key : κ) (value : ν) : Table κ ν :=
  (t.attach (t.hasher key) (t.chain (homeIndex t.capacity (t.hasher key))).getLast? key value).2

variable [BEq κ]

/-- A pair for a new key can be placed behind the chain of that key, and it can be read there. -/
theorem WellFormed.exists_place [PartialEquivBEq κ] (ht : t.WellFormed)
    (hnone : ∀ node e, t.arena.get? node = some e → ¬ e.isFor (t.hasher key) key) (value : ν) :
    ∃ p, t.place (t.hasher key) (t.chain (homeIndex t.capacity (t.hasher key))).getLast? key value =
        .ok p ∧ p.stored? = some (key, value) := by
  have hattach : t.tryAttach (t.hasher key) _ key value = .ok _ := ht.tryAttach_eq rfl key value
  have hadded : (t.added key value).WellFormed := ht.attach rfl hnone
  obtain ⟨grown, events, hgrown⟩ := hadded.exists_grow
  refine ⟨_, Except.bind_eq_ok.2 ⟨_, hattach, Except.bind_eq_ok.2 ⟨_, hgrown, rfl⟩⟩, ?_⟩
  exact (hadded.pair?_grow hgrown).trans
    ((pair?_attach (ht.isSome_get?_of_tail rfl) _).trans (if_pos rfl))

/-! ### Operations whose search has ended -/

section Ended

variable {before tail : Option Handle} {p : Placement κ ν}

theorem tryInsert_of_found (hsearch : t.search (t.hasher key) key = .ok (.found before node e)) :
    t.tryInsert key value = .ok ⟨⟨t, node, e.key, e.value, #[]⟩, false⟩ :=
  Except.bind_eq_ok.2 ⟨_, hsearch, rfl⟩

theorem tryInsert_of_missing (hsearch : t.search (t.hasher key) key = .ok (.missing tail))
    (hplace : t.place (t.hasher key) tail key value = .ok p) :
    t.tryInsert key value = .ok ⟨p, true⟩ :=
  Except.bind_eq_ok.2 ⟨_, hsearch, Except.bind_eq_ok.2 ⟨p, hplace, rfl⟩⟩

theorem tryUpdate_of_found (hsearch : t.search (t.hasher key) key = .ok (.found before node e))
    (hlive : (t.arena.get? node).isSome = true) :
    t.tryUpdate key value =
      .ok ⟨⟨t.modifyValue node fun _ => value, node, e.key, value, #[]⟩, some e.value⟩ :=
  Except.bind_eq_ok.2
    ⟨_, hsearch, Except.bind_eq_ok.2 ⟨_, tryModifyValue_eq hlive fun _ => value, rfl⟩⟩

theorem tryUpdate_of_missing (hsearch : t.search (t.hasher key) key = .ok (.missing tail))
    (hplace : t.place (t.hasher key) tail key value = .ok p) :
    t.tryUpdate key value = .ok ⟨p, none⟩ :=
  Except.bind_eq_ok.2 ⟨_, hsearch, Except.bind_eq_ok.2 ⟨p, hplace, rfl⟩⟩

theorem tryRemove_of_found (hsearch : t.search (t.hasher key) key = .ok (.found before node e))
    (hdetach : t.tryDetach before node e = .ok (t.detach before node e)) :
    t.tryRemove key = .ok (some (e.key, e.value), t.detach before node e) :=
  Except.bind_eq_ok.2 ⟨_, hsearch, Except.bind_eq_ok.2 ⟨_, hdetach, rfl⟩⟩

theorem tryRemove_of_missing (hsearch : t.search (t.hasher key) key = .ok (.missing tail)) :
    t.tryRemove key = .ok (none, t) :=
  Except.bind_eq_ok.2 ⟨_, hsearch, rfl⟩

theorem find?_of_found (hsearch : t.search (t.hasher key) key = .ok (.found before node e)) :
    t.find? key = .ok (some (node, e)) :=
  Except.bind_eq_ok.2 ⟨_, hsearch, rfl⟩

theorem find?_of_missing (hsearch : t.search (t.hasher key) key = .ok (.missing tail)) :
    t.find? key = .ok none :=
  Except.bind_eq_ok.2 ⟨_, hsearch, rfl⟩

theorem tryModify_of_found (hsearch : t.search (t.hasher key) key = .ok (.found before node e))
    (hlive : (t.arena.get? node).isSome = true) (f : ν → ν) :
    t.tryModify key f = .ok (some (f e.value), t.modifyValue node f) :=
  Except.bind_eq_ok.2
    ⟨_, find?_of_found hsearch, Except.bind_eq_ok.2 ⟨_, tryModifyValue_eq hlive f, rfl⟩⟩

theorem tryModify_of_missing (hsearch : t.search (t.hasher key) key = .ok (.missing tail))
    (f : ν → ν) : t.tryModify key f = .ok (none, t) :=
  Except.bind_eq_ok.2 ⟨_, find?_of_missing hsearch, rfl⟩

end Ended

/-! ### Plain forms -/

namespace Orderly

theorem exists_find? (ht : t.Orderly) (key : κ) : ∃ found, t.find? key = .ok found := by
  obtain ⟨before, node, e, -, -, -, -, hsearch⟩ | ⟨-, hsearch⟩ := ht.search_cases (t.hasher key) key
  · exact ⟨_, find?_of_found hsearch⟩
  · exact ⟨_, find?_of_missing hsearch⟩

theorem tryLookup_eq (ht : t.Orderly) (key : κ) : t.tryLookup key = .ok (t.lookup key) := by
  obtain ⟨found, hfound⟩ := ht.exists_find? key
  exact Except.eq_ok_toOption_getD (Except.map_eq_ok.2 ⟨found, hfound, rfl⟩) none

theorem tryContains_eq (ht : t.Orderly) (key : κ) : t.tryContains key = .ok (t.contains key) := by
  obtain ⟨found, hfound⟩ := ht.exists_find? key
  exact Except.eq_ok_toOption_getD (Except.map_eq_ok.2 ⟨found, hfound, rfl⟩) false

/-- A bulk lookup in an orderly table answers all queries. -/
theorem tryLookupAll_eq (ht : t.Orderly) (keys : List κ) :
    t.tryLookupAll keys = .ok (t.lookupAll keys) := by
  induction keys with
  | nil => rfl
  | cons key keys ih =>
    have hanswer : (t.tryLookup key).map (Finding.mk key) = .ok (t.answer key) := by
      rw [ht.tryLookup_eq]
      rfl
    rw [tryLookupAll, List.mapM_cons]
    refine Except.bind_eq_ok.2 ⟨_, hanswer, Except.bind_eq_ok.2 ⟨_, ih, rfl⟩⟩

theorem tryModify_eq (ht : t.Orderly) (key : κ) (f : ν → ν) :
    t.tryModify key f = .ok (t.modify key f) := by
  obtain ⟨before, node, e, -, -, hget, -, hsearch⟩ | ⟨-, hsearch⟩ :=
    ht.search_cases (t.hasher key) key
  · have hlive := Option.isSome_of_eq_some hget
    exact Except.eq_ok_toOption_getD (tryModify_of_found hsearch hlive f) _
  · exact Except.eq_ok_toOption_getD (tryModify_of_missing hsearch f) _

theorem tryRemove_eq (ht : t.Orderly) (key : κ) : t.tryRemove key = .ok (t.remove key) := by
  obtain ⟨before, node, e, after, hchain, hget, hfor, hsearch⟩ | ⟨-, hsearch⟩ :=
    ht.search_cases (t.hasher key) key
  · rw [← (Entry.isFor_iff.1 hfor).1] at hchain
    exact Except.eq_ok_toOption_getD (tryRemove_of_found hsearch (ht.tryDetach_eq hget hchain)) _
  · exact Except.eq_ok_toOption_getD (tryRemove_of_missing hsearch) _

end Orderly

namespace WellFormed

variable [PartialEquivBEq κ]

theorem tryInsert_eq (ht : t.WellFormed) (key : κ) (value : ν) :
    t.tryInsert key value = .ok (t.insert key value) := by
  obtain ⟨before, node, e, -, -, -, -, hsearch⟩ | ⟨hnone, hsearch⟩ :=
    ht.search_cases (t.hasher key) key
  · exact Except.eq_ok_toOption_getD (tryInsert_of_found hsearch) _
  · obtain ⟨p, hplace, -⟩ := ht.exists_place hnone value
    exact Except.eq_ok_toOption_getD (tryInsert_of_missing hsearch hplace) _

theorem tryUpdate_eq (ht : t.WellFormed) (key : κ) (value : ν) :
    t.tryUpdate key value = .ok (t.update key value) := by
  obtain ⟨before, node, e, -, -, hget, -, hsearch⟩ | ⟨hnone, hsearch⟩ :=
    ht.search_cases (t.hasher key) key
  · have hlive := Option.isSome_of_eq_some hget
    exact Except.eq_ok_toOption_getD (tryUpdate_of_found hsearch hlive) _
  · obtain ⟨p, hplace, -⟩ := ht.exists_place hnone value
    exact Except.eq_ok_toOption_getD (tryUpdate_of_missing hsearch hplace) _

end WellFormed

/-! ### Operations performed -/

section Perform

variable {operation : Operation κ ν} {change : ν → ν}

theorem perform_of_ok {response : Response κ ν} {t' : Table κ ν} {events : Array Event}
    (h : t.tryPerform operation = .ok (response, t', events)) :
    t.perform operation = ⟨.ok response, t', events⟩ := by
  rw [perform, h]

/-- Inserting a pair and changing the value that is there then. -/
theorem perform_insert {i : Insertion κ ν} {pair : κ × ν} (hinsert : t.tryInsert key value = .ok i)
    (hstored : i.stored? = some pair) :
    t.perform (.insert key value change) =
      ⟨.ok (.inserted i.inserted (i.key, i.value) (some (pair.1, change pair.2))),
        i.table.modifyValue i.node change, i.events⟩ := by
  rw [← stored?_modifyValue hstored change]
  exact perform_of_ok (Except.bind_eq_ok.2 ⟨i, hinsert,
    Except.bind_eq_ok.2 ⟨_, tryModifyValue_of_stored? hstored change, rfl⟩⟩)

/-- Updating a pair and changing the value that is there then. -/
theorem perform_update {u : Update κ ν} {pair : κ × ν} (hupdate : t.tryUpdate key value = .ok u)
    (hstored : u.stored? = some pair) :
    t.perform (.update key value change) =
      ⟨.ok (.updated u.previous (u.key, u.value) (some (pair.1, change pair.2))),
        u.table.modifyValue u.node change, u.events⟩ := by
  rw [← stored?_modifyValue hstored change]
  exact perform_of_ok (Except.bind_eq_ok.2 ⟨u, hupdate,
    Except.bind_eq_ok.2 ⟨_, tryModifyValue_of_stored? hstored change, rfl⟩⟩)

theorem perform_remove {pair : Option (κ × ν)} {t' : Table κ ν}
    (hremove : t.tryRemove key = .ok (pair, t')) :
    t.perform (.remove key) = ⟨.ok (.removed pair), t', #[]⟩ :=
  perform_of_ok (Except.bind_eq_ok.2 ⟨_, hremove, rfl⟩)

theorem perform_modify {value : Option ν} {t' : Table κ ν}
    (hmodify : t.tryModify key change = .ok (value, t')) :
    t.perform (.modify key change) = ⟨.ok (.modified value), t', #[]⟩ :=
  perform_of_ok (Except.bind_eq_ok.2 ⟨_, hmodify, rfl⟩)

namespace Orderly

theorem perform_lookup (ht : t.Orderly) (key : κ) :
    t.perform (.lookup key) = ⟨.ok (.found (t.lookup key)), t, #[]⟩ :=
  perform_of_ok (Except.bind_eq_ok.2 ⟨_, ht.tryLookup_eq key, rfl⟩)

theorem perform_contains (ht : t.Orderly) (key : κ) :
    t.perform (.contains key) = ⟨.ok (.contained (t.contains key)), t, #[]⟩ :=
  perform_of_ok (Except.bind_eq_ok.2 ⟨_, ht.tryContains_eq key, rfl⟩)

theorem perform_lookupAll (ht : t.Orderly) (keys : List κ) :
    t.perform (.lookupAll keys) = ⟨.ok (.answered (t.lookupAll keys)), t, #[]⟩ :=
  perform_of_ok (Except.bind_eq_ok.2 ⟨_, ht.tryLookupAll_eq keys, rfl⟩)

end Orderly

end Perform

/-! ### Operations as edits -/

/-- An operation as a sequence of edits, with the events that it emits: it leaves the table as it
is, or hangs an entry for a new key behind the chain of that key and lets the table grow, or takes
the entry of a key out; and it may change values afterwards. -/
inductive Edit (t : Table κ ν) : Operation κ ν → Table κ ν → Array Event → Prop where
  | kept {operation : Operation κ ν} : Edit t operation t #[]
  /-- A value is changed in the table that an operation has made so far. -/
  | wrote {operation : Operation κ ν} {t' : Table κ ν} {events : Array Event} (node : Handle)
    (f : ν → ν) : Edit t operation t' events → Edit t operation (t'.modifyValue node f) events
  | stored {operation : Operation κ ν} {key : κ} {value : ν} {grown : Table κ ν}
    {events : Array Event} :
    (∀ node e, t.arena.get? node = some e → ¬ e.isFor (t.hasher key) key) →
    (t.added key value).grow = .ok (grown, events) → Edit t operation grown events
  | took {key : κ} {node : Handle} {e : Entry κ ν} {before after : List Handle} :
    t.arena.get? node = some e → e.isFor (t.hasher key) key →
    t.chain (homeIndex t.capacity e.hash) = before ++ node :: after →
    Edit t (.remove key) (t.detach before.getLast? node e) #[]

/-- Every operation is made of edits. -/
theorem WellFormed.edit_perform [PartialEquivBEq κ] (ht : t.WellFormed)
    (operation : Operation κ ν) :
    t.Edit operation (t.perform operation).table (t.perform operation).events := by
  cases operation with
  | insert key value change =>
    obtain ⟨before, node, e, after, -, hget, -, hsearch⟩ | ⟨hnone, hsearch⟩ :=
      ht.search_cases (t.hasher key) key
    · have hstored : t.pair? node = some (e.key, e.value) := by rw [pair?, hget, Option.map_some]
      rw [perform_insert (tryInsert_of_found hsearch) hstored]
      exact .wrote node change .kept
    · obtain ⟨p, hplace, hstored⟩ := ht.exists_place hnone value
      rw [perform_insert (tryInsert_of_missing hsearch hplace) hstored]
      exact .wrote p.node change (.stored hnone (exists_grow_of_place hplace).1)
  | update key value change =>
    obtain ⟨before, node, e, after, -, hget, -, hsearch⟩ | ⟨hnone, hsearch⟩ :=
      ht.search_cases (t.hasher key) key
    · have hstored : (t.modifyValue node fun _ => value).pair? node = some (e.key, value) := by
        rw [pair?_modifyValue, if_pos rfl, pair?, hget, Option.map_some, Option.map_some]
      have hlive := Option.isSome_of_eq_some hget
      rw [perform_update (tryUpdate_of_found hsearch hlive) hstored]
      exact .wrote node change (.wrote node (fun _ => value) .kept)
    · obtain ⟨p, hplace, hstored⟩ := ht.exists_place hnone value
      rw [perform_update (tryUpdate_of_missing hsearch hplace) hstored]
      exact .wrote p.node change (.stored hnone (exists_grow_of_place hplace).1)
  | remove key =>
    obtain ⟨before, node, e, after, hchain, hget, hfor, hsearch⟩ | ⟨-, hsearch⟩ :=
      ht.search_cases (t.hasher key) key
    · rw [← (Entry.isFor_iff.1 hfor).1] at hchain
      rw [perform_remove (tryRemove_of_found hsearch (ht.tryDetach_eq hget hchain))]
      exact .took hget hfor hchain
    · rw [perform_remove (tryRemove_of_missing hsearch)]
      exact .kept
  | modify key change =>
    obtain ⟨before, node, e, after, -, hget, -, hsearch⟩ | ⟨-, hsearch⟩ :=
      ht.search_cases (t.hasher key) key
    · have hlive := Option.isSome_of_eq_some hget
      rw [perform_modify (tryModify_of_found hsearch hlive change)]
      exact .wrote node change .kept
    · rw [perform_modify (tryModify_of_missing hsearch change)]
      exact .kept
  -- The other operations only read.
  | lookup key =>
    rw [ht.perform_lookup]
    exact .kept
  | contains key =>
    rw [ht.perform_contains]
    exact .kept
  | count => exact .kept
  | lookupAll keys =>
    rw [ht.perform_lookupAll]
    exact .kept

end Table

end BulkLookup
