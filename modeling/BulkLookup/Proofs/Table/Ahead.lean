import BulkLookup.Proofs.Table.Events
import BulkLookup.Proofs.Table.Removing
import Mathlib.Data.List.TakeWhile

/-!
# Entries ahead of another

A search for a key reads the entries that are ahead of the one it means, in their chain. Whatever is
done to a table, as long as an entry stays, no other gets ahead of it: a new entry hangs itself
behind all others, a value that changes moves nothing, and an entry that is taken out leaves the
others in their order. When the buckets double, the entries ahead that still belong into the same
bucket stay ahead, and the others are out of the way.

Each edit of which operations are made has its own lemma on what stays ahead.

## Main definitions

* `Table.ahead` — the entries ahead of one in its chain
* `Table.label?` — the key and the hash of an entry
* `Table.Nearing` — what an operation does to the entries ahead of one

## Main results

* `Table.Orderly.ahead_modifyValue`, `Table.Orderly.ahead_attach`, `Table.Orderly.ahead_detach`,
  `Table.WellFormed.ahead_double` — the entries ahead after one edit
* `Table.Edit.label?_eq`, `Table.Edit.nearing` — an operation leaves an entry that stays where it
  is, and puts none ahead of it
* `Table.IsReachable.ahead_run` — the entries ahead after a history
-/

namespace BulkLookup

universe u

/-! ### Lists up to a member -/

section Lists

variable {α : Type u} [BEq α] [LawfulBEq α] {a : α} {l : List α}

/-- Of a list that goes on behind a member, nothing more is ahead of that member. -/
theorem takeWhile_ne_append (hmem : a ∈ l) (l' : List α) :
    (l ++ l').takeWhile (· != a) = l.takeWhile (· != a) := by
  rw [List.takeWhile_append, if_neg]
  intro hlength
  have heq := (List.takeWhile_prefix (· != a)).eq_of_length hlength
  rw [← heq] at hmem
  exact absurd (List.mem_takeWhile_imp hmem) (by simp)

/-- Of a list that is thinned out, what is left ahead of a member that stays is what was ahead of
it, thinned out. -/
theorem takeWhile_ne_filter {p : α → Bool} (hp : p a = true) (l : List α) :
    (l.filter p).takeWhile (· != a) = (l.takeWhile (· != a)).filter p := by
  induction l with
  | nil => rfl
  | cons b l ih =>
    by_cases hb : b = a
    · subst hb
      simp [hp]
    · by_cases hpb : p b
      · simp [hb, hpb, ih]
      · simp [hb, hpb, ih]

end Lists

namespace Table

variable [Storage] {κ ν : Type}
variable {t t' : Table κ ν} {node other : Handle} {e e' : Entry κ ν} {hash : UInt64}

/-! ### Keys and hashes of entries -/

/-- The key and the hash of the entry behind a handle, if there is an entry behind it. -/
def label? (t : Table κ ν) (node : Handle) : Option (κ × UInt64) :=
  (t.arena.get? node).map fun e => (e.key, e.hash)

/-- An entry that keeps its key and its hash may have another value and another link, but it is
still there. -/
theorem exists_get?_of_label?_eq (hlabel : t'.label? node = t.label? node)
    (hget : t.arena.get? node = some e) :
    ∃ e', t'.arena.get? node = some e' ∧ e'.key = e.key ∧ e'.hash = e.hash := by
  rw [label?, label?, hget, Option.map_some, Option.map_eq_some_iff] at hlabel
  obtain ⟨e', hget', heq⟩ := hlabel
  obtain ⟨hkey, hhash⟩ := Prod.mk.inj heq
  exact ⟨e', hget', hkey, hhash⟩

theorem label?_modifyValue (t : Table κ ν) (other : Handle) (f : ν → ν) (node : Handle) :
    (t.modifyValue other f).label? node = t.label? node := by
  rw [label?, label?, get?_modifyValue]
  split
  · rw [Option.map_map]
    rfl
  · rfl

theorem label?_attach {tail : Option Handle} {key : κ} {value : ν}
    (htail : ∀ last, tail = some last → (t.arena.get? last).isSome)
    (hlive : (t.arena.get? node).isSome) :
    (t.attach hash tail key value).2.label? node = t.label? node := by
  rw [label?, label?, get?_attach htail, if_neg (ne_attach_of_isSome hlive)]
  split
  · rw [Option.map_map]
    rfl
  · rfl

theorem label?_detach {previous : Option Handle} (hprevious : previous ≠ some other)
    (hne : node ≠ other) : (t.detach previous other e).label? node = t.label? node :=
  Entry.map_eq_of_cut (cut_get?_detach hprevious hne) fun _ => rfl

theorem label?_resize [BEq κ] (ht : t.WellFormed) {capacity : Nat} (hcapacity : 0 < capacity)
    (hmoved : t.resize capacity = .ok t') (node : Handle) : t'.label? node = t.label? node :=
  Entry.map_eq_of_cut (ht.get?_resize hcapacity hmoved node) fun _ => rfl

/-- Where an entry belongs is told by its hash. -/
theorem isAt_congr (hlabel : t'.label? node = t.label? node) (capacity i : Nat) :
    t'.isAt capacity i node = t.isAt capacity i node := by
  have hany := congrArg (Option.any fun label => homeIndex capacity label.2 == i) hlabel
  rwa [label?, label?, Option.any_map, Option.any_map] at hany

/-! ### Entries ahead -/

/-- The entries ahead of one in the chain of a hash. -/
def ahead (t : Table κ ν) (hash : UInt64) (node : Handle) : List Handle :=
  (t.chain (homeIndex t.capacity hash)).takeWhile (· != node)

namespace Orderly

variable [BEq κ]

/-- An entry stands in its chain right behind those ahead of it. -/
theorem chain_eq_ahead (ht : t.Orderly) (hget : t.arena.get? node = some e) :
    ∃ after, t.chain (homeIndex t.capacity e.hash) = t.ahead e.hash node ++ node :: after := by
  obtain ⟨before, after, hchain⟩ := List.append_of_mem (ht.mem_chain_homeIndex hget)
  have hnodup := ht.nodup_chain (ht.homeIndex_lt_capacity e.hash)
  rw [hchain, List.nodup_append] at hnodup
  -- The entry itself does not occur before, for no chain passes an entry twice.
  have hbefore : ∀ entry ∈ before, (entry != node) = true := fun entry hmem =>
    bne_iff_ne.2 (hnodup.2.2 entry hmem node List.mem_cons_self)
  refine ⟨after, ?_⟩
  rw [ahead, hchain, List.takeWhile_append_of_pos hbefore, List.takeWhile_cons_of_neg (by simp),
    List.append_nil]

theorem ahead_modifyValue (ht : t.Orderly) {f : ν → ν} :
    (t.modifyValue other f).ahead hash node = t.ahead hash node := by
  rw [ahead, capacity_modifyValue, ht.chain_modifyValue (ht.homeIndex_lt_capacity hash), ahead]

/-- A new entry gets ahead of none. -/
theorem ahead_attach (ht : t.Orderly) (hget : t.arena.get? node = some e) {tail : Option Handle}
    (htail : tail = (t.chain (homeIndex t.capacity hash)).getLast?) {key : κ} {value : ν} :
    (t.attach hash tail key value).2.ahead e.hash node = t.ahead e.hash node := by
  rw [ahead, capacity_attach, ht.chain_attach htail (ht.homeIndex_lt_capacity e.hash), ahead]
  split
  · exact takeWhile_ne_append (ht.mem_chain_homeIndex hget) _
  · rfl

/-- An entry that is detached is no longer ahead, if it was before. -/
theorem ahead_detach (ht : t.Orderly) (hget : t.arena.get? other = some e)
    {before after : List Handle}
    (hchain : t.chain (homeIndex t.capacity e.hash) = before ++ other :: after)
    (hne : node ≠ other) (hash : UInt64) :
    (t.detach before.getLast? other e).ahead hash node = (t.ahead hash node).erase other := by
  have hhome := ht.homeIndex_lt_capacity hash
  have hnodup : (t.ahead hash node).Nodup :=
    (ht.nodup_chain hhome).sublist (List.takeWhile_sublist _)
  rw [ahead, capacity_detach, ht.chain_detach hget hchain hhome,
    takeWhile_ne_filter (p := fun entry => decide (entry ≠ other)) (decide_eq_true hne),
    hnodup.erase_eq_filter, ahead]
  apply List.filter_congr
  intro entry _
  simp only [ne_eq, decide_not, bne, beq_eq_decide]

end Orderly

/-- When the buckets double, those ahead stay ahead that belong into the same bucket. -/
theorem WellFormed.ahead_double [BEq κ] (ht : t.WellFormed)
    (hmoved : t.resize (2 * t.capacity) = .ok t') (hget : t.arena.get? node = some e) :
    t'.ahead e.hash node =
      (t.ahead e.hash node).filter
        (t.isAt (2 * t.capacity) (homeIndex (2 * t.capacity) e.hash)) := by
  have hpos : 0 < 2 * t.capacity := Nat.mul_pos Nat.two_pos ht.capacity_pos
  rw [ahead, capacity_resize hmoved, ht.chain_double hmoved (homeIndex_lt hpos _),
    ht.homeIndex_double, takeWhile_ne_filter ((isAt_of_get? hget).2 rfl), ahead]

/-! ### Operations as edits -/

section Edits

variable [BEq κ] {operation : Operation κ ν} {key : κ} {value : ν} {grown : Table κ ν}
  {events : Array Event}

/-- A table that was at most half full, unless it has reached its ceiling, doubles at most once when
it has got one entry more. -/
theorem Settled.grow_added [PartialEquivBEq κ] (ht : t.Settled)
    (hnone : ∀ node e, t.arena.get? node = some e → ¬ e.isFor (t.hasher key) key)
    (hgrown : (t.added key value).grow = .ok (grown, events)) :
    (t.added key value).WellFormed ∧
      (grown = t.added key value ∨ (t.added key value).resize (2 * t.capacity) = .ok grown) := by
  have hadded : (t.added key value).WellFormed := ht.wellFormed.attach rfl hnone
  have hcount : (t.added key value).count = t.count + 1 := count_attach ..
  have hcapacity : (t.added key value).capacity = t.capacity := capacity_attach ..
  have hceiling : (t.added key value).ceiling = t.ceiling := ceiling_attach ..
  refine ⟨hadded, ?_⟩
  rw [← hcapacity]
  rcases ht.grow_cases hadded hcount hcapacity hceiling with
    ⟨-, hgrow⟩ | ⟨-, hgrow⟩ | ⟨-, moved, hmoved, hgrow⟩
  · cases hgrown.symm.trans hgrow
    exact .inl rfl
  · cases hgrown.symm.trans hgrow
    exact .inl rfl
  · cases hgrown.symm.trans hgrow
    exact .inr hmoved

theorem Orderly.label?_added (ht : t.Orderly) (hlive : (t.arena.get? node).isSome = true)
    (key : κ) (value : ν) : (t.added key value).label? node = t.label? node :=
  label?_attach (ht.isSome_get?_of_getLast? _) hlive

/-- When the buckets double for a new entry, those ahead stay ahead that belong into the same
bucket. -/
theorem Orderly.ahead_double_added (ht : t.Orderly) (hadded : (t.added key value).WellFormed)
    (hmoved : (t.added key value).resize (2 * t.capacity) = .ok t')
    (hget : t.arena.get? node = some e) :
    t'.ahead e.hash node =
      (t.ahead e.hash node).filter
        (t.isAt (2 * t.capacity) (homeIndex (2 * t.capacity) e.hash)) := by
  have hlive : ∀ other ∈ t.ahead e.hash node, (t.arena.get? other).isSome = true :=
    fun other hmem => ht.isSome_get?_of_mem (ht.homeIndex_lt_capacity e.hash)
      ((List.takeWhile_sublist _).subset hmem)
  have hlabel := ht.label?_added (Option.isSome_iff_exists.2 ⟨e, hget⟩) key value
  obtain ⟨e₁, hget₁, -, hhash⟩ := exists_get?_of_label?_eq hlabel hget
  have hahead : (t.added key value).ahead e.hash node = t.ahead e.hash node :=
    ht.ahead_attach hget rfl
  -- The doubling reads the hashes in the table with the new entry; they are the old ones.
  have hcapacity : (t.added key value).capacity = t.capacity := capacity_attach ..
  have hdouble := hadded.ahead_double (hcapacity.symm ▸ hmoved) hget₁
  rw [hhash, hahead, hcapacity] at hdouble
  rw [hdouble]
  exact List.filter_congr fun other hmem =>
    isAt_congr (ht.label?_added (hlive other hmem) key value) _ _

/-- Entries for different keys are behind different handles. -/
theorem ne_of_isFor (hget : t.arena.get? node = some e)
    (hget' : t.arena.get? other = some e') (hfor' : e'.isFor hash key)
    (hnot : ¬ e.isFor hash key) : node ≠ other := by
  rintro rfl
  rw [hget'] at hget
  cases hget
  exact hnot hfor'

/-- What an operation does to the entries ahead of one: it leaves them, or takes one of them out; or
the buckets double, and those stay that belong into the same bucket. -/
inductive Nearing (t t' : Table κ ν) (operation : Operation κ ν) (hash : UInt64) (node : Handle) :
    Prop where
  | same : t'.ahead hash node = t.ahead hash node → Nearing t t' operation hash node
  | took (key : κ) (other : Handle) (e : Entry κ ν) : operation = .remove key →
    t.arena.get? other = some e → e.isFor (t.hasher key) key → other ∈ t.ahead hash node →
    t'.ahead hash node = (t.ahead hash node).erase other → Nearing t t' operation hash node
  | split : t'.capacity = 2 * t.capacity →
    t'.ahead hash node =
      (t.ahead hash node).filter (t.isAt t'.capacity (homeIndex t'.capacity hash)) →
    Nearing t t' operation hash node

namespace Edit

theorem hasher_eq (h : t.Edit operation t' events) : t'.hasher = t.hasher := by
  induction h with
  | kept => rfl
  | wrote node f _ ih => exact ih
  | stored _ hgrown => exact (hasher_grow hgrown).trans (hasher_attach ..)
  | took hget hfor hchain => exact hasher_detach ..

variable [PartialEquivBEq κ]

theorem wellFormed (h : t.Edit operation t' events) (ht : t.Settled) : t'.WellFormed := by
  induction h with
  | kept => exact ht.wellFormed
  | wrote node f _ ih => exact ih.modifyValue
  | stored hnone hgrown => exact (ht.wellFormed.attach rfl hnone).grow hgrown
  | took hget hfor hchain => exact ht.wellFormed.detach hget hchain

/-- An entry that is not taken out stays behind its handle, with its key and its hash. -/
theorem label?_eq (h : t.Edit operation t' events) (ht : t.Settled)
    (hget : t.arena.get? node = some e)
    (hstays : ∀ key, operation = .remove key → ¬ e.isFor (t.hasher key) key) :
    t'.label? node = t.label? node := by
  induction h with
  | kept => rfl
  | wrote other f _ ih => rw [label?_modifyValue, ih hstays]
  | @stored operation key value grown events hnone hgrown =>
    have hlabel := ht.wellFormed.label?_added (Option.isSome_iff_exists.2 ⟨e, hget⟩) key value
    obtain ⟨hadded, rfl | hmoved⟩ := ht.grow_added hnone hgrown
    · exact hlabel
    · have hpos := Nat.mul_pos Nat.two_pos ht.wellFormed.capacity_pos
      rw [label?_resize hadded hpos hmoved, hlabel]
  | @took key other e' before after hget' hfor hchain =>
    exact label?_detach (ht.wellFormed.getLast?_ne_of_chain_eq
      (ht.wellFormed.homeIndex_lt_capacity e'.hash) hchain)
      (ne_of_isFor hget hget' hfor (hstays key rfl))

/-- An operation puts no entry ahead of one that stays. -/
theorem nearing (h : t.Edit operation t' events) (ht : t.Settled)
    (hget : t.arena.get? node = some e)
    (hstays : ∀ key, operation = .remove key → ¬ e.isFor (t.hasher key) key) :
    t.Nearing t' operation e.hash node := by
  induction h with
  | kept => exact .same rfl
  | @wrote operation t' events other f hedit ih =>
    have hahead : (t'.modifyValue other f).ahead e.hash node = t'.ahead e.hash node :=
      (hedit.wellFormed ht).ahead_modifyValue
    cases ih hstays with
    | same heq => exact .same (hahead.trans heq)
    | took key other' e' hop hget' hfor hmem heq =>
      exact .took key other' e' hop hget' hfor hmem (hahead.trans heq)
    | split hcapacity heq => exact .split hcapacity (hahead.trans heq)
  | stored hnone hgrown =>
    obtain ⟨hadded, rfl | hmoved⟩ := ht.grow_added hnone hgrown
    · exact .same (ht.wellFormed.ahead_attach hget rfl)
    · refine .split (capacity_resize hmoved) ?_
      rw [capacity_resize hmoved]
      exact ht.wellFormed.ahead_double_added hadded hmoved hget
  | @took key other e' before after hget' hfor hchain =>
    have hahead := ht.wellFormed.ahead_detach hget' hchain
      (ne_of_isFor hget hget' hfor (hstays key rfl)) e.hash
    -- The entry taken out may be behind, or in another chain.
    by_cases hmem : other ∈ t.ahead e.hash node
    · exact .took key other e' rfl hget' hfor hmem hahead
    · exact .same (hahead.trans (List.erase_of_not_mem hmem))

end Edit

/-- An operation puts no entry ahead of one, and leaves those that are ahead in their order. -/
theorem Nearing.sublist (h : t.Nearing t' operation hash node) :
    (t'.ahead hash node).Sublist (t.ahead hash node) := by
  cases h with
  | same heq => rw [heq]
  | took key other e _ _ _ _ heq =>
    rw [heq]
    exact List.erase_sublist
  | split _ heq =>
    rw [heq]
    exact List.filter_sublist

end Edits

/-! ### Histories -/

section Histories

variable [BEq κ]

theorem IsReachable.run (ht : t.IsReachable) (future : List (Operation κ ν)) :
    (t.run future).IsReachable := by
  obtain ⟨hasher, t₀, history, hfresh, rfl⟩ := isReachable_iff.1 ht
  exact isReachable_iff.2 ⟨hasher, t₀, history ++ future, hfresh, (run_append ..).symm⟩

variable [PartialEquivBEq κ]

/-- As long as an entry is not taken out, it stays behind its handle with its key and its hash, and
those ahead of it are some of those that were. -/
theorem IsReachable.ahead_run (ht : t.IsReachable) (hget : t.arena.get? node = some e)
    {future : List (Operation κ ν)}
    (hstays : ∀ key, .remove key ∈ future → ¬ e.isFor (t.hasher key) key) :
    (t.run future).hasher = t.hasher ∧ (t.run future).label? node = t.label? node ∧
      ((t.run future).ahead e.hash node).Sublist (t.ahead e.hash node) := by
  induction future generalizing t e with
  | nil => exact ⟨rfl, rfl, List.Sublist.refl _⟩
  | cons operation future ih =>
    have hedit := ht.wellFormed.edit_perform operation
    have hstays' : ∀ key, operation = .remove key → ¬ e.isFor (t.hasher key) key :=
      fun key hop => hstays key (hop ▸ List.mem_cons_self)
    have hhasher := hedit.hasher_eq
    have hlabel := hedit.label?_eq ht.settled hget hstays'
    have hnearing := hedit.nearing ht.settled hget hstays'
    -- The same keys mean the entry as before, so that the rest of the history does not remove it.
    obtain ⟨e₁, hget₁, hkey, hhash⟩ := exists_get?_of_label?_eq hlabel hget
    have hreachable : (t.perform operation).table.IsReachable := ht.run [operation]
    obtain ⟨hhasher₁, hlabel₁, hsublist₁⟩ := ih hreachable hget₁ fun key hmem => by
      rw [Entry.isFor_congr hkey hhash, hhasher]
      exact hstays key (List.mem_cons_of_mem _ hmem)
    rw [hhash] at hsublist₁
    exact ⟨hhasher₁.trans hhasher, hlabel₁.trans hlabel, hsublist₁.trans hnearing.sublist⟩

end Histories

end Table

end BulkLookup
