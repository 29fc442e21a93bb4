import BulkLookup.Table.Chain

/-!
# Paths through an arena that changes

A path depends on nothing but the links of its own entries. This module says so, and says what
becomes of a path when an entry is hung behind its last one, or when an entry in the middle is cut
out: the two changes that tables make to their chains.

## Main definitions

* `Arena.nextOf?` — the link out of an entry, if there is such an entry

## Main results

* `Arena.Path.congr` — entries with the same links lie on the same path
* `Arena.Path.splice` — a path that goes on elsewhere after its front
* `Arena.Path.append_singleton` — a path that goes on to one more entry
* `Arena.Path.unlink` — a path that passes over one of its entries
-/

namespace BulkLookup

variable [Storage] {κ ν : Type}

namespace Arena

/-- The link out of the entry behind a handle, if there is such an entry. -/
def nextOf? (a : Arena (Entry κ ν)) (node : Handle) : Option (Option Handle) :=
  (a.get? node).map Entry.next

variable {a a' : Arena (Entry κ ν)} {link : Option Handle} {nodes : List Handle}

theorem path_nil_iff : a.Path link [] ↔ link = none := by
  constructor
  · intro h
    cases h
    rfl
  · rintro rfl
    exact .nil

theorem path_cons_iff {node : Handle} {rest : List Handle} :
    a.Path link (node :: rest) ↔
      link = some node ∧ ∃ next, a.nextOf? node = some next ∧ a.Path next rest := by
  constructor
  · intro h
    cases h with
    | @cons _ e _ hget hrest => exact ⟨rfl, e.next, by rw [nextOf?, hget]; rfl, hrest⟩
  · rintro ⟨rfl, next, hnext, hrest⟩
    obtain ⟨e, hget, rfl⟩ := Option.map_eq_some_iff.1 hnext
    exact .cons hget hrest

namespace Path

/-- A path starts at its first entry. -/
theorem link_eq_head? (h : a.Path link nodes) : link = nodes.head? := by
  cases h <;> rfl

/-- Entries with the same links lie on the same path. -/
theorem congr (h : a.Path link nodes) (hlinks : ∀ node ∈ nodes, a'.nextOf? node = a.nextOf? node) :
    a'.Path link nodes := by
  induction nodes generalizing link with
  | nil => exact path_nil_iff.2 (path_nil_iff.1 h)
  | cons node rest ih =>
    obtain ⟨rfl, next, hnext, hrest⟩ := path_cons_iff.1 h
    refine path_cons_iff.2 ⟨rfl, next, ?_, ih hrest fun other hmem => ?_⟩
    · rw [hlinks node List.mem_cons_self, hnext]
    · exact hlinks other (List.mem_cons_of_mem _ hmem)

/-- When whatever ends the front of a path leads somewhere else, the path goes on from there. -/
theorem splice {front old back : List Handle} {next : Option Handle}
    (h : a.Path link (front ++ old)) (hback : a'.Path next back)
    (hlinks : ∀ other ∈ front, a'.nextOf? other =
      if front.getLast? = some other then some next else a.nextOf? other) :
    a'.Path (front.getLast?.elim next fun _ => link) (front ++ back) := by
  -- The links along the front stay, but for the one out of its last entry.
  have hnodup := (List.nodup_append.1 h.nodup).1
  induction front generalizing link with
  | nil => exact hback
  | cons first front ih =>
    obtain ⟨rfl, next', hnext', hrest⟩ := path_cons_iff.1 h
    obtain ⟨hfirst, hnodup⟩ := List.nodup_cons.1 hnodup
    have hlink := hlinks first List.mem_cons_self
    cases front with
    | nil =>
      rw [List.getLast?_singleton, if_pos rfl] at hlink
      exact path_cons_iff.2 ⟨rfl, next, hlink, hback⟩
    | cons second front =>
      rw [List.getLast?_cons_cons] at hlink hlinks
      -- The first entry is not the last one, for no path passes an entry twice.
      rw [if_neg fun hlast => hfirst (List.mem_of_getLast? hlast), hnext'] at hlink
      have hpath := ih hrest (fun other hmem => hlinks other (List.mem_cons_of_mem _ hmem)) hnodup
      obtain ⟨last, hlast⟩ : ∃ last, (second :: front).getLast? = some last :=
        ⟨_, List.getLast?_eq_some_getLast (List.cons_ne_nil _ _)⟩
      rw [hlast] at hpath
      refine path_cons_iff.2 ⟨?_, _, hlink, hpath⟩
      rw [List.getLast?_cons_cons, hlast]
      rfl

/-- When the last entry of a path links to an entry that links to none, that entry ends the path. -/
theorem append_singleton (h : a.Path link nodes) {node : Handle}
    (hnode : a'.nextOf? node = some none)
    (hlinks : ∀ other ∈ nodes, a'.nextOf? other =
      if nodes.getLast? = some other then some (some node) else a.nextOf? other) :
    a'.Path (nodes.getLast?.elim (some node) fun _ => link) (nodes ++ [node]) := by
  have hend : a'.Path (some node) [node] :=
    path_cons_iff.2 ⟨rfl, none, hnode, path_nil_iff.2 rfl⟩
  rw [← List.append_nil nodes] at h
  exact h.splice hend hlinks

/-- When whatever led to an entry leads to the one behind it instead, the path passes over it. -/
theorem unlink {before after : List Handle} {node : Handle} {next : Option Handle}
    (h : a.Path link (before ++ node :: after)) (hnext : a.nextOf? node = some next)
    (hlinks : ∀ other ∈ before ++ after, a'.nextOf? other =
      if before.getLast? = some other then some next else a.nextOf? other) :
    a'.Path (before.getLast?.elim next fun _ => link) (before ++ after) := by
  have hafter : a'.Path next after := by
    obtain ⟨-, next', hnext', hafter⟩ := path_cons_iff.1 h.of_append
    obtain rfl := Option.some.inj (hnext.symm.trans hnext')
    apply hafter.congr
    intro other hmem
    rw [hlinks other (List.mem_append_right _ hmem), if_neg]
    -- What is behind the entry is not before it.
    intro hlast
    exact (List.nodup_append.1 h.nodup).2.2 _ (List.mem_of_getLast? hlast) _
      (List.mem_cons_of_mem _ hmem) rfl
  exact h.splice hafter fun other hmem => hlinks other (List.mem_append_left _ hmem)

end Path

end Arena

end BulkLookup
