import BulkLookup.Arena.Basic

/-!
# What handles name after a change

An arena is known by the value that each handle names. This module restates the laws of arenas in
the form in which they are used, and draws from them how many values there are after each change: as
many as handles name one.

## Main results

* `Arena.get?_insert_fresh`, `Arena.get?_insert_self`, `Arena.get?_insert_of_ne`,
  `Arena.get?_modify`, `Arena.get?_remove` — what a handle names after a change
* `Arena.length_le_size` — no more values can be named than there are
* `Arena.size_insert`, `Arena.size_modify`, `Arena.size_remove` — how many values there are after a
  change
-/

namespace BulkLookup

namespace Arena

variable [Storage] {α : Type}

/-! ### What handles name -/

@[simp] theorem get?_empty (h : Handle) : (empty : Arena α).get? h = none :=
  Storage.get?_empty h

/-- The new handle named nothing before. -/
@[simp] theorem get?_insert_fresh (a : Arena α) (value : α) :
    a.get? (a.insert value).1 = none :=
  Storage.get?_insert_fresh a value

/-- The new handle names the value stored. -/
@[simp] theorem get?_insert_self (a : Arena α) (value : α) :
    (a.insert value).2.get? (a.insert value).1 = some value :=
  (Storage.get?_insert a value _).trans (if_pos rfl)

/-- Storing a value changes no other handle. -/
theorem get?_insert_of_ne {a : Arena α} {value : α} {h : Handle}
    (hne : h ≠ (a.insert value).1) : (a.insert value).2.get? h = a.get? h :=
  (Storage.get?_insert a value h).trans (if_neg hne)

/-- A change through a handle is a change of what that handle names, and of nothing else. -/
theorem get?_modify (a : Arena α) (h k : Handle) (f : α → α) :
    (a.modify h f).get? k = if k = h then (a.get? k).map f else a.get? k :=
  Storage.get?_modify a h k f

@[simp] theorem fst_remove (a : Arena α) (h : Handle) : (a.remove h).1 = a.get? h :=
  Storage.fst_remove a h

/-- A handle whose value was taken out names nothing, and no other handle changes. -/
theorem get?_remove (a : Arena α) (h k : Handle) :
    (a.remove h).2.get? k = if k = h then none else a.get? k :=
  Storage.get?_remove a h k

theorem mem_handles_iff {a : Arena α} {h : Handle} : h ∈ a.handles ↔ (a.get? h).isSome = true :=
  Storage.mem_handles_iff a h

theorem nodup_handles (a : Arena α) : a.handles.Nodup := Storage.nodup_handles a

theorem length_handles (a : Arena α) : a.handles.length = a.size := Storage.length_handles a

/-! ### How many values there are -/

/-- No more values can be named than there are. -/
theorem length_le_size (a : Arena α) {nodes : List Handle} (hnodup : nodes.Nodup)
    (hlive : ∀ node ∈ nodes, (a.get? node).isSome = true) : nodes.length ≤ a.size := by
  rw [← length_handles]
  exact hnodup.length_le_of_subset fun node hmem => mem_handles_iff.2 (hlive node hmem)

/-- Handles without repetition are as many as there are values if they are those that name one. -/
theorem length_eq_size {a : Arena α} {nodes : List Handle} (hnodup : nodes.Nodup)
    (hlive : ∀ node, node ∈ nodes ↔ (a.get? node).isSome = true) : nodes.length = a.size := by
  rw [← length_handles]
  refine ((List.perm_ext_iff_of_nodup hnodup a.nodup_handles).2 fun node => ?_).length_eq
  rw [hlive, mem_handles_iff]

@[simp] theorem size_empty : (empty : Arena α).size = 0 :=
  (length_eq_size .nil (by simp)).symm

@[simp] theorem size_insert (a : Arena α) (value : α) :
    (a.insert value).2.size = a.size + 1 := by
  have hnodup : ((a.insert value).1 :: a.handles).Nodup := by
    refine List.nodup_cons.2 ⟨fun hmem => ?_, a.nodup_handles⟩
    simp [mem_handles_iff] at hmem
  rw [← length_handles a, ← List.length_cons, length_eq_size hnodup]
  intro node
  by_cases hnode : node = (a.insert value).1
  · simp [hnode]
  · rw [List.mem_cons, or_iff_right hnode, mem_handles_iff, get?_insert_of_ne hnode]

@[simp] theorem size_modify (a : Arena α) (h : Handle) (f : α → α) :
    (a.modify h f).size = a.size := by
  rw [← length_handles a, length_eq_size a.nodup_handles]
  intro node
  rw [mem_handles_iff, get?_modify]
  split
  · rw [Option.isSome_map]
  · rfl

theorem size_remove {a : Arena α} {h : Handle} {value : α} (hvalue : a.get? h = some value) :
    (a.remove h).2.size + 1 = a.size := by
  have hnodup : (h :: (a.remove h).2.handles).Nodup := by
    refine List.nodup_cons.2 ⟨fun hmem => ?_, nodup_handles _⟩
    simp [mem_handles_iff, get?_remove] at hmem
  rw [← length_handles (a.remove h).2, ← List.length_cons (a := h), length_eq_size hnodup]
  intro node
  rw [List.mem_cons, mem_handles_iff, get?_remove]
  by_cases hnode : node = h
  · simp [hnode, hvalue]
  · simp [hnode]

end Arena

end BulkLookup
