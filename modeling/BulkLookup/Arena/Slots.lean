import BulkLookup.Arena.Basic

/-!
# Arenas of numbered slots

An arena that keeps its values in numbered slots. A slot is used again after its value was removed,
with its generation raised; a handle carries the generation it was made in, so a handle to a removed
value never comes to mean another one.

The number of values and the list of vacant slots are kept beside the slots, and the arena carries
the proof that they agree with them.

## Main definitions

* `SlotHandle` — names a slot in one of its generations
* `SlotArena` — the slots, the vacant ones and the number of values
* `SlotArena.get?`, `SlotArena.handles` — what is there
* `SlotArena.insert`, `SlotArena.modify`, `SlotArena.remove` — the changes
* the instance of `Storage` for them
-/

namespace BulkLookup

/-- Names a slot of an arena in one of its generations. -/
structure SlotHandle where
  index : Nat
  generation : Nat
deriving DecidableEq, Repr

/-- A slot: its generation, and its value unless it is vacant. -/
structure Slot (α : Type) where
  generation : Nat
  value : Option α
deriving Repr

/-- Whether a slot holds a value. -/
def Slot.isOccupied {α : Type} (s : Slot α) : Bool := s.value.isSome

/-- Values in numbered slots that are used again. -/
structure SlotArena (α : Type) where
  slots : Array (Slot α)
  /-- Vacant slots, the next one to be used first. -/
  vacant : List Nat
  /-- How many values the arena holds. -/
  size : Nat
  vacant_nodup : vacant.Nodup
  /-- A slot in the list of vacant ones exists and holds no value. -/
  vacant_empty : ∀ i ∈ vacant, ∃ s, slots[i]? = some s ∧ s.value = none
  size_eq : size = slots.countP Slot.isOccupied

namespace SlotArena

variable {α : Type}

/-- An arena without values. -/
def empty : SlotArena α := ⟨#[], [], 0, .nil, by simp, rfl⟩

/-- The value that a handle names, if it still names one. -/
def get? (a : SlotArena α) (h : SlotHandle) : Option α :=
  match a.slots[h.index]? with
  | none => none
  | some s => if s.generation = h.generation then s.value else none

theorem value_eq_none {slots : Array (Slot α)} {vacant : List Nat} {i : Nat}
    (h : ∀ i ∈ vacant, ∃ s, slots[i]? = some s ∧ s.value = none) (hi : i ∈ vacant) :
    ∃ bound : i < slots.size, slots[i].value = none := by
  obtain ⟨s, hs, hv⟩ := h i hi
  obtain ⟨bound, rfl⟩ := Array.getElem?_eq_some_iff.1 hs
  exact ⟨bound, hv⟩

/-- Stores a value in a vacant slot, or in a new one, and makes a handle for it. -/
def insert : SlotArena α → α → SlotHandle × SlotArena α
  | ⟨slots, i :: vacant, size, vacant_nodup, vacant_empty, size_eq⟩, value =>
    have bound : i < slots.size := (value_eq_none vacant_empty List.mem_cons_self).1
    let generation := slots[i].generation
    (⟨i, generation⟩, {
      slots := slots.set i ⟨generation, some value⟩
      vacant
      size := size + 1
      vacant_nodup := (List.nodup_cons.1 vacant_nodup).2
      vacant_empty := by
        intro j hj
        have hne : i ≠ j := fun h => (List.nodup_cons.1 vacant_nodup).1 (h ▸ hj)
        rw [Array.getElem?_set, if_neg hne]
        exact vacant_empty j (List.mem_cons_of_mem _ hj)
      size_eq := by
        obtain ⟨_, hv⟩ := value_eq_none vacant_empty List.mem_cons_self
        simp [Array.countP_set, Slot.isOccupied, hv, size_eq] })
  | ⟨slots, [], size, _, _, size_eq⟩, value =>
    (⟨slots.size, 0⟩, {
      slots := slots.push ⟨0, some value⟩
      vacant := []
      size := size + 1
      vacant_nodup := .nil
      vacant_empty := by simp
      size_eq := by simp [Array.countP_push, Slot.isOccupied, size_eq] })

/-- Changes the value that a handle names, if it still names one. -/
def modify : SlotArena α → SlotHandle → (α → α) → SlotArena α
  | ⟨slots, vacant, size, vacant_nodup, vacant_empty, size_eq⟩, h, f =>
    if live : ∃ bound : h.index < slots.size, slots[h.index].generation = h.generation then
      have bound : h.index < slots.size := live.elim fun bound _ => bound
      let value := slots[h.index].value
      { slots := slots.set h.index ⟨h.generation, value.map f⟩
        vacant
        size
        vacant_nodup
        vacant_empty := by
          intro j hj
          obtain ⟨_, hv⟩ := value_eq_none vacant_empty hj
          rw [Array.getElem?_set]
          split
          · next heq => exact ⟨_, rfl, by simp [value, heq, hv]⟩
          · exact vacant_empty j hj
        size_eq := by
          have hle := Array.boole_getElem_le_countP (p := Slot.isOccupied) bound
          simp only [Array.countP_set, Slot.isOccupied, value, Option.isSome_map] at hle ⊢
          exact size_eq.trans (Nat.sub_add_cancel hle).symm }
    else ⟨slots, vacant, size, vacant_nodup, vacant_empty, size_eq⟩

/-- Takes the value that a handle names out, if it still names one. -/
def remove : SlotArena α → SlotHandle → Option α × SlotArena α
  | ⟨slots, vacant, size, vacant_nodup, vacant_empty, size_eq⟩, h =>
    if live : ∃ bound : h.index < slots.size, slots[h.index].generation = h.generation then
      have bound : h.index < slots.size := live.elim fun bound _ => bound
      match hv : slots[h.index].value with
      | none => (none, ⟨slots, vacant, size, vacant_nodup, vacant_empty, size_eq⟩)
      | some value => (some value, {
          -- The next generation begins: no handle made so far fits the slot any more.
          slots := slots.set h.index ⟨h.generation + 1, none⟩
          vacant := h.index :: vacant
          size := size - 1
          vacant_nodup := by
            refine List.nodup_cons.2 ⟨fun hi => ?_, vacant_nodup⟩
            obtain ⟨_, hnone⟩ := value_eq_none vacant_empty hi
            simp [hv] at hnone
          vacant_empty := by
            intro j hj
            rw [Array.getElem?_set]
            split
            · exact ⟨_, rfl, rfl⟩
            · next hne =>
              exact vacant_empty j ((List.mem_cons.1 hj).resolve_left fun h => hne h.symm)
          size_eq := by simp [Array.countP_set, Slot.isOccupied, hv, size_eq] })
    else (none, ⟨slots, vacant, size, vacant_nodup, vacant_empty, size_eq⟩)

/-! ### What handles name -/

@[simp] theorem get?_empty (h : SlotHandle) : (empty : SlotArena α).get? h = none := rfl

/-- A handle names a value when its slot exists, is in the handle's generation and holds it. -/
theorem get?_eq_some_iff {a : SlotArena α} {h : SlotHandle} {value : α} :
    a.get? h = some value ↔ a.slots[h.index]? = some ⟨h.generation, some value⟩ := by
  unfold get?
  split
  · next hs => simp [hs]
  · next s hs =>
    obtain ⟨generation, content⟩ := s
    simp only [hs, Option.some.injEq, Slot.mk.injEq]
    split <;> simp_all

theorem get?_eq_of_slot {a b : SlotArena α} {h : SlotHandle}
    (hs : a.slots[h.index]? = b.slots[h.index]?) : a.get? h = b.get? h := by
  unfold get?
  rw [hs]

/-- The new handle names the value stored. -/
@[simp] theorem get?_insert_self (a : SlotArena α) (value : α) :
    (a.insert value).2.get? (a.insert value).1 = some value := by
  rcases a with ⟨slots, _ | ⟨i, vacant⟩, size, vacant_nodup, vacant_empty, size_eq⟩ <;>
  simp [insert, get?_eq_some_iff]

/-- The new handle named nothing before. -/
@[simp] theorem get?_insert_fresh (a : SlotArena α) (value : α) :
    a.get? (a.insert value).1 = none := by
  rcases a with ⟨slots, _ | ⟨i, vacant⟩, size, vacant_nodup, vacant_empty, size_eq⟩
  · simp [insert, get?]
  · obtain ⟨bound, hv⟩ := value_eq_none vacant_empty List.mem_cons_self
    simp [insert, get?, Array.getElem?_eq_getElem bound, hv]

/-- Storing a value changes no other handle. -/
theorem get?_insert_of_ne {a : SlotArena α} {value : α} {h : SlotHandle}
    (hne : h ≠ (a.insert value).1) : (a.insert value).2.get? h = a.get? h := by
  obtain ⟨index, generation⟩ := h
  rcases a with ⟨slots, _ | ⟨i, vacant⟩, size, vacant_nodup, vacant_empty, size_eq⟩
  · simp only [insert, ne_eq, SlotHandle.mk.injEq, not_and] at hne ⊢
    by_cases hi : index = slots.size
    · simp [get?, hi, Ne.symm (hne hi)]
    · exact get?_eq_of_slot (by simp [Array.getElem?_push, hi])
  · simp only [insert, ne_eq, SlotHandle.mk.injEq, not_and] at hne ⊢
    obtain ⟨bound, hv⟩ := value_eq_none vacant_empty List.mem_cons_self
    by_cases hi : index = i
    · subst hi
      simp [get?, Array.getElem?_eq_getElem bound, Ne.symm (hne rfl)]
    · exact get?_eq_of_slot (by simp [Ne.symm hi])

/-- A handle out of the generation of its slot names nothing. -/
theorem get?_eq_none_of_dead {a : SlotArena α} {h : SlotHandle}
    (dead : ¬ ∃ bound : h.index < a.slots.size, a.slots[h.index].generation = h.generation) :
    a.get? h = none := by
  unfold get?
  split
  · rfl
  · next s hs =>
    obtain ⟨bound, rfl⟩ := Array.getElem?_eq_some_iff.1 hs
    exact if_neg fun hgen => dead ⟨bound, hgen⟩

/-- A change through a handle is a change of what that handle names, and of nothing else. -/
theorem get?_modify (a : SlotArena α) (h k : SlotHandle) (f : α → α) :
    (a.modify h f).get? k = if k = h then (a.get? k).map f else a.get? k := by
  obtain ⟨slots, vacant, size, vacant_nodup, vacant_empty, size_eq⟩ := a
  obtain ⟨index, generation⟩ := h
  obtain ⟨index', generation'⟩ := k
  simp only [modify, SlotHandle.mk.injEq]
  split
  · next live =>
    obtain ⟨bound, hgen⟩ := live
    by_cases hi : index' = index
    · subst hi
      simp only [get?, Array.getElem?_set, Array.getElem?_eq_getElem bound, hgen]
      by_cases hg : generation' = generation <;> simp [hg, Ne.symm]
    · simp only [hi, false_and, if_false]
      exact get?_eq_of_slot (by simp [Ne.symm hi])
  · next dead =>
    split
    · next heq =>
      obtain ⟨rfl, rfl⟩ := heq
      rw [get?_eq_none_of_dead dead, Option.map_none]
    · rfl

@[simp] theorem fst_remove (a : SlotArena α) (h : SlotHandle) : (a.remove h).1 = a.get? h := by
  obtain ⟨slots, vacant, size, vacant_nodup, vacant_empty, size_eq⟩ := a
  simp only [remove]
  split
  · next live =>
    obtain ⟨bound, hgen⟩ := live
    split <;> next hv => simp [get?, Array.getElem?_eq_getElem bound, hgen, hv]
  · next dead => exact (get?_eq_none_of_dead dead).symm

/-- A handle whose value was taken out names nothing, and no other handle changes. -/
theorem get?_remove (a : SlotArena α) (h k : SlotHandle) :
    (a.remove h).2.get? k = if k = h then none else a.get? k := by
  obtain ⟨slots, vacant, size, vacant_nodup, vacant_empty, size_eq⟩ := a
  obtain ⟨index, generation⟩ := h
  obtain ⟨index', generation'⟩ := k
  simp only [remove, SlotHandle.mk.injEq]
  split
  · next live =>
    obtain ⟨bound, hgen⟩ := live
    split
    · next hv =>
      split
      · next heq =>
        obtain ⟨rfl, rfl⟩ := heq
        simp [get?, Array.getElem?_eq_getElem bound, hv]
      · rfl
    · next value hv =>
      by_cases hi : index' = index
      · subst hi
        by_cases hg : generation' = generation <;>
        simp [get?, Array.getElem?_eq_getElem bound, hgen, hg, Ne.symm]
      · simp only [hi, false_and, if_false]
        exact get?_eq_of_slot (by simp [Ne.symm hi])
  · next dead =>
    split
    · next heq =>
      obtain ⟨rfl, rfl⟩ := heq
      exact get?_eq_none_of_dead dead
    · rfl

/-! ### Which handles name something -/

/-- The handle of the value in a numbered slot, if there is one. -/
def handleOf (numbered : Slot α × Nat) : Option SlotHandle :=
  numbered.1.value.map fun _ => ⟨numbered.2, numbered.1.generation⟩

/-- The handles that name a value, slot after slot. -/
def handles (a : SlotArena α) : List SlotHandle := a.slots.toList.zipIdx.filterMap handleOf

theorem mem_handles_iff (a : SlotArena α) (h : SlotHandle) :
    h ∈ a.handles ↔ (a.get? h).isSome = true := by
  obtain ⟨index, generation⟩ := h
  rw [handles, List.mem_filterMap, Option.isSome_iff_exists]
  constructor
  · rintro ⟨⟨⟨generation', content⟩, index'⟩, hmem, hhandle⟩
    obtain ⟨value, rfl, heq⟩ := Option.map_eq_some_iff.1 hhandle
    obtain ⟨rfl, rfl⟩ := SlotHandle.mk.inj heq
    rw [List.mem_zipIdx_iff_getElem?, Array.getElem?_toList] at hmem
    exact ⟨value, get?_eq_some_iff.2 hmem⟩
  · rintro ⟨value, hget⟩
    refine ⟨(⟨generation, some value⟩, index), ?_, rfl⟩
    rw [List.mem_zipIdx_iff_getElem?, Array.getElem?_toList]
    exact get?_eq_some_iff.1 hget

/-- Each slot gives one handle at most, and it has the number of the slot. -/
theorem nodup_handles (a : SlotArena α) : a.handles.Nodup := by
  have hnodup : (a.slots.toList.zipIdx.map Prod.snd).Nodup := by
    rw [List.zipIdx_map_snd]
    exact List.nodup_range'
  refine List.Pairwise.filterMap handleOf ?_ (List.pairwise_map.1 hnodup)
  intro numbered numbered' hne h hh h' hh' heq
  obtain ⟨_, -, rfl⟩ := Option.map_eq_some_iff.1 hh
  obtain ⟨_, -, rfl⟩ := Option.map_eq_some_iff.1 hh'
  exact hne (congrArg SlotHandle.index heq)

theorem length_handles (a : SlotArena α) : a.handles.length = a.size := by
  have hcount : a.slots.countP Slot.isOccupied =
      (a.slots.toList.zipIdx.map Prod.fst).countP Slot.isOccupied := by
    rw [List.zipIdx_map_fst, Array.countP_toList]
  rw [a.size_eq, hcount, List.countP_map, handles, List.length_filterMap_eq_countP]
  congr 1
  funext numbered
  rw [handleOf, Option.isSome_map]
  rfl

end SlotArena

/-- Numbered slots make a kind of arena. -/
instance : Storage where
  Handle := SlotHandle
  Arena := SlotArena
  inhabited := ⟨⟨0, 0⟩⟩
  empty := .empty
  get? := SlotArena.get?
  insert := SlotArena.insert
  modify := SlotArena.modify
  remove := SlotArena.remove
  size := SlotArena.size
  handles := SlotArena.handles
  get?_empty _ := rfl
  get?_insert_fresh := SlotArena.get?_insert_fresh
  get?_insert a value h := by
    split
    · next heq => rw [heq, SlotArena.get?_insert_self]
    · next hne => exact SlotArena.get?_insert_of_ne hne
  get?_modify := SlotArena.get?_modify
  fst_remove := SlotArena.fst_remove
  get?_remove := SlotArena.get?_remove
  mem_handles_iff := SlotArena.mem_handles_iff
  nodup_handles := SlotArena.nodup_handles
  length_handles := SlotArena.length_handles

end BulkLookup
