import BulkLookup.Proofs.Table.Order
import Mathlib.Algebra.Group.Nat.Defs
import Mathlib.Data.Nat.Log
import Mathlib.Order.Bounds.Basic
import Mathlib.Order.MinMax

/-!
# How many buckets a table has

The number of buckets follows from the greatest number of entries that a table ever held, and from
its ceiling: there are as many as it takes for those entries to fill at most half of them, rounded
up to a power of two, at least as many as a table starts with, and no more than the ceiling allows.
Hence buckets are never given back, and below its ceiling a table is at most half full.

One operation stores at most one entry, and only then the table grows. What an operation does to the
size of a table is said once, in `Table.Edit.sizeStep`, and what growing does to it in
`Table.WellFormed.capacity_grow`.

## Main definitions

* `Table.bucketsFor` — the least power of two of which a number of entries fills at most half
* `Table.peakCount` — the greatest number of entries in the course of a history
* `Table.Sized` — the size that a table has after so many entries

## Main results

* `Table.isGreatest_ceilingBelow` — the ceiling is the greatest power of two that is allowed
* `Table.Sized.perform`, `Table.Sized.run` — the size after an operation, and after a history
* `Table.capacity_run` — the number of buckets after a history
-/

namespace BulkLookup

namespace Table

variable {items peak : Nat}

/-! ### Powers of two -/

/-- The least power of two of which `items` entries fill at most half. -/
def bucketsFor (items : Nat) : Nat := 2 ^ Nat.clog 2 (2 * items)

theorem isPowerOfTwo_bucketsFor (items : Nat) : (bucketsFor items).isPowerOfTwo := ⟨_, rfl⟩

theorem bucketsFor_le_iff {p : Nat} (hp : p.isPowerOfTwo) :
    bucketsFor items ≤ p ↔ 2 * items ≤ p := by
  obtain ⟨k, rfl⟩ := hp
  rw [bucketsFor, Nat.pow_le_pow_iff_right Nat.one_lt_two, Nat.clog_le_iff_le_pow Nat.one_lt_two]

theorem two_mul_le_bucketsFor (items : Nat) : 2 * items ≤ bucketsFor items :=
  (bucketsFor_le_iff (isPowerOfTwo_bucketsFor items)).1 (Nat.le_refl _)

theorem isLeast_bucketsFor (items : Nat) :
    IsLeast {p : Nat | p.isPowerOfTwo ∧ 2 * items ≤ p} (bucketsFor items) :=
  ⟨⟨isPowerOfTwo_bucketsFor items, two_mul_le_bucketsFor items⟩,
    fun _ hp => (bucketsFor_le_iff hp.1).2 hp.2⟩

theorem bucketsFor_mono : Monotone bucketsFor := fun _ items' hle =>
  (bucketsFor_le_iff (isPowerOfTwo_bucketsFor items')).2
    (Nat.le_trans (Nat.mul_le_mul_left 2 hle) (two_mul_le_bucketsFor items'))

/-- Between a power of two and its double there is no other. -/
theorem double_le_of_lt {p p' : Nat} (hp : p.isPowerOfTwo) (hp' : p'.isPowerOfTwo) (h : p < p') :
    2 * p ≤ p' := by
  obtain ⟨k, rfl⟩ := hp
  obtain ⟨k', rfl⟩ := hp'
  rw [← Nat.pow_succ']
  exact Nat.pow_le_pow_right Nat.two_pos ((Nat.pow_lt_pow_iff_right Nat.one_lt_two).1 h)

/-- The ceiling under a bound is the greatest power of two that the bound allows. -/
theorem isGreatest_ceilingBelow {most : UInt64} (hmost : 1 ≤ most) :
    IsGreatest {p : Nat | p.isPowerOfTwo ∧ p ≤ most.toNat} (ceilingBelow most) := by
  have hne : most.toNat ≠ 0 := Nat.ne_of_gt (UInt64.le_iff_toNat_le.1 hmost)
  refine ⟨⟨isPowerOfTwo_ceilingBelow most, ?_⟩, ?_⟩
  · rw [ceilingBelow, Nat.one_shiftLeft]
    exact Nat.log2_self_le hne
  · rintro p ⟨⟨k, rfl⟩, hle⟩
    rw [ceilingBelow, Nat.one_shiftLeft]
    exact Nat.pow_le_pow_right Nat.two_pos ((Nat.le_log2 hne).2 hle)

section AnyStorage

variable [Storage] {κ ν : Type} {t grown : Table κ ν}

/-! ### Growing -/

section WellFormed

variable [BEq κ]

/-- A table that may not double has as many buckets as its ceiling allows. -/
theorem WellFormed.capacity_eq_ceiling (ht : t.WellFormed) (hceiling : t.ceiling.isPowerOfTwo)
    (hle : t.capacity ≤ t.ceiling) (hroom : ¬ (0 < t.capacity ∧ 2 * t.capacity ≤ t.ceiling)) :
    t.capacity = t.ceiling := by
  apply Nat.le_antisymm hle
  apply Nat.le_of_not_lt
  intro hlt
  exact hroom ⟨ht.capacity_pos, double_le_of_lt ht.capacity_isPowerOfTwo hceiling hlt⟩

/-- A table grows to the buckets that its entries need, or as far as its ceiling allows. -/
theorem WellFormed.capacity_grow (ht : t.WellFormed) (hceiling : t.ceiling.isPowerOfTwo)
    (hle : t.capacity ≤ t.ceiling) {events : Array Event} (hgrown : t.grow = .ok (grown, events)) :
    grown.capacity = min t.ceiling (max t.capacity (bucketsFor t.count)) := by
  fun_induction Table.grow t generalizing grown events with
  | case1 => cases hgrown
  | case2 t items capacity hload hroom moved hmoved =>
    rename_i ih
    have hcount := ht.count_resize (Nat.mul_pos Nat.two_pos ht.capacity_pos) hmoved
    -- The entries need twice the buckets at least, so doubling makes no difference in the end.
    have hdouble : 2 * t.capacity ≤ bucketsFor t.count := by
      apply double_le_of_lt ht.capacity_isPowerOfTwo (isPowerOfTwo_bucketsFor _)
      rw [← Nat.not_le, bucketsFor_le_iff ht.capacity_isPowerOfTwo, Nat.not_le]
      exact of_decide_eq_true hload
    obtain ⟨⟨grown', events'⟩, hgrown', heq⟩ := Except.map_eq_ok.1 hgrown
    obtain ⟨rfl, -⟩ := Prod.mk.inj heq
    have hcapacity : moved.capacity = 2 * t.capacity := capacity_resize hmoved
    have hceiling' : moved.ceiling = t.ceiling := ceiling_resize hmoved
    have hgrow := ih (ht.resize_double hmoved) (hceiling'.symm ▸ hceiling)
      (by rw [hcapacity, hceiling']; exact hroom.2) hgrown'
    rw [hcapacity, hcount, hceiling', Nat.max_eq_right hdouble] at hgrow
    rw [Nat.max_eq_right (by omega)]
    exact hgrow
  | case3 t items capacity hload hroom =>
    cases hgrown
    rw [← ht.capacity_eq_ceiling hceiling hle hroom, Nat.min_eq_left (Nat.le_max_left _ _)]
  | case4 t items capacity hload hroom =>
    cases hgrown
    rw [← ht.capacity_eq_ceiling hceiling hle hroom, Nat.min_eq_left (Nat.le_max_left _ _)]
  | case5 t hload =>
    cases hgrown
    have hfits : bucketsFor t.count ≤ t.capacity := by
      rw [bucketsFor_le_iff ht.capacity_isPowerOfTwo, ← Nat.not_lt]
      exact fun hlt => hload (decide_eq_true hlt)
    rw [Nat.max_eq_left hfits, Nat.min_eq_right hle]

end WellFormed

/-! ### One operation -/

/-- What an operation does to the size of a table: it stores no entry, and the number of buckets
stays, or it adds one entry to the table and lets it grow. -/
inductive SizeStep [BEq κ] (t t' : Table κ ν) (events : Array Event) : Prop where
  | kept : t'.count ≤ t.count → t'.capacity = t.capacity → t'.ceiling = t.ceiling →
    events = #[] → SizeStep t t' events
  | grew (added grown : Table κ ν) : added.WellFormed → added.count = t.count + 1 →
    added.capacity = t.capacity → added.ceiling = t.ceiling → added.grow = .ok (grown, events) →
    t'.count = grown.count → t'.capacity = grown.capacity → t'.ceiling = grown.ceiling →
    SizeStep t t' events

variable [BEq κ]

/-- Only an edit that stores an entry makes a table greater, and changing values keeps the size. -/
theorem Edit.sizeStep [PartialEquivBEq κ] {operation : Operation κ ν} {t' : Table κ ν}
    {events : Array Event} (h : t.Edit operation t' events) (ht : t.WellFormed) :
    SizeStep t t' events := by
  induction h with
  | kept => exact .kept (Nat.le_refl _) rfl rfl rfl
  | @wrote operation t' events node f _ ih =>
    cases ih with
    | kept hcount hcapacity hceiling hevents =>
      exact .kept ((count_modifyValue t' node f).trans_le hcount) hcapacity hceiling hevents
    | grew added grown hadded hcount hcapacity hceiling hgrown hcount' hcapacity' hceiling' =>
      exact .grew added grown hadded hcount hcapacity hceiling hgrown
        ((count_modifyValue t' node f).trans hcount') hcapacity' hceiling'
  | @stored operation key value grown events hnone hgrown =>
    exact .grew (t.added key value) grown (ht.attach rfl hnone) (count_attach ..)
      (capacity_attach ..) (ceiling_attach ..) hgrown rfl rfl rfl
  | @took key node e before after hget hfor hchain =>
    have hcount : (t.detach before.getLast? node e).count + 1 = t.count := count_detach hget
    exact .kept (Nat.le.intro hcount) (capacity_detach ..) (ceiling_detach ..) rfl

theorem WellFormed.sizeStep_perform [PartialEquivBEq κ] (ht : t.WellFormed)
    (operation : Operation κ ν) :
    SizeStep t (t.perform operation).table (t.perform operation).events :=
  (ht.edit_perform operation).sizeStep ht

/-! ### Histories -/

/-- The greatest number of entries that a table holds in the course of a history: before it, after
it, or between two of its operations. -/
def peakCount (t : Table κ ν) : List (Operation κ ν) → Nat
  | [] => t.count
  | operation :: history => max t.count ((t.perform operation).table.peakCount history)

theorem count_le_peakCount (t : Table κ ν) (history : List (Operation κ ν)) :
    t.count ≤ t.peakCount history := by
  cases history with
  | nil => exact Nat.le_refl _
  | cons operation history => exact Nat.le_max_left _ _

theorem peakCount_append (t : Table κ ν) (past future : List (Operation κ ν)) :
    t.peakCount (past ++ future) = max (t.peakCount past) ((t.run past).peakCount future) := by
  induction past generalizing t with
  | nil => exact (Nat.max_eq_right (t.count_le_peakCount future)).symm
  | cons operation past ih =>
    rw [List.cons_append, peakCount, ih, peakCount, Nat.max_assoc]
    rfl

/-- The size of a table with the given ceiling that held `peak` entries at most so far. -/
structure Sized (ceiling peak : Nat) (t : Table κ ν) : Prop where
  ceiling_eq : t.ceiling = ceiling
  count_le : t.count ≤ peak
  capacity_eq : t.capacity = min ceiling (max initialCapacity (bucketsFor peak))

variable {ceiling : Nat}

omit [BEq κ] in
theorem sized_withCeiling (hasher : κ → UInt64) (ceiling : Nat) :
    Sized ceiling 0 (withCeiling hasher ceiling : Table κ ν) where
  ceiling_eq := rfl
  count_le := Nat.le_of_eq (count_withCeiling hasher ceiling)
  capacity_eq := by
    rw [capacity_withCeiling, Nat.min_comm]
    rfl

namespace Sized

/-- An operation raises the peak to the number of entries that there are then, if it was lower. -/
theorem perform (h : t.Sized ceiling peak) (hceiling : ceiling.isPowerOfTwo) {t' : Table κ ν}
    {events : Array Event} (hstep : SizeStep t t' events) :
    t'.Sized ceiling (max peak t'.count) := by
  cases hstep with
  | kept hcount hcapacity hceiling' hevents =>
    have hle := Nat.le_trans hcount h.count_le
    rw [Nat.max_eq_left hle]
    exact ⟨hceiling'.trans h.ceiling_eq, hle, hcapacity.trans h.capacity_eq⟩
  | grew added grown hadded hcount hcapacity hceiling' hgrown hcount₁ hcapacity₁ hceiling₁ =>
    have hgrow := hadded.capacity_grow (by rwa [hceiling', h.ceiling_eq])
      (by rw [hcapacity, hceiling', h.capacity_eq, h.ceiling_eq]; exact Nat.min_le_left _ _) hgrown
    have hmono := bucketsFor_mono.map_max (a := peak) (b := added.count)
    rw [hcount₁, hadded.count_grow hgrown]
    refine ⟨?_, ?_, ?_⟩
    · rw [hceiling₁, ceiling_grow hgrown, hceiling', h.ceiling_eq]
    · rw [hcount₁, hadded.count_grow hgrown]
      exact Nat.le_max_right _ _
    · rw [hcapacity₁, hgrow, hcapacity, hceiling', h.capacity_eq, h.ceiling_eq, hmono]
      omega

/-- A history raises the peak to that of the history. -/
theorem run [PartialEquivBEq κ] (h : t.Sized ceiling peak) (hceiling : ceiling.isPowerOfTwo)
    {l : PairList κ ν} {rows : List (Row κ ν)} (hrepresents : t.Represents l rows)
    (history : List (Operation κ ν)) :
    (t.run history).Sized ceiling (max peak (t.peakCount history)) := by
  induction history generalizing t l rows peak with
  | nil =>
    rw [peakCount, Nat.max_eq_left h.count_le]
    exact h
  | cons operation history ih =>
    obtain ⟨-, rows', hrepresents'⟩ := hrepresents.perform operation
    have hperformed := h.perform hceiling (hrepresents.lists.wellFormed.sizeStep_perform operation)
    have hpeak : max peak (t.peakCount (operation :: history)) =
        max (max peak (t.perform operation).table.count)
          ((t.perform operation).table.peakCount history) := by
      have hcount := (t.perform operation).table.count_le_peakCount history
      have hle := h.count_le
      rw [peakCount]
      omega
    rw [hpeak]
    exact ih hperformed hrepresents'

end Sized

/-! ### From an empty table on -/

/-- The size of a table after a history from an empty one. -/
theorem IsFresh.sized_run [PartialEquivBEq κ] {hasher : κ → UInt64} {t₀ : Table κ ν}
    (h₀ : t₀.IsFresh hasher) (history : List (Operation κ ν)) :
    (t₀.run history).Sized t₀.ceiling (t₀.peakCount history) := by
  obtain ⟨ceiling, hceiling, rfl⟩ := h₀.exists_eq
  have hrun := (sized_withCeiling hasher ceiling).run hceiling
    (represents_withCeiling hasher hceiling) history
  rwa [Nat.zero_max] at hrun

/-- An unbounded table may have up to two to the power of 63 buckets, and a bounded one up to the
greatest power of two that its bound allows; no history changes that.

After any history there are as many buckets as are needed for the greatest number of entries so far
to fill at most half of them: the least power of two that is enough, but at least eight, and at most
the ceiling. Hence the number of buckets is always a power of two within the ceiling, no operation
lowers it, nothing else in a history matters for it, and at most half as many entries are there,
unless the ceiling is reached. -/
theorem capacity_run [PartialEquivBEq κ] (hasher : κ → UInt64) :
    (unbounded hasher : Table κ ν).ceiling = 2 ^ 63 ∧
    (∀ most : UInt64, 1 ≤ most → ∃ t₀ : Table κ ν, bounded hasher most = .ok t₀ ∧
      IsGreatest {p : Nat | p.isPowerOfTwo ∧ p ≤ most.toNat} t₀.ceiling) ∧
    ∀ t₀ : Table κ ν, t₀.IsFresh hasher → ∀ history : List (Operation κ ν),
      let t := t₀.run history
      t.ceiling = t₀.ceiling ∧
      (∃ needed, IsLeast {p : Nat | p.isPowerOfTwo ∧ 2 * t₀.peakCount history ≤ p} needed ∧
        t.capacity = min t₀.ceiling (max 8 needed)) ∧
      t.capacity.isPowerOfTwo ∧ t.capacity ≤ t₀.ceiling ∧
      (∀ future, t.capacity ≤ (t.run future).capacity) ∧
      (∀ history', t₀.peakCount history' = t₀.peakCount history →
        (t₀.run history').capacity = t.capacity) ∧
      (2 * t.count ≤ t.capacity ∨ t.capacity = t₀.ceiling) := by
  refine ⟨rfl, fun most hmost => ?_, fun t₀ h₀ history => ?_⟩
  · exact ⟨_, bounded_eq hasher hmost, isGreatest_ceilingBelow hmost⟩
  · intro t
    obtain ⟨hceiling, hcount, hcapacity⟩ : t.Sized t₀.ceiling (t₀.peakCount history) :=
      h₀.sized_run history
    obtain ⟨-, rows, hrepresents⟩ := h₀.represents.run history
    rw [initialCapacity] at hcapacity
    refine ⟨hceiling, ⟨_, isLeast_bucketsFor _, hcapacity⟩,
      hrepresents.lists.wellFormed.capacity_isPowerOfTwo, ?_, fun future => ?_,
      fun history' hpeak => ?_, ?_⟩
    · rw [hcapacity]
      exact Nat.min_le_left _ _
    · -- A longer history has no lower peak.
      have hlater := (h₀.sized_run (history ++ future)).capacity_eq
      have hmono : bucketsFor (t₀.peakCount history) ≤
          bucketsFor (t₀.peakCount (history ++ future)) := by
        apply bucketsFor_mono
        rw [peakCount_append]
        exact Nat.le_max_left _ _
      rw [run_append] at hlater
      rw [hlater, hcapacity, initialCapacity]
      omega
    · rw [(h₀.sized_run history').capacity_eq, hpeak, hcapacity, initialCapacity]
    · -- The entries that are there do not need more buckets than those at the peak.
      have hneeded := two_mul_le_bucketsFor (t₀.peakCount history)
      omega

end AnyStorage

/-- Five entries under a bound of forty buckets: the ceiling is 32, the table grows from eight
buckets to sixteen, and it keeps them when three of the entries are taken out. -/
theorem capacity_run_of_tagged_keys :
    let k : UInt64 → TaggedKey := fun digest => ⟨digest, "a", "key"⟩
    let history : List (Operation TaggedKey Nat) :=
      [.insert (k 0) 0 id, .insert (k 1) 1 id, .insert (k 2) 2 id, .update (k 3) 3 id,
        .insert (k 4) 4 id, .insert (k 4) 5 id, .remove (k 0), .remove (k 1), .remove (k 2)]
    ∃ t₀ : Table TaggedKey Nat, bounded TaggedKey.digest 40 = .ok t₀ ∧ t₀.ceiling = 32 ∧
      t₀.peakCount history = 5 ∧ (t₀.run history).count = 2 ∧ (t₀.run history).capacity = 16 := by
  intro k history
  have hbounded : bounded TaggedKey.digest 40 =
      .ok (withCeiling TaggedKey.digest 32 : Table TaggedKey Nat) := rfl
  have hpeak : (withCeiling TaggedKey.digest 32 : Table TaggedKey Nat).peakCount history = 5 := by
    decide +kernel
  obtain ⟨-, ⟨needed, hneeded, hcapacity⟩, -⟩ :=
    (capacity_run TaggedKey.digest).2.2 _ (.inr ⟨40, hbounded⟩) history
  rw [hpeak] at hneeded
  rw [hneeded.unique (isLeast_bucketsFor 5)] at hcapacity
  exact ⟨_, hbounded, rfl, hpeak, by decide +kernel, hcapacity.trans (by decide)⟩

end Table

end BulkLookup
