import BulkLookup.Proofs.Lookup.Visits
import BulkLookup.Proofs.Table.Ahead

/-!
# Walks to an entry that stays

A walk in search of a stored key visits the entries ahead of the one that is meant, and that one. No
operation puts an entry ahead of one that stays, so such a walk may get shorter in the course of
time but never longer. It gets shorter by one visit when an entry ahead is taken out, and by more
than that only when the buckets double and entries that were ahead go elsewhere.

## Main results

* `Table.WellFormed.visits_eq_length_ahead` — the visits by the entries ahead
* `Table.walks_never_lengthen` — walks to an entry after any further history
-/

namespace BulkLookup

open Resumable

namespace Table

section AnyStorage

variable [Storage] {κ ν : Type} [BEq κ]

variable {t t' : Table κ ν} {node : Handle} {e : Entry κ ν} {key : κ}

section Visits

variable [PartialEquivBEq κ]

/-- A search reads the entries ahead of the one that is meant, and that one. -/
theorem WellFormed.visits_eq_length_ahead (ht : t.WellFormed) (hget : t.arena.get? node = some e)
    (hfor : e.isFor (t.hasher key) key) : t.visits key = (t.ahead e.hash node).length + 1 := by
  obtain ⟨after, hchain⟩ := ht.chain_eq_ahead hget
  rw [(Entry.isFor_iff.1 hfor).1] at hchain
  rw [ht.visits_eq_of_isFor hchain hget hfor, (Entry.isFor_iff.1 hfor).1]

/-- While an entry stays, the same keys mean it, and their visits are told in the same way. -/
theorem WellFormed.visits_eq_of_label? (ht' : t'.WellFormed) (hget : t.arena.get? node = some e)
    (hhasher : t'.hasher = t.hasher) (hlabel : t'.label? node = t.label? node)
    (hfor : e.isFor (t.hasher key) key) : t'.visits key = (t'.ahead e.hash node).length + 1 := by
  obtain ⟨e', hget', hkey, hhash⟩ := exists_get?_of_label?_eq hlabel hget
  rw [← hhash]
  apply ht'.visits_eq_length_ahead hget'
  rwa [Entry.isFor_congr hkey hhash, hhasher]

end Visits

/-- Walks in search of a key that is stored in a table, which came about by any history.

As long as its entry is not taken out, whatever else is done, it stays behind its handle with its
key and its hash, and a walk suspends no more often afterwards than it did before. Of a single
operation: walks suspend as often as before; or one time less, and the operation has taken out an
entry ahead of the one in question; or the buckets have doubled, and the entries that are still
ahead are those of the earlier ones that belong into the same bucket. -/
theorem walks_never_lengthen [EquivBEq κ] (ht : t.IsReachable)
    (hget : t.arena.get? node = some e) :
    e.isFor (t.hasher e.key) e.key = true ∧
    ∀ key, e.isFor (t.hasher key) key = true →
      (∀ position, FinishesAfter (ChainWalk.ofQuery t position key) (t.visits key)) ∧
      (∀ future : List (Operation κ ν),
        (∀ q, .remove q ∈ future → ¬ e.isFor (t.hasher q) q = true) →
        let t' := t.run future
        (∃ e', t'.arena.get? node = some e' ∧ e'.key = e.key ∧ e'.hash = e.hash) ∧
        (∀ position, FinishesAfter (ChainWalk.ofQuery t' position key) (t'.visits key)) ∧
        t'.visits key ≤ t.visits key) ∧
      ∀ operation : Operation κ ν,
        (∀ q, operation = .remove q → ¬ e.isFor (t.hasher q) q = true) →
        let t' := t.run [operation]
        t'.visits key = t.visits key ∨
        (∃ q other e', operation = .remove q ∧ t.arena.get? other = some e' ∧
          e'.isFor (t.hasher q) q = true ∧ other ∈ t.ahead e.hash node ∧
          t'.visits key + 1 = t.visits key) ∨
        (t'.capacity = 2 * t.capacity ∧ t'.visits key < t.visits key ∧
          t'.ahead e.hash node = (t.ahead e.hash node).filter
            (t.isAt t'.capacity (homeIndex t'.capacity e.hash))) := by
  have hwellFormed := ht.wellFormed
  refine ⟨Entry.isFor_iff.2 ⟨hwellFormed.hash_eq node e hget, BEq.rfl⟩, fun key hfor => ?_⟩
  have hvisits := hwellFormed.visits_eq_length_ahead hget hfor
  refine ⟨fun position => hwellFormed.finishesAfter_ofQuery position key,
    fun future hstays => ?_, fun operation hstays => ?_⟩
  · obtain ⟨hhasher, hlabel, hsublist⟩ := ht.ahead_run hget hstays
    have hwellFormed' := (ht.run future).wellFormed
    have hvisits' := hwellFormed'.visits_eq_of_label? hget hhasher hlabel hfor
    refine ⟨exists_get?_of_label?_eq hlabel hget,
      fun position => hwellFormed'.finishesAfter_ofQuery position key, ?_⟩
    rw [hvisits', hvisits]
    exact Nat.add_le_add_right hsublist.length_le 1
  · have hedit : t.Edit operation (t.run [operation]) (t.perform operation).events :=
      hwellFormed.edit_perform operation
    have hvisits' := (hedit.wellFormed ht.settled).visits_eq_of_label? hget hedit.hasher_eq
      (hedit.label?_eq ht.settled hget hstays) hfor
    cases hedit.nearing ht.settled hget hstays with
    | same heq =>
      left
      rw [hvisits', hvisits, heq]
    | took q other e' hop hget' hfor' hmem heq =>
      refine .inr (.inl ⟨q, other, e', hop, hget', hfor', hmem, ?_⟩)
      rw [hvisits', hvisits, heq, List.length_erase_add_one hmem]
    | split hcapacity heq =>
      -- If all that were ahead belong into the same bucket, nothing has changed.
      by_cases hlength : (t.run [operation]).visits key = t.visits key
      · exact .inl hlength
      · refine .inr (.inr ⟨hcapacity, ?_, heq⟩)
        have hle := List.length_filter_le (t.isAt (t.run [operation]).capacity
          (homeIndex (t.run [operation]).capacity e.hash)) (t.ahead e.hash node)
        rw [← heq] at hle
        omega

end AnyStorage

/-- The third of three keys in one chain: its walk suspends three times, and one time less when the
first of them is taken out. When three keys of other buckets have come in then, the buckets have
doubled, the second key is elsewhere, and one suspension is left. -/
theorem walks_never_lengthen_of_tagged_keys :
    let k : UInt64 → TaggedKey := fun digest => ⟨digest, "a", "stored"⟩
    let store : UInt64 → Operation TaggedKey Nat := fun digest => .insert (k digest) 0 (· + 0)
    let t : Table TaggedKey Nat := (unbounded TaggedKey.digest).run [store 0, store 8, store 16]
    let asked : TaggedKey := ⟨16, "a", "asked"⟩
    let future := [.remove (k 0), store 1, store 2, store 3]
    FinishesAfter (ChainWalk.ofQuery t 0 asked) 3 ∧
      (t.run [.remove (k 0)]).visits asked + 1 = t.visits asked ∧
      FinishesAfter (ChainWalk.ofQuery (t.run future) 0 asked) 1 ∧
      (t.run future).visits asked ≤ t.visits asked := by
  intro k store t asked future
  have ht : t.IsReachable := ⟨_, _, .inl rfl⟩
  have hget : t.arena.get? ⟨2, 0⟩ = some ⟨k 16, 0, 16, none⟩ := by
    simp only [t, store, k]
    cbv
  have hfor : (⟨k 16, 0, 16, none⟩ : Entry TaggedKey Nat).isFor (t.hasher asked) asked = true := by
    decide +kernel
  have hother : ∀ q : TaggedKey, q = k 0 →
      ¬ (⟨k 16, 0, 16, none⟩ : Entry TaggedKey Nat).isFor (t.hasher q) q = true := by
    rintro q rfl
    decide +kernel
  have hthree : t.visits asked = 3 := by decide +kernel
  have hone : (t.run future).visits asked = 1 := by decide +kernel
  obtain ⟨hfinishes, hrun, hstep⟩ := (walks_never_lengthen ht hget).2 asked hfor
  obtain ⟨-, hfinishes', hle⟩ := hrun future fun q hmem =>
    hother q (by simpa [future, store] using hmem)
  refine ⟨hthree ▸ hfinishes 0, ?_, hone ▸ hfinishes' 0, hle⟩
  obtain heq | ⟨-, -, -, -, -, -, -, hless⟩ | ⟨hdouble, -⟩ :=
    hstep (.remove (k 0)) fun q hop => hother q (Operation.remove.inj hop).symm
  · exact absurd heq (by decide +kernel)
  · exact hless
  · exact absurd hdouble (by decide +kernel)

end Table

end BulkLookup
