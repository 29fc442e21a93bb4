import BulkLookup.Proofs.Table.Refinement
import BulkLookup.Proofs.Work.Turns

/-!
# What a walk comes to

A walk follows the same links as a search and compares the same entries; it only suspends before
each of them. Hence a walk comes to the answer that the search gives, and in a well-formed table it
comes to one.

## Main definitions

* `SearchEnd.pair?` — the pair at which a search ended, if it did at one

## Main results

* `ChainWalk.result?_of_follow` — a walk comes to what a search finds from where it goes on
* `Table.WellFormed.result?_ofQuery` — a walk from the start comes to the answer to its query
-/

namespace BulkLookup

variable [Storage] {κ ν : Type}

/-- The pair at which a search ended, if it ended at one. -/
def SearchEnd.pair? : SearchEnd κ ν → Option (κ × ν)
  | .found _ _ e => some (e.key, e.value)
  | .missing _ => none

open Resumable

variable [BEq κ]

/-- The pair at which the search for a key ends is the pair that looking it up finds. -/
theorem Table.lookup_eq_pair? {t : Table κ ν} {key : κ} {stop : SearchEnd κ ν}
    (hsearch : t.search (t.hasher key) key = .ok stop) : t.lookup key = stop.pair? := by
  cases stop with
  | found before node e => rw [lookup, tryLookup, find?_of_found hsearch]; rfl
  | missing tail => rw [lookup, tryLookup, find?_of_missing hsearch]; rfl

namespace ChainWalk

variable {t : Table κ ν} {position : Nat} {key : κ} {hash : UInt64} {left : Nat} {node : Handle}
  {e : Entry κ ν} {before link : Option Handle} {stop : SearchEnd κ ν}

/-- On the entry that is meant, a walk ends with the pair stored there. -/
theorem step_standing_of_isFor (hget : t.arena.get? node = some e) (hfor : e.isFor hash key) :
    (⟨t, position, key, .standing hash node left⟩ : ChainWalk κ ν).step =
      .ok (⟨t, position, key, .answered⟩, .finished (position, ⟨key, some (e.key, e.value)⟩)) := by
  simp only [step, hget]
  rw [if_pos hfor]

/-- From any other entry, a walk goes on. -/
theorem step_standing_of_not_isFor (hget : t.arena.get? node = some e)
    (hfor : ¬ e.isFor hash key) :
    (⟨t, position, key, .standing hash node left⟩ : ChainWalk κ ν).step =
      (⟨t, position, key, .standing hash node left⟩ : ChainWalk κ ν).follow hash left e.next := by
  simp only [step, hget]
  rw [if_neg hfor]

/-- A walk that goes on at a link comes to what a search from that link finds. -/
theorem result?_of_follow {state : WalkState}
    (hstep : (⟨t, position, key, state⟩ : ChainWalk κ ν).step =
      (⟨t, position, key, state⟩ : ChainWalk κ ν).follow hash left link)
    (hstop : t.searchWithin hash key left before link = .ok stop) :
    result? (⟨t, position, key, state⟩ : ChainWalk κ ν) = some (position, ⟨key, stop.pair?⟩) := by
  -- A walk that suspends goes on one link further, and may go to one entry less.
  fun_induction t.searchWithin hash key left before link generalizing state with
  | case1 left before =>
    obtain rfl := Except.ok.inj hstop
    exact result?_of_finished hstep
  | case2 before node => cases hstop
  | case3 before left node hget => cases hstop
  | case4 before left node e hget hfor =>
    obtain rfl := Except.ok.inj hstop
    rw [← result?_of_suspended hstep]
    exact result?_of_finished (step_standing_of_isFor hget hfor)
  | case5 before left node e hget hfor ih =>
    rw [← result?_of_suspended hstep]
    exact ih (step_standing_of_not_isFor hget hfor) hstop

end ChainWalk

/-- In a well-formed table, a walk from the start comes to the answer to its query. -/
theorem Table.WellFormed.result?_ofQuery {t : Table κ ν} (ht : t.WellFormed) (position : Nat)
    (key : κ) : result? (ChainWalk.ofQuery t position key) = some (position, t.answer key) := by
  obtain ⟨stop, hstop⟩ := ht.exists_search (t.hasher key) key
  rw [Table.answer, Table.lookup_eq_pair? hstop]
  exact ChainWalk.result?_of_follow rfl hstop

end BulkLookup
