import Mathlib.Data.List.Basic

/-!
# Interleaved runs

A run is a list of things to be done in order. Several runs are interleaved when, again and again,
the first thing left of one of them is done. What was done is then a single list; what is left of
the runs is a run for each of them. Runs have no names, and so a family of them is a list up to
permutation.

## Main definitions

* `Interleaves` — what was done of some runs, and what is left of them

## Main results

* `Interleaves.append` — to interleave runs, and then what is left of them
* `Interleaves.append_idle` — runs of which nothing is done do not matter
* `Interleaves.perm_flatten` — what was done and what is left is what there was to be done
* `Interleaves.exists_filter` — what was done of one run comes in the order of that run
-/

namespace BulkLookup

universe u

variable {α : Type u}

/-- Of the runs, the things `done` were done one after the other, and `left` is left of the runs. -/
inductive Interleaves : List (List α) → List α → List (List α) → Prop where
  /-- Nothing was done. -/
  | nil {runs left : List (List α)} : runs.Perm left → Interleaves runs [] left
  /-- The first thing of one of the runs was done first. -/
  | cons {runs others left : List (List α)} {a : α} {run done : List α} :
    runs.Perm ((a :: run) :: others) → Interleaves (run :: others) done left →
    Interleaves runs (a :: done) left

namespace Interleaves

variable {runs runs' left left' others idle : List (List α)} {a : α} {run done done' : List α}

/-- One thing was done. -/
theorem single (h : runs.Perm ((a :: run) :: others)) : Interleaves runs [a] (run :: others) :=
  .cons h (.nil (.refl _))

theorem perm_left (h : Interleaves runs done left) (hruns : runs'.Perm runs) :
    Interleaves runs' done left := by
  cases h with
  | nil hleft => exact .nil (hruns.trans hleft)
  | cons hrun h => exact .cons (hruns.trans hrun) h

theorem perm_right (h : Interleaves runs done left) (hleft : left.Perm left') :
    Interleaves runs done left' := by
  induction h with
  | nil hruns => exact .nil (hruns.trans hleft)
  | cons hrun _ ih => exact .cons hrun (ih hleft)

/-- To interleave runs, and then what is left of them. -/
theorem append (h : Interleaves runs done left) (h' : Interleaves left done' left') :
    Interleaves runs (done ++ done') left' := by
  induction h with
  | nil hruns => exact h'.perm_left hruns
  | cons hrun _ ih => exact .cons hrun (ih h')

/-- Runs of which nothing is done stay as they are. -/
theorem append_idle (h : Interleaves runs done left) (idle : List (List α)) :
    Interleaves (runs ++ idle) done (left ++ idle) := by
  induction h with
  | nil hruns => exact .nil (hruns.append_right idle)
  | cons hrun _ ih => exact .cons (hrun.append_right idle) ih

/-- Something is left of every run, if only the empty list. -/
theorem length_eq (h : Interleaves runs done left) : runs.length = left.length := by
  induction h with
  | nil hruns => exact hruns.length_eq
  | cons hrun _ ih => exact hrun.length_eq.trans ih

/-- What was done and what is left is what there was to be done. -/
theorem perm_flatten (h : Interleaves runs done left) :
    runs.flatten.Perm (done ++ left.flatten) := by
  induction h with
  | nil hruns => exact hruns.flatten
  | cons hrun _ ih => exact hrun.flatten.trans (ih.cons _)

/-- What was done of one run comes in the order of that run. Here, `p` tells this run from all the
others. -/
theorem exists_filter (h : Interleaves runs done left) {p : α → Bool}
    (hruns : runs.Perm (run :: others)) (hrun : ∀ a ∈ run, p a = true)
    (hothers : ∀ run' ∈ others, ∀ a ∈ run', p a = false) :
    ∃ run' others', left.Perm (run' :: others') ∧ done.filter p ++ run' = run := by
  induction h generalizing run others with
  | nil hleft => exact ⟨run, others, hleft.symm.trans hruns, rfl⟩
  | @cons runs others₁ left a run₁ done hfirst _ ih =>
    have hperm : ((a :: run₁) :: others₁).Perm (run :: others) := hfirst.symm.trans hruns
    rcases List.mem_cons.1 (hperm.mem_iff.1 List.mem_cons_self) with rfl | hmem
    -- It was a thing of this run.
    · obtain ⟨run', others', hleft, hfilter⟩ := ih (hperm.cons_inv.cons run₁)
        (fun b hb => hrun b (List.mem_cons_of_mem a hb)) hothers
      refine ⟨run', others', hleft, ?_⟩
      rw [List.filter_cons_of_pos (hrun a List.mem_cons_self), List.cons_append, hfilter]
    -- It was a thing of another run.
    · have ha : ¬ p a = true := by
        rw [hothers _ hmem a List.mem_cons_self]
        exact Bool.false_ne_true
      obtain ⟨before, after, rfl⟩ := List.append_of_mem hmem
      have hothers₁ : others₁.Perm (run :: (before ++ after)) := by
        apply List.Perm.cons_inv (a := a :: run₁)
        exact hperm.trans ((List.perm_middle.cons run).trans (.swap _ _ _))
      have hrest : (run₁ :: others₁).Perm (run :: run₁ :: (before ++ after)) :=
        (hothers₁.cons run₁).trans (.swap _ _ _)
      have hrest' : ∀ run' ∈ run₁ :: (before ++ after), ∀ b ∈ run', p b = false := by
        intro run' hmem' b hb
        rcases List.mem_cons.1 hmem' with rfl | hmem'
        · exact hothers _ hmem b (List.mem_cons_of_mem a hb)
        · exact hothers run' (List.perm_middle.mem_iff.2 (List.mem_cons_of_mem _ hmem')) b hb
      obtain ⟨run', others', hleft, hfilter⟩ := ih hrest hrun hrest'
      refine ⟨run', others', hleft, ?_⟩
      rw [List.filter_cons_of_neg ha, hfilter]

end Interleaves

end BulkLookup
