import BulkLookup.Work.Metered
import BulkLookup.Work.Ring
import BulkLookup.Work.Stack
import BulkLookup.Work.Lossy

/-!
# What queues may promise

Every ready queue hands out only what was put in. Most queues promise more, and what can be said
about the tasks that run on a queue depends on how much: that it never sits on a task, that it
loses none, that it keeps them in order, or that it has room for a number of them.

## Main definitions

* `NeverIdle` — a queue that holds a task hands one out
* `LosesNothing` — a queue holds exactly what it accepted and did not hand out yet
* `InOrder` — a queue hands tasks out in the order in which it accepted them
* `ReadyQueue.HasRoom` — a queue accepts tasks as long as it holds fewer than a given number

## Main results

* rings and first-in, first-out queues are `InOrder`, stacks are `LosesNothing`, queues that drop
  tasks are `NeverIdle`, and a meter changes none of this
* `Ring.hasRoom`, `Fifo.hasRoom`, `Stack.hasRoom` — the room that queues have
-/

namespace BulkLookup

universe u w

open ReadyQueue

section Laws

variable (Q : Type w) {τ : Type u} [ReadyQueue Q τ]

/-- A queue that hands out a task whenever it holds one. -/
class NeverIdle : Prop where
  tasks_eq_nil : ∀ q : Q, (takeNext q).1 = none → tasks q = []

/-- A queue that holds exactly the tasks that it accepted and did not hand out yet, and knows how
many they are. -/
class LosesNothing : Prop extends NeverIdle Q where
  perm_schedule : ∀ (q : Q) (t : τ), (schedule q t).1 = none →
    (tasks (schedule q t).2).Perm (t :: tasks q)
  perm_refused : ∀ (q : Q) (t : τ), (schedule q t).1 ≠ none →
    (tasks (schedule q t).2).Perm (tasks q)
  perm_takeNext : ∀ q : Q, (tasks q).Perm ((takeNext q).1.toList ++ tasks (takeNext q).2)
  length_eq : ∀ q : Q, length q = (tasks q).length

/-- A queue that hands tasks out in the order in which it accepted them. -/
class InOrder : Prop extends NeverIdle Q where
  tasks_schedule_eq : ∀ (q : Q) (t : τ), (schedule q t).1 = none →
    tasks (schedule q t).2 = tasks q ++ [t]
  tasks_refused_eq : ∀ (q : Q) (t : τ), (schedule q t).1 ≠ none →
    tasks (schedule q t).2 = tasks q
  tasks_takeNext_eq : ∀ q : Q, tasks q = (takeNext q).1.toList ++ tasks (takeNext q).2
  length_tasks_eq : ∀ q : Q, length q = (tasks q).length

instance (priority := low) [InOrder Q] : LosesNothing Q where
  perm_schedule q t h := by
    rw [InOrder.tasks_schedule_eq q t h]
    exact List.perm_append_singleton t _
  perm_refused q t h := .of_eq (InOrder.tasks_refused_eq q t h)
  perm_takeNext q := .of_eq (InOrder.tasks_takeNext_eq q)
  length_eq := InOrder.length_tasks_eq

end Laws

/-- A queue that accepts every task as long as it holds fewer than `n`, now and after anything that
is done with it. -/
def ReadyQueue.HasRoom {Q : Type w} {τ : Type u} [ReadyQueue Q τ] (q : Q) (n : Nat) : Prop :=
  ∃ fits : Q → Prop, fits q ∧
    (∀ q t, fits q → (tasks q).length < n → (schedule q t).1 = none) ∧
    (∀ q t, fits q → fits (schedule q t).2) ∧
    (∀ q, fits q → fits (takeNext q).2)

section Rings

variable {τ : Type u}

namespace Ring

theorem capacity_schedule (r : Ring τ) (t : τ) : (r.schedule t).2.capacity = r.capacity := by
  obtain ⟨cells, head, length, head_lt, length_le, filled⟩ := r
  simp only [schedule]
  split <;> simp [capacity]

theorem capacity_takeNext (r : Ring τ) : r.takeNext.2.capacity = r.capacity := by
  obtain ⟨cells, head, length, head_lt, length_le, filled⟩ := r
  simp only [takeNext]
  split <;> simp [capacity]

/-- A ring accepts a task exactly when it is not full. -/
theorem schedule_eq_none_iff {r : Ring τ} {t : τ} :
    (r.schedule t).1 = none ↔ r.length < r.capacity := by
  constructor
  · intro h
    refine Nat.lt_of_le_of_ne r.length_le fun full => ?_
    rw [schedule_of_full full] at h
    cases h
  · exact fun room => (schedule_of_lt room t).1

/-- A ring has room for as many tasks as it has cells. -/
theorem hasRoom (r : Ring τ) : HasRoom r r.capacity :=
  ⟨fun s => s.capacity = r.capacity, rfl,
    fun s _ hs h => schedule_eq_none_iff.2 (by simpa [ReadyQueue.tasks, hs] using h),
    fun s t hs => (s.capacity_schedule t).trans hs,
    fun s hs => s.capacity_takeNext.trans hs⟩

end Ring

instance : InOrder (Ring τ) where
  tasks_eq_nil r h := by
    have hlength : r.length = 0 := Ring.takeNext_eq_none_iff.1 h
    exact List.eq_nil_of_length_eq_zero (r.length_tasks.trans hlength)
  tasks_schedule_eq _ t h := (Ring.schedule_of_lt (Ring.schedule_eq_none_iff.1 h) t).2
  tasks_refused_eq r t h := by
    have full : r.length = r.capacity := by
      refine Nat.le_antisymm r.length_le (Nat.le_of_not_lt fun room => ?_)
      exact h (Ring.schedule_eq_none_iff.2 room)
    exact congrArg (fun x => Ring.tasks x.2) (Ring.schedule_of_full full t)
  tasks_takeNext_eq := Ring.tasks_takeNext
  length_tasks_eq r := r.length_tasks.symm

end Rings

section Unbounded

variable {τ : Type u}

instance : InOrder (Fifo τ) where
  tasks_eq_nil _ h := Fifo.takeNext_eq_none_iff.1 h
  tasks_schedule_eq q t _ := q.tasks_push t
  tasks_refused_eq _ _ h := absurd rfl h
  tasks_takeNext_eq := Fifo.tasks_takeNext
  length_tasks_eq q := q.length_tasks.symm

instance : LosesNothing (Stack τ) where
  tasks_eq_nil s h := by
    have hempty : s.items = #[] := Array.back?_eq_none_iff.1 h
    simp [ReadyQueue.tasks, Stack.tasks, hempty]
  perm_schedule s t _ := .of_eq (s.tasks_push t)
  perm_refused _ _ h := absurd rfl h
  perm_takeNext s := .of_eq s.tasks_takeNext
  length_eq s := by simp [ReadyQueue.length, ReadyQueue.tasks, Stack.tasks]

instance : NeverIdle (Lossy τ) where
  tasks_eq_nil _ h := Fifo.takeNext_eq_none_iff.1 h

/-- A first-in, first-out queue has room for any number of tasks. -/
theorem Fifo.hasRoom (q : Fifo τ) (n : Nat) : HasRoom q n :=
  ⟨fun _ => True, trivial, fun _ _ _ _ => rfl, fun _ _ _ => trivial, fun _ _ => trivial⟩

/-- A stack has room for any number of tasks. -/
theorem Stack.hasRoom (s : Stack τ) (n : Nat) : HasRoom s n :=
  ⟨fun _ => True, trivial, fun _ _ _ _ => rfl, fun _ _ _ => trivial, fun _ _ => trivial⟩

end Unbounded

section Meters

variable {Q : Type w} {τ : Type u} [ReadyQueue Q τ]

instance [NeverIdle Q] : NeverIdle (Metered Q) where
  tasks_eq_nil m h := NeverIdle.tasks_eq_nil m.queue h

instance [LosesNothing Q] : LosesNothing (Metered Q) where
  perm_schedule m t h := by
    have hqueue := LosesNothing.perm_schedule m.queue t ((m.fst_schedule t).symm.trans h)
    rw [← m.queue_schedule t] at hqueue
    exact hqueue
  perm_refused m t h := by
    have hqueue := LosesNothing.perm_refused m.queue t (m.fst_schedule t ▸ h)
    rw [← m.queue_schedule t] at hqueue
    exact hqueue
  perm_takeNext m := LosesNothing.perm_takeNext m.queue
  length_eq m := LosesNothing.length_eq m.queue

instance [InOrder Q] : InOrder (Metered Q) where
  tasks_schedule_eq m t h := by
    have hqueue := InOrder.tasks_schedule_eq m.queue t ((m.fst_schedule t).symm.trans h)
    rw [← m.queue_schedule t] at hqueue
    exact hqueue
  tasks_refused_eq m t h := by
    have hqueue := InOrder.tasks_refused_eq m.queue t (m.fst_schedule t ▸ h)
    rw [← m.queue_schedule t] at hqueue
    exact hqueue
  tasks_takeNext_eq m := InOrder.tasks_takeNext_eq m.queue
  length_tasks_eq m := InOrder.length_tasks_eq m.queue

end Meters

end BulkLookup
