import BulkLookup.Proofs.Work.Batches
import BulkLookup.Proofs.Work.Invariants
import Mathlib.Data.List.Induction

/-!
# How busy a pool is

As long as no fault is met, it does not depend on the queue how many tasks of a batch are in flight.
A task that is admitted takes a free stream if there is one, and else the stream of the one task
that is waited for. So the load rises with every admission until all streams are busy, and then
stays; from there on, every admission is one that had to wait.

## Main results

* `StreamPool.spawn_of_fault_eq_none` — what a spawn does to the streams, to the peak and to the
  events
* `StreamPool.spawnAll_of_fault_eq_none`, `StreamPool.spawnAll_take_of_fault_eq_none` — how busy a
  pool is after a batch, and after any part of it
* `Invariant.Lasting.spawnAll`, `Invariant.Lasting.batch` — batches keep lasting invariants
-/

namespace BulkLookup

universe u v w

open ReadyQueue

variable {Q : Type w} {τ : Type u} {ρ : Type v}

/-- A fault in either step is a fault of both. -/
theorem Progress.fault_eq_none_of_andThen {σ : Type w} {d : Progress σ τ ρ}
    {next : σ → Progress σ τ ρ} (h : (d.andThen next).fault = none) :
    d.fault = none ∧ (next d.state).fault = none := by
  cases hfault : d.fault with
  | none => exact ⟨rfl, (fault_andThen_of_none hfault).symm.trans h⟩
  | some fault =>
    rw [andThen_of_some hfault, hfault] at h
    cases h

variable [ReadyQueue Q τ] [Resumable τ ρ]

/-- To work a queue off emits no event. -/
theorem ReadyQueue.events_drain (q : Q) : (drain q : Progress Q τ ρ).events = #[] := by
  unfold drain
  generalize (#[] : Array (Turn τ ρ)) = turns
  fun_induction drainFrom q turns with
  | case1 => rfl
  | case2 => rfl
  | case3 q turns q' turn htook ih => exact ih

/-- A wait that meets no fault ends with a turn, and one task has finished then. -/
theorem ReadyQueue.exists_works_of_fault_eq_none {q : Q}
    (h : (drainToFinish q : Progress Q τ ρ).fault = none) :
    ∃ earlier q' turn, Works q (drainToFinish q : Progress Q τ ρ) earlier (.took q' turn) ∧
      (drainToFinish q : Progress Q τ ρ).finishes = 1 := by
  cases (awaits q : Awaits q (drainToFinish q : Progress Q τ ρ)) with
  | finished hworks hearlier hturn =>
    exact ⟨_, _, _, hworks, hworks.finishes_eq_one hearlier hturn⟩
  | idle _ _ hfault => cases hfault.symm.trans h
  | failed _ _ hfault => cases hfault.symm.trans h

namespace StreamPool

variable {p : StreamPool Q} {t : τ} {ts more : List τ}

omit [Resumable τ ρ] in
/-- A pool is opened if it has a stream and its queue says that it is empty. -/
theorem ofQueue_of_isEmpty {queue : Q} {streams : Nat} (hstreams : 1 ≤ streams)
    (hempty : isEmpty queue = true) : ofQueue queue streams = .ok ⟨queue, streams, streams, 0⟩ := by
  rw [ofQueue, if_neg (Nat.ne_of_gt hstreams), if_pos hempty]

/-! ### One admission -/

/-- Where room is made without a fault, a stream that was free is free, and one is if none was. -/
theorem makeRoom_of_fault_eq_none (h : (p.makeRoom : Progress (StreamPool Q) τ ρ).fault = none) :
    (p.makeRoom : Progress (StreamPool Q) τ ρ).state.limit = p.limit ∧
      (p.makeRoom : Progress (StreamPool Q) τ ρ).state.free = max p.free 1 ∧
      (p.makeRoom : Progress (StreamPool Q) τ ρ).state.peak = p.peak ∧
      (p.makeRoom : Progress (StreamPool Q) τ ρ).events =
        if p.free = 0 then #[.streamsBusy p.limit] else #[] := by
  unfold makeRoom at h ⊢
  split
  · next hfree =>
    rw [if_pos hfree] at h
    have hnone : (drainToFinish p.queue : Progress Q τ ρ).fault = none := h
    obtain ⟨-, -, -, -, hone⟩ := exists_works_of_fault_eq_none hnone
    refine ⟨rfl, ?_, rfl, rfl⟩
    change p.free + (drainToFinish p.queue : Progress Q τ ρ).finishes = max p.free 1
    rw [hone, hfree]
    rfl
  · next hfree => exact ⟨rfl, (Nat.max_eq_left (Nat.pos_of_ne_zero hfree)).symm, rfl, rfl⟩

/-- A spawn without a fault takes a stream, or the one that it has waited for. -/
theorem spawn_of_fault_eq_none (h : (p.spawn t : Progress (StreamPool Q) τ ρ).fault = none) :
    (p.spawn t : Progress (StreamPool Q) τ ρ).state.limit = p.limit ∧
      (p.spawn t : Progress (StreamPool Q) τ ρ).state.free = p.free - 1 ∧
      (p.spawn t : Progress (StreamPool Q) τ ρ).state.peak =
        max p.peak (p.spawn t : Progress (StreamPool Q) τ ρ).state.inFlight ∧
      (p.spawn t : Progress (StreamPool Q) τ ρ).events =
        if p.free = 0 then #[.streamsBusy p.limit] else #[] := by
  rw [spawn_eq] at h ⊢
  obtain ⟨hroom, hlaunch⟩ := Progress.fault_eq_none_of_andThen h
  obtain ⟨hlimit, hfree, hpeak, hevents⟩ := makeRoom_of_fault_eq_none hroom
  rw [Progress.andThen_of_none hroom]
  generalize (p.makeRoom : Progress (StreamPool Q) τ ρ) = room at *
  rcases hschedule : schedule room.state.queue t with ⟨_ | fault, queue⟩
  · rw [launch_of_accepted hschedule]
    refine ⟨hlimit, ?_, ?_, ?_⟩
    · change room.state.free - 1 = p.free - 1
      omega
    · rw [← hpeak]
      rfl
    · rw [← hevents]
      exact Array.append_empty
  · rw [launch_of_refused hschedule] at hlaunch
    cases hlaunch

/-! ### Batches -/

theorem spawnAll_concat (p : StreamPool Q) (ts : List τ) (t : τ) :
    (p.spawnAll (ts ++ [t]) : Progress (StreamPool Q) τ ρ) =
      (p.spawnAll ts).andThen (·.spawn t) := by
  rw [spawnAll, List.foldl_append]
  rfl

/-- After a fault, no task is admitted any more. -/
theorem spawnAll_append_of_fault {fault : Fault}
    (h : (p.spawnAll ts : Progress (StreamPool Q) τ ρ).fault = some fault) (more : List τ) :
    (p.spawnAll (ts ++ more) : Progress (StreamPool Q) τ ρ) = p.spawnAll ts := by
  induction more using List.reverseRecOn with
  | nil => rw [List.append_nil]
  | append_singleton more t ih =>
    rw [← List.append_assoc, spawnAll_concat, ih, Progress.andThen_of_some h]

/-- If a batch meets no fault, then neither does any first part of it. -/
theorem fault_spawnAll_eq_none_of_append
    (h : (p.spawnAll (ts ++ more) : Progress (StreamPool Q) τ ρ).fault = none) :
    (p.spawnAll ts : Progress (StreamPool Q) τ ρ).fault = none := by
  cases hfault : (p.spawnAll ts : Progress (StreamPool Q) τ ρ).fault with
  | none => rfl
  | some fault =>
    rw [spawnAll_append_of_fault hfault, hfault] at h
    cases h

/-- How busy a pool of `streams` streams is after it has admitted tasks without a fault: a stream is
taken for each task until all of them are, and then each task has to wait. -/
theorem spawnAll_of_fault_eq_none {queue : Q} {streams : Nat}
    (h : ((⟨queue, streams, streams, 0⟩ : StreamPool Q).spawnAll ts :
      Progress (StreamPool Q) τ ρ).fault = none) :
    let d : Progress (StreamPool Q) τ ρ := (⟨queue, streams, streams, 0⟩ : StreamPool Q).spawnAll ts
    d.state.limit = streams ∧ d.state.free = streams - ts.length ∧
      d.state.peak = min ts.length streams ∧
      d.events.toList = List.replicate (ts.length - streams) (.streamsBusy streams) := by
  induction ts using List.reverseRecOn with
  | nil =>
    refine ⟨rfl, rfl, (Nat.zero_min streams).symm, ?_⟩
    rw [List.length_nil, Nat.zero_sub]
    rfl
  | append_singleton ts t ih =>
    intro d
    rw [spawnAll_concat] at h
    obtain ⟨hearlier, hspawn⟩ := Progress.fault_eq_none_of_andThen h
    obtain ⟨hlimit, hfree, hpeak, hevents⟩ := ih hearlier
    obtain ⟨hlimit', hfree', hpeak', hevents'⟩ := spawn_of_fault_eq_none hspawn
    have hd : d = _ := (spawnAll_concat _ ts t).trans (Progress.andThen_of_none hearlier)
    rw [inFlight, hlimit', hfree', hlimit, hfree, hpeak] at hpeak'
    rw [hfree, hlimit] at hevents'
    rw [hd, List.length_append, List.length_singleton]
    refine ⟨hlimit'.trans hlimit, ?_, ?_, ?_⟩
    · change (spawn _ t : Progress (StreamPool Q) τ ρ).state.free = _
      omega
    · change (spawn _ t : Progress (StreamPool Q) τ ρ).state.peak = _
      omega
    · rw [Array.toList_append, hevents, hevents']
      split
      · next hbusy =>
        rw [← List.replicate_succ', Nat.sub_add_comm (Nat.le_of_sub_eq_zero hbusy)]
      · next hroom =>
        rw [List.append_nil, Nat.sub_eq_zero_of_le (by omega), Nat.sub_eq_zero_of_le (by omega)]

/-- How busy a pool is after the first `j` tasks of a batch that meets no fault. -/
theorem spawnAll_take_of_fault_eq_none {queue : Q} {streams j : Nat} (hj : j ≤ ts.length)
    (h : ((⟨queue, streams, streams, 0⟩ : StreamPool Q).spawnAll ts :
      Progress (StreamPool Q) τ ρ).fault = none) :
    let d : Progress (StreamPool Q) τ ρ :=
      (⟨queue, streams, streams, 0⟩ : StreamPool Q).spawnAll (ts.take j)
    d.fault = none ∧ d.state.inFlight = min j streams ∧ (d.state.free = 0 ↔ streams ≤ j) ∧
      d.events.toList = List.replicate (j - streams) (.streamsBusy streams) := by
  intro d
  rw [← List.take_append_drop j ts] at h
  have hfault := fault_spawnAll_eq_none_of_append h
  obtain ⟨hlimit, hfree, -, hevents⟩ := spawnAll_of_fault_eq_none hfault
  rw [List.length_take, Nat.min_eq_left hj] at hfree hevents
  refine ⟨hfault, ?_, ?_, hevents⟩
  · rw [inFlight, hlimit, hfree]
    omega
  · rw [hfree, Nat.sub_eq_zero_iff_le]

/-- A batch that is admitted and run without a fault: one event for each task that had to wait, and
a peak that is the number of streams, or of tasks if they are fewer. -/
theorem run_of_fault_eq_none {queue : Q} {streams : Nat} {ran : Progress (StreamPool Q) τ ρ}
    (hran : ((⟨queue, streams, streams, 0⟩ : StreamPool Q).spawnAll ts).andThen (·.run) = ran)
    (hfault : ran.fault = none) :
    ran.state.peak = min ts.length streams ∧
      ran.events.toList = List.replicate (ts.length - streams) (.streamsBusy streams) := by
  rw [← hran] at hfault
  obtain ⟨hspawned, -⟩ := Progress.fault_eq_none_of_andThen hfault
  obtain ⟨-, -, hpeak, hevents⟩ := spawnAll_of_fault_eq_none hspawned
  rw [← hran, Progress.andThen_of_none hspawned]
  refine ⟨hpeak, ?_⟩
  rw [Array.toList_append, hevents]
  change _ ++ (drain _ : Progress Q τ ρ).events.toList = _
  rw [events_drain, Array.toList_empty, List.append_nil]

end StreamPool

/-! ### What batches keep -/

namespace Invariant.Lasting

variable {R : Q → List τ → List (Turn τ ρ) → Prop} {p : StreamPool Q} {ts : List τ}

/-- Lasting invariants hold after any part of a batch that meets no fault. -/
theorem spawnAll (h : Lasting R) (hR : R p.queue [] [])
    (hfault : (p.spawnAll ts : Progress (StreamPool Q) τ ρ).fault = none) :
    R (p.spawnAll ts : Progress (StreamPool Q) τ ρ).state.queue ts
      (p.spawnAll ts : Progress (StreamPool Q) τ ρ).turns.toList := by
  induction ts using List.reverseRecOn with
  | nil => exact hR
  | append_singleton ts t ih =>
    rw [StreamPool.spawnAll_concat] at hfault ⊢
    obtain ⟨hearlier, hspawn⟩ := Progress.fault_eq_none_of_andThen hfault
    have hspawned := h.spawn (ih hearlier) t
    rw [Progress.admits, hspawn] at hspawned
    rwa [Progress.andThen_of_none hearlier, Array.toList_append]

/-- They hold when a batch has been worked off and the pool is closed. -/
theorem batch (h : Lasting R) (hR : R p.queue [] []) {ran : Progress (StreamPool Q) τ ρ}
    (hran : (p.spawnAll ts).andThen (·.run) = ran) (hfault : ran.fault = none) :
    R (ran.state.close : Progress Q τ ρ).state ts
      (ran.turns ++ (ran.state.close : Progress Q τ ρ).turns).toList := by
  rw [← hran] at hfault
  obtain ⟨hspawned, -⟩ := Progress.fault_eq_none_of_andThen hfault
  rw [Array.toList_append]
  apply h.drain
  rw [← hran, Progress.andThen_of_none hspawned, Array.toList_append]
  exact h.run (h.spawnAll hR hspawned)

end Invariant.Lasting

end BulkLookup
