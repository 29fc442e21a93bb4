import BulkLookup.Proofs.Work.Pools

/-!
# Pools that run without a fault

On a queue that loses nothing, the tasks in flight of a pool are those in its queue, until an
attempt fails. From there on, whatever ends in a fault has cost a task. And where attempts do not
fail, because every task comes to a result and the queue takes tasks back, a pool waits and runs
without a fault: there is always a task in the queue when all streams are busy, and a run leaves
none.

## Main definitions

* `StreamPool.Complete` — the tasks in flight are those in the queue
* `StreamPool.Flows` — pools that run without a fault

## Main results

* `StreamPool.fault_awaitStream_eq_none`, `StreamPool.fault_run_eq_none` — what costs no task meets
  no fault
* `StreamPool.Flows.makeRoom`, `StreamPool.Flows.launch`, `StreamPool.Flows.run` — the operations on
  pools that run without a fault
-/

namespace BulkLookup

universe u v w

open ReadyQueue

variable {Q : Type w} {τ : Type u} {ρ : Type v}

namespace StreamPool

variable [ReadyQueue Q τ] [Resumable τ ρ] {p : StreamPool Q}

/-- The tasks in flight are those in the queue: for every stream taken there is one. -/
def Complete (p : StreamPool Q) : Prop := (tasks p.queue).length + p.free = p.limit

omit [Resumable τ ρ] in
theorem Complete.bounded (h : p.Complete) : p.Bounded := Nat.le_of_eq h

omit [Resumable τ ρ] in
/-- When the queue is empty, nothing is in flight. -/
theorem Complete.inFlight_eq_zero (h : p.Complete) (hnil : tasks p.queue = []) :
    p.inFlight = 0 := by
  unfold Complete at h
  rw [hnil, List.length_nil, Nat.zero_add] at h
  rw [inFlight, h, Nat.sub_self]

/-- Every task in flight is in the queue. -/
def AllQueued (p : StreamPool Q) : Prop := p.inFlight = (tasks p.queue).length

omit [Resumable τ ρ] in
theorem complete_iff_allQueued (hle : p.free ≤ p.limit) : p.Complete ↔ p.AllQueued := by
  unfold Complete AllQueued inFlight
  omega

/-! ### Faults cost tasks -/

variable [LosesNothing Q]

/-- A wait for a stream that costs no task meets no fault. -/
theorem fault_awaitStream_eq_none (hp : p.Bounded) (hfree : p.free = 0) (hlimit : 0 < p.limit)
    (h : (p.awaitStream : Progress (StreamPool Q) τ ρ).state.Complete) :
    (p.awaitStream : Progress (StreamPool Q) τ ρ).fault = none := by
  unfold Bounded at hp
  have hcomplete : (tasks (drainToFinish p.queue : Progress Q τ ρ).state).length +
      (p.free + (drainToFinish p.queue : Progress Q τ ρ).finishes) = p.limit := h
  cases (awaits p.queue : Awaits p.queue (drainToFinish p.queue : Progress Q τ ρ)) with
  | finished hworks hearlier hturn hfault => exact hfault
  | idle hworks hearlier hfault =>
    -- No task is left in the queue, and none has finished.
    exfalso
    obtain ⟨q', -, hidle⟩ := hworks.exists_turns
    have hzero := hworks.finishes_eq_zero hearlier rfl
    rw [hworks.state_eq, Advance.queue, hidle.tasks_eq_nil, hzero, hfree] at hcomplete
    exact Nat.ne_of_lt hlimit hcomplete
  | failed hworks hearlier hfault =>
    exfalso
    obtain ⟨q', -, hfailed⟩ := hworks.exists_turns
    have hzero := hworks.finishes_eq_zero hearlier hfailed.finishers_eq_nil
    have hlength := hworks.length_eq
    rw [Advance.losses] at hlength
    omega

/-- A run that costs no task meets no fault, and leaves no task in flight. -/
theorem fault_run_eq_none (hp : p.Bounded)
    (h : (p.run : Progress (StreamPool Q) τ ρ).state.Complete) :
    (p.run : Progress (StreamPool Q) τ ρ).fault = none ∧
      (p.run : Progress (StreamPool Q) τ ρ).state.inFlight = 0 := by
  unfold Bounded at hp
  have hcomplete : (tasks (drain p.queue : Progress Q τ ρ).state).length +
      (p.free + (drain p.queue : Progress Q τ ρ).finishes) = p.limit := h
  cases (drains p.queue : Drains p.queue (drain p.queue : Progress Q τ ρ)) with
  | idle hworks hfault =>
    obtain ⟨q', -, hidle⟩ := hworks.exists_turns
    refine ⟨hfault, ?_⟩
    rw [hworks.state_eq, Advance.queue, hidle.tasks_eq_nil, List.length_nil, Nat.zero_add]
      at hcomplete
    change p.limit - (p.free + (drain p.queue : Progress Q τ ρ).finishes) = 0
    rw [hcomplete, Nat.sub_self]
  | failed hworks hfault =>
    exfalso
    have hlength := hworks.length_eq
    rw [Advance.losses] at hlength
    omega

/-! ### Pools without faults -/

/-- A pool with a stream, whose tasks in flight are those in its queue and all come to results, and
whose queue takes back what it hands out. -/
structure Flows (fits : Q → Prop) (p : StreamPool Q) : Prop where
  complete : p.Complete
  limit_pos : 0 < p.limit
  fits : fits p.queue
  allFinish : AllFinish p.queue

namespace Flows

variable {fits : Q → Prop}

omit [LosesNothing Q] in
/-- A pool over an empty queue, all of whose streams are free. -/
theorem of_tasks_eq_nil {queue : Q} {streams peak : Nat} (hnil : tasks queue = [])
    (hstreams : 0 < streams) (hfits : fits queue) :
    Flows fits (⟨queue, streams, streams, peak⟩ : StreamPool Q) where
  complete := by
    change (tasks queue).length + streams = streams
    rw [hnil, List.length_nil, Nat.zero_add]
  limit_pos := hstreams
  fits := hfits
  allFinish := .of_tasks_eq_nil hnil

/-- When all streams are busy, waiting meets no fault and frees one. -/
theorem makeRoom (hsteady : Steady fits) (h : p.Flows fits) :
    (p.makeRoom : Progress (StreamPool Q) τ ρ).fault = none ∧
      (p.makeRoom : Progress (StreamPool Q) τ ρ).state.Flows fits ∧
      (p.makeRoom : Progress (StreamPool Q) τ ρ).state.limit = p.limit := by
  have hcomplete : (tasks p.queue).length + p.free = p.limit := h.complete
  have hpos := h.limit_pos
  unfold StreamPool.makeRoom
  split
  · next hfree =>
    -- All streams are taken, and each by a task in the queue.
    have hne : tasks p.queue ≠ [] := by
      intro hnil
      rw [hnil, hfree] at hcomplete
      exact Nat.ne_of_lt hpos hcomplete
    obtain ⟨hfault, hone, hlength, hfits, hfinish⟩ :=
      hsteady.drainToFinish_spec h.fits h.allFinish hne
    refine ⟨hfault, ⟨?_, hpos, hfits, hfinish⟩, rfl⟩
    change (tasks (drainToFinish p.queue : Progress Q τ ρ).state).length +
      (p.free + (drainToFinish p.queue : Progress Q τ ρ).finishes) = p.limit
    omega
  · exact ⟨rfl, h, rfl⟩

/-- To launch a task that comes to a result keeps the pool without faults, if the queue is in a fit
state afterwards. -/
theorem launch {t : τ} (h : p.Flows fits) (hfree : 0 < p.free)
    (hresult : (Resumable.result? t : Option ρ).isSome = true)
    (hfits : fits (schedule p.queue t).2) :
    (p.launch t : Progress (StreamPool Q) τ ρ).state.Flows fits ∧
      (p.launch t : Progress (StreamPool Q) τ ρ).state.limit = p.limit := by
  have hcomplete : (tasks p.queue).length + p.free = p.limit := h.complete
  rcases hschedule : schedule p.queue t with ⟨_ | fault, queue⟩
  -- The queue holds one task more, and there is one stream less.
  · have hperm := perm_of_accepted hschedule
    rw [hschedule] at hfits
    have hlength : (tasks queue).length = (tasks p.queue).length + 1 := hperm.length_eq
    rw [launch_of_accepted hschedule]
    refine ⟨⟨?_, h.limit_pos, hfits, fun t' hmem => ?_⟩, rfl⟩
    · change (tasks queue).length + (p.free - 1) = p.limit
      omega
    · rcases List.mem_cons.1 (hperm.mem_iff.1 hmem) with rfl | hmem
      · exact hresult
      · exact h.allFinish t' hmem
  · have hperm := perm_of_refused hschedule
    rw [hschedule] at hfits
    rw [launch_of_refused hschedule]
    refine ⟨⟨?_, h.limit_pos, hfits, fun t' hmem => ?_⟩, rfl⟩
    · change (tasks queue).length + p.free = p.limit
      rw [hperm.length_eq]
      exact hcomplete
    · exact h.allFinish t' (hperm.mem_iff.1 hmem)

/-- Running meets no fault, lets every task finish and leaves none. -/
theorem run (hsteady : Steady fits) (h : p.Flows fits) :
    (p.run : Progress (StreamPool Q) τ ρ).fault = none ∧
      tasks (p.run : Progress (StreamPool Q) τ ρ).state.queue = [] ∧
      (p.run : Progress (StreamPool Q) τ ρ).state.Flows fits ∧
      (p.run : Progress (StreamPool Q) τ ρ).state.limit = p.limit := by
  have hcomplete : (tasks p.queue).length + p.free = p.limit := h.complete
  obtain ⟨hfault, hnil, hfinishes, hfits⟩ := hsteady.drain_spec h.fits h.allFinish
  refine ⟨hfault, hnil, ⟨?_, h.limit_pos, hfits, .of_tasks_eq_nil hnil⟩, rfl⟩
  change (tasks (drain p.queue : Progress Q τ ρ).state).length +
    (p.free + (drain p.queue : Progress Q τ ρ).finishes) = p.limit
  rw [hnil, hfinishes, List.length_nil]
  omega

end Flows

end StreamPool

end BulkLookup
