import BulkLookup.Proofs.Work.Loads

/-!
# Batches that overflow a ring

As long as streams are free, a pool gives no turn: it puts one task of a batch after the other into
its queue. On a ring with fewer cells than that, this fills the ring, and the next task is refused.
Then the batch is over, with no task resumed and the tasks that fit still in the ring, as they came.

## Main results

* `StreamPool.spawnAll_of_accepts` — tasks of a batch go into a queue in order, while streams are
  free and there is room
* `StreamPool.spawnAll_of_overflow` — what is left when a ring has too few cells for a batch
-/

namespace BulkLookup

universe u v w

open ReadyQueue

variable {τ : Type u} {ρ : Type v}

theorem Ring.isEmpty_iff {r : Ring τ} : isEmpty r = true ↔ r.length = 0 := beq_iff_eq

variable [Resumable τ ρ]

namespace StreamPool

section AnyQueue

variable {Q : Type w} [ReadyQueue Q τ] {p : StreamPool Q}

theorem spawn_of_free (hfree : 0 < p.free) (t : τ) :
    (p.spawn t : Progress (StreamPool Q) τ ρ) = p.launch t := by
  rw [spawn, if_neg (Nat.ne_of_gt hfree)]

/-- While streams are free and the queue has room, the tasks of a batch go into the queue in order,
and no task is given a turn. -/
theorem spawnAll_of_accepts [InOrder Q] {fits : Q → Prop} {n : Nat}
    (haccepts : ∀ q t, fits q → (tasks q).length < n →
      (schedule q t).1 = none ∧ fits (schedule q t).2)
    (hp : fits p.queue) {ts : List τ} (hroom : (tasks p.queue).length + ts.length ≤ n)
    (hfree : ts.length ≤ p.free) :
    let d : Progress (StreamPool Q) τ ρ := p.spawnAll ts
    d.fault = none ∧ d.turns = #[] ∧ d.events = #[] ∧ d.state.free = p.free - ts.length ∧
      tasks d.state.queue = tasks p.queue ++ ts ∧ fits d.state.queue := by
  induction ts using List.reverseRecOn with
  | nil => exact ⟨rfl, rfl, rfl, rfl, (List.append_nil _).symm, hp⟩
  | append_singleton ts t ih =>
    intro d
    rw [List.length_append, List.length_singleton] at hroom hfree
    obtain ⟨hfault, hturns, hevents, hstate, htasks, hfits⟩ := ih (by omega) (by omega)
    have hd : d = _ := (spawnAll_concat p ts t).trans (Progress.andThen_of_none hfault)
    rw [hd]
    generalize (p.spawnAll ts : Progress (StreamPool Q) τ ρ) = earlier at *
    -- A stream is free, and the queue takes the task.
    have hlt : (tasks earlier.state.queue).length < n := by
      rw [htasks, List.length_append]
      omega
    obtain ⟨haccepted, hfits'⟩ := haccepts _ t hfits hlt
    rw [spawn_of_free (by omega), launch_of_accepted (Prod.ext haccepted rfl)]
    refine ⟨rfl, ?_, ?_, ?_, ?_, hfits'⟩
    · rw [hturns]
      rfl
    · rw [hevents]
      rfl
    · rw [List.length_append, List.length_singleton]
      change earlier.state.free - 1 = _
      omega
    · rw [← List.append_assoc, ← htasks]
      exact InOrder.tasks_schedule_eq _ t haccepted

end AnyQueue

/-- A full ring refuses a task even if a stream is free, and the pool stays as it is. -/
theorem spawn_of_full {p : StreamPool (Ring τ)} (hfree : 0 < p.free)
    (hfull : p.queue.length = p.queue.capacity) (t : τ) :
    (p.spawn t : Progress (StreamPool (Ring τ)) τ ρ) =
      { state := p, fault := some (.queueFull p.queue.capacity) } := by
  rw [spawn_of_free hfree, launch_of_refused (Ring.schedule_of_full hfull t)]

/-- While streams are free and the ring has empty cells, the tasks of a batch go into the ring. -/
theorem spawnAll_of_room {p : StreamPool (Ring τ)} {ts : List τ}
    (hroom : p.queue.length + ts.length ≤ p.queue.capacity) (hfree : ts.length ≤ p.free) :
    let d : Progress (StreamPool (Ring τ)) τ ρ := p.spawnAll ts
    d.fault = none ∧ d.turns = #[] ∧ d.events = #[] ∧ d.state.free = p.free - ts.length ∧
      d.state.queue.tasks = p.queue.tasks ++ ts ∧ d.state.queue.capacity = p.queue.capacity := by
  have haccepts : ∀ (r : Ring τ) (t : τ), r.capacity = p.queue.capacity →
      (tasks r).length < p.queue.capacity →
        (schedule r t).1 = none ∧ (schedule r t).2.capacity = p.queue.capacity := by
    intro r t hr hlt
    rw [← hr, show (tasks r).length = r.length from r.length_tasks] at hlt
    exact ⟨Ring.schedule_eq_none_iff.2 hlt, (r.capacity_schedule t).trans hr⟩
  exact spawnAll_of_accepts haccepts rfl
    (by rwa [show (tasks p.queue).length = p.queue.length from p.queue.length_tasks]) hfree

/-- A batch that an empty ring has too few cells for, while there are streams enough: the ring is
filled, and the task behind those that fit is refused. No task is given a turn. -/
theorem spawnAll_of_overflow {ring : Ring τ} {streams : Nat} {ts : List τ}
    (hempty : ring.length = 0) (hlt : ring.capacity < min streams ts.length) :
    let p : StreamPool (Ring τ) := ⟨ring, streams, streams, 0⟩
    let filled : Progress (StreamPool (Ring τ)) τ ρ := p.spawnAll (ts.take ring.capacity)
    let d : Progress (StreamPool (Ring τ)) τ ρ := p.spawnAll ts
    filled.fault = none ∧
      (p.spawnAll (ts.take (ring.capacity + 1)) : Progress (StreamPool (Ring τ)) τ ρ).fault =
        some (.queueFull ring.capacity) ∧
      d.fault = some (.queueFull ring.capacity) ∧ d.turns = #[] ∧ d.events = #[] ∧
      d.state.queue.tasks = ts.take ring.capacity ∧ d.state.queue.capacity = ring.capacity := by
  intro p filled d
  have hlength : (ts.take ring.capacity).length = ring.capacity := by
    rw [List.length_take]
    omega
  have hnil : ring.tasks = [] := List.eq_nil_of_length_eq_zero (ring.length_tasks.trans hempty)
  obtain ⟨hfault, hturns, hevents, hfree, htasks, hcapacity⟩ : filled.fault = none ∧ _ :=
    spawnAll_of_room (by simp only [p]; omega) (by simp only [p]; omega)
  rw [show p.queue.tasks = [] from hnil, List.nil_append] at htasks
  -- The task behind those that fit finds a stream free, but the ring full.
  have hfree' : 0 < filled.state.free := by
    rw [hfree, hlength]
    change 0 < streams - ring.capacity
    omega
  have hfull : filled.state.queue.length = filled.state.queue.capacity := by
    rw [← Ring.length_tasks, htasks, hlength, hcapacity]
  have hnext : ring.capacity < ts.length := by omega
  have hrefused : (p.spawnAll (ts.take (ring.capacity + 1)) : Progress (StreamPool (Ring τ)) τ ρ) =
      { filled with fault := some (.queueFull ring.capacity) } := by
    rw [List.take_succ_eq_append_getElem hnext, spawnAll_concat, Progress.andThen_of_none hfault,
      spawn_of_full hfree' hfull, hcapacity]
    simp only [Array.append_empty]
    rfl
  have hd : d = p.spawnAll (ts.take (ring.capacity + 1)) := by
    have happend := spawnAll_append_of_fault (congrArg Progress.fault hrefused)
      (ts.drop (ring.capacity + 1))
    rwa [List.take_append_drop] at happend
  rw [hd, hrefused]
  exact ⟨hfault, rfl, rfl, hturns, hevents, htasks, hcapacity⟩

end StreamPool

end BulkLookup
