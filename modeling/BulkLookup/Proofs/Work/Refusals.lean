import BulkLookup.Proofs.Work.Completion
import BulkLookup.Proofs.Work.Overflow
import BulkLookup.Proofs.Work.Rings

/-!
# Tasks that a full ring refuses

A ring with fewer cells than its pool has streams may be full while a stream is still free. The next
task is then refused, before anything else has happened: no task in the ring has had a turn, and
nothing was written down. While all streams are busy, on the other hand, no task is refused, for the
one that finishes leaves its cell along with its stream. This holds at any time, because no call
loses a task that was admitted: those in flight are those in the ring, whatever was refused before.

## Main results

* `Ring.steady_capacity` — a ring takes back what it hands out, and keeps its cells
* `StreamPool.Flows.fault_spawn_of_busy` — no task is refused while all streams are busy
* `Ledger.flows_record_on_ring` — the tasks in flight are those in the ring, after any calls
* `Ledger.record_refuses` — when a task is refused, and what is left then
-/

namespace BulkLookup

universe u v

open ReadyQueue Resumable

variable {τ : Type u} {ρ : Type v}

/-- A ring takes back whatever it hands out, and it neither gains nor loses cells. -/
theorem Ring.steady_capacity (capacity : Nat) : Steady fun r : Ring τ => r.capacity = capacity where
  takeNext r h := r.capacity_takeNext.trans h
  accepts r t _ hsome := TakesBack.schedule_takeNext r t hsome
  schedule r t h _ := (r.takeNext.2.capacity_schedule t).trans (r.capacity_takeNext.trans h)

variable [Resumable τ ρ]

namespace StreamPool

variable {p : StreamPool (Ring τ)}

omit [Resumable τ ρ] in
/-- A task is launched on a ring just when there is an empty cell. -/
theorem fault_launch_eq_none_iff {t : τ} :
    (p.launch t : Progress (StreamPool (Ring τ)) τ ρ).fault = none ↔
      p.queue.length < p.queue.capacity := by
  by_cases hlt : p.queue.length < p.queue.capacity
  · rw [launch_of_accepted (Prod.ext (Ring.schedule_of_lt hlt t).1 rfl)]
    exact iff_of_true rfl hlt
  · have hfull := Nat.le_antisymm p.queue.length_le (Nat.le_of_not_lt hlt)
    rw [launch_of_refused (Ring.schedule_of_full hfull t)]
    exact iff_of_false (Option.some_ne_none _) hlt

/-- The tasks in flight are as many as those in the ring. -/
theorem Flows.length_eq_inFlight {fits : Ring τ → Prop} (h : p.Flows fits) :
    p.queue.length = p.inFlight := by
  have hcomplete : p.queue.tasks.length + p.free = p.limit := h.complete
  rw [Ring.length_tasks] at hcomplete
  rw [inFlight, ← hcomplete, Nat.add_sub_cancel]

/-- While all streams are busy, no task is refused: one task finishes, and leaves its cell. -/
theorem Flows.fault_spawn_of_busy {capacity : Nat} (h : p.Flows fun r => r.capacity = capacity)
    (hbusy : p.free = 0) (t : τ) :
    (p.spawn t : Progress (StreamPool (Ring τ)) τ ρ).fault = none := by
  obtain ⟨hfault, hflows, hlimit⟩ := h.makeRoom (Ring.steady_capacity capacity)
  have hfree := free_pos_of_makeRoom hfault
  rw [spawn_eq, Progress.fault_andThen_of_none hfault, fault_launch_eq_none_iff]
  -- One stream is free after the wait, so the ring holds one task less than it held before.
  have hle : p.queue.length ≤ p.queue.capacity := p.queue.length_le
  have hpos := h.limit_pos
  have hcapacity := hflows.fits.trans h.fits.symm
  have hlength := h.length_eq_inFlight
  have hlength' := hflows.length_eq_inFlight
  unfold inFlight at hlength hlength'
  omega

/-- Whether a task is refused, and that a refusal changes nothing. -/
theorem Flows.spawn_on_ring {capacity : Nat} (h : p.Flows fun r => r.capacity = capacity) (t : τ) :
    let d : Progress (StreamPool (Ring τ)) τ ρ := p.spawn t
    (d.fault ≠ none ↔ p.queue.length = p.queue.capacity ∧ 0 < p.free) ∧
      (d.fault ≠ none → d = { state := p, fault := some (.queueFull p.queue.capacity) }) := by
  intro d
  have hle : p.queue.length ≤ p.queue.capacity := p.queue.length_le
  by_cases hfree : 0 < p.free
  · have hiff : d.fault = none ↔ p.queue.length < p.queue.capacity := by
      rw [show d = p.launch t from spawn_of_free hfree t]
      exact fault_launch_eq_none_iff
    refine ⟨?_, fun hrefused => ?_⟩
    · rw [Ne, hiff]
      omega
    · have hfull : ¬ p.queue.length < p.queue.capacity := mt hiff.2 hrefused
      exact spawn_of_full hfree (Nat.le_antisymm hle (Nat.le_of_not_lt hfull)) t
  · have hnone : d.fault = none := h.fault_spawn_of_busy (Nat.eq_zero_of_not_pos hfree) t
    exact ⟨iff_of_false (not_not_intro hnone) fun hfull => hfree hfull.2,
      fun hrefused => absurd hnone hrefused⟩

end StreamPool

namespace Ledger

/-- Nothing is added to a ledger when a task is refused at once. -/
theorem enter_of_refused {l : Ledger (Ring τ) τ ρ} {t : τ} {fault : Fault}
    (h : (l.pool.spawn t : Progress (StreamPool (Ring τ)) τ ρ) =
      { state := l.pool, fault := some fault }) : l.enter (.spawn t) = l := by
  have hcall : (l.pool.call (.spawn t) : Progress (StreamPool (Ring τ)) τ ρ) =
      { state := l.pool, fault := some fault } := h
  simp [enter, hcall, PoolCall.admitted, Progress.admits]

/-- After any calls on a pool over a ring, the tasks in flight are those in the ring. -/
theorem flows_record_on_ring {ring : Ring τ} {streams : Nat} {pool : StreamPool (Ring τ)}
    (hpool : StreamPool.ofQueue ring streams = .ok pool) {calls : List (PoolCall τ)}
    (hresults : ∀ t ∈ PoolCall.spawned calls, (result? t : Option ρ).isSome = true) :
    ((ofPool pool : Ledger (Ring τ) τ ρ).record calls).pool.Flows
      fun r => r.capacity = ring.capacity := by
  obtain ⟨hstreams, hempty, hopened⟩ := StreamPool.ofQueue_eq_ok hpool
  apply flows_record_of_steady (Ring.steady_capacity ring.capacity)
  · exact fun r t h => (r.capacity_schedule t).trans h
  · rw [hopened]
    exact .of_tasks_eq_nil (ReadyQueue.isEmpty_iff.1 hempty) hstreams rfl
  · exact fun t hmem => hresults t (PoolCall.mem_spawned.2 hmem)

/-- Any calls on a pool over a new ring, for tasks each of which suspends finitely often and then
finishes; some of the calls may have been refused. Then the tasks in flight are those in the ring,
and the next task is refused just when the ring is full and a stream is free, that is, when there
are fewer cells than streams, and as many tasks in flight as cells. A refusal is the fault that the
ring is full, and all else is as before: the streams, the peak, and the tasks in the ring with their
order; no task had a turn, and nothing is added to the ledger. While all streams are busy no task is
refused, and waiting for one of them to finish meets no fault, even if there are as many cells as
streams. -/
theorem record_refuses {capacity streams : Nat} (hcapacity : 1 ≤ capacity) (hstreams : 1 ≤ streams)
    {calls : List (PoolCall τ)} {pauses : τ → Nat}
    (hpauses : ∀ t ∈ PoolCall.spawned calls, FinishesAfter t (pauses t)) (t : τ) :
    ∃ ring pool, Ring.ofCapacity capacity = .ok ring ∧
      StreamPool.ofQueue ring streams = .ok pool ∧
      let l : Ledger (Ring τ) τ ρ := (ofPool pool).record calls
      let waited : Progress (StreamPool (Ring τ)) τ ρ := l.pool.awaitStream
      let d : Progress (StreamPool (Ring τ)) τ ρ := l.pool.spawn t
      l.pool.limit = streams ∧ l.pool.queue.capacity = capacity ∧
      l.pool.queue.length = l.pool.inFlight ∧
      (d.fault ≠ none ↔ l.pool.queue.length = capacity ∧ 0 < l.pool.free) ∧
      (d.fault ≠ none ↔ l.pool.inFlight = capacity ∧ capacity < streams) ∧
      (d.fault ≠ none →
        d = { state := l.pool, fault := some (.queueFull capacity) } ∧ l.enter (.spawn t) = l) ∧
      (l.pool.inFlight = streams → waited.fault = none ∧ d.fault = none) := by
  obtain ⟨ring, hring, hstands⟩ := Ring.exists_ofCapacity (τ := τ) hcapacity
  have hempty : isEmpty ring = true := Ring.isEmpty_iff.2 hstands.length_eq
  have hpool := StreamPool.ofQueue_of_isEmpty hstreams hempty
  refine ⟨ring, _, hring, hpool, ?_⟩
  intro l waited d
  have hflows : l.pool.Flows fun r => r.capacity = ring.capacity :=
    flows_record_on_ring hpool fun t hmem => (hpauses t hmem).isSome_result?
  have hbalanced : Balanced result? streams l :=
    (balanced_ofPool (ReadyQueue.isEmpty_iff.1 hempty) hpool _).record keeps_result? calls
  have hsize : l.pool.queue.capacity = capacity := hflows.fits.trans hstands.capacity_eq
  have hlength := hflows.length_eq_inFlight
  have hlimit := hbalanced.limit_eq
  have hfree := hbalanced.free_le
  have hinFlight : l.pool.inFlight = streams - l.pool.free := by rw [StreamPool.inFlight, hlimit]
  obtain ⟨hiff, hrefused⟩ : _ ∧ (d.fault ≠ none → _) := hflows.spawn_on_ring t
  rw [hsize] at hiff hrefused
  refine ⟨hlimit, hsize, hlength, hiff, ?_, fun hfault => ⟨hrefused hfault, ?_⟩, fun hbusy => ?_⟩
  · rw [hiff]
    omega
  · exact enter_of_refused (hrefused hfault)
  · have hnone : l.pool.free = 0 := by omega
    refine ⟨?_, hflows.fault_spawn_of_busy hnone t⟩
    have hroom := (hflows.makeRoom (Ring.steady_capacity ring.capacity)).1
    rwa [StreamPool.makeRoom, if_pos hnone] at hroom

/-- A ring of two cells under three streams refuses the third countdown. After a run it has room for
two again, and then refuses the next one, with the two still in it and the peak as it was. -/
theorem record_refuses_on_ring_of_two_cells :
    let calls : List (PoolCall Countdown) :=
      [.spawn ⟨1, 2⟩, .spawn ⟨2, 0⟩, .spawn ⟨3, 1⟩, .run, .spawn ⟨3, 1⟩, .spawn ⟨4, 0⟩]
    ∃ ring pool, Ring.ofCapacity 2 = .ok ring ∧ StreamPool.ofQueue ring 3 = .ok pool ∧
      let l : Ledger (Ring Countdown) Countdown Int := (ofPool pool).record calls
      let d : Progress (StreamPool (Ring Countdown)) Countdown Int := l.pool.spawn ⟨5, 0⟩
      l.pool.queue.tasks = [⟨3, 1⟩, ⟨4, 0⟩] ∧ l.pool.peak = 2 ∧
        d = { state := l.pool, fault := some (.queueFull 2) } := by
  intro calls
  have hpauses : ∀ t ∈ PoolCall.spawned calls, FinishesAfter t t.pauses :=
    fun t _ => t.finishesAfter
  obtain ⟨ring, pool, hring, hpool, -, -, -, -, hiff, hrefused, -⟩ :=
    record_refuses (show 1 ≤ 2 by decide) (show 1 ≤ 3 by decide) hpauses ⟨5, 0⟩
  obtain rfl := Except.ok.inj hring
  obtain rfl := Except.ok.inj hpool
  refine ⟨_, _, rfl, rfl, by decide +kernel, by decide +kernel, ?_⟩
  exact (hrefused (hiff.2 ⟨by decide +kernel, by decide⟩)).1

end Ledger

end BulkLookup
