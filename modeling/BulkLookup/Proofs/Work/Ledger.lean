import BulkLookup.Proofs.Work.Flows
import BulkLookup.Work.Countdown

/-!
# The accounts of a stream pool

A ledger follows a pool through any sequence of calls, of which some may end in a fault: it writes
down which tasks were admitted, which turns were taken, and how many tasks were in flight after each
admission. At every moment between calls the books balance. The tasks admitted are those that
finished, those in the queue and those that the queue discarded; the streams taken are as many as
the tasks admitted that did not finish; and the peak is the greatest load ever written down.

None of this depends on the queue: it may hand tasks out in any order, lose some, or refuse some. Of
a queue that loses nothing, more can be said: a wait or a run meets a fault only if that costs a
task, and none is met where no task can be lost.

## Main definitions

* `Ledger` — a pool, and what was written down about it
* `Ledger.record` — the ledger after a sequence of calls
* `Ledger.Balanced` — the books balance

## Main results

* `Ledger.Balanced.enter` — every call keeps the books balanced
* `Ledger.flows_record` — where no task can be lost, none ever is
* `Ledger.record_balances` — what holds between any two calls
-/

namespace BulkLookup

universe u v w x

open ReadyQueue

variable {Q : Type w} {τ : Type u} {ρ : Type v} {ι : Type x}

/-- A countdown keeps its number. -/
theorem Countdown.keeps_id : Resumable.Keeps Countdown.id := by
  intro t t' h
  obtain ⟨id, _ | pauses⟩ := t
  · cases h
  · cases h
    rfl

/-- A pool, and what was written down about it. -/
structure Ledger (Q : Type w) (τ : Type u) (ρ : Type v) where
  pool : StreamPool Q
  /-- The tasks that were admitted, in order. -/
  admitted : List τ
  /-- The turns that were taken, in order. -/
  turns : List (Turn τ ρ)
  /-- How many tasks were in flight right after each admission. -/
  loads : List Nat

namespace Ledger

/-- The ledger of a pool on which nothing was done yet. -/
def ofPool (pool : StreamPool Q) : Ledger Q τ ρ := ⟨pool, [], [], []⟩

/-- The tasks that finished. -/
def finished (l : Ledger Q τ ρ) : List τ := Turn.finishers l.turns

variable [ReadyQueue Q τ] [Resumable τ ρ]

/-- Writes a call down. -/
def enter (l : Ledger Q τ ρ) (call : PoolCall τ) : Ledger Q τ ρ :=
  let done : Progress (StreamPool Q) τ ρ := l.pool.call call
  { pool := done.state
    admitted := l.admitted ++ call.admitted done
    turns := l.turns ++ done.turns.toList
    loads := l.loads ++ (call.admitted done).map fun _ => done.state.inFlight }

/-- Writes a sequence of calls down. -/
def record (l : Ledger Q τ ρ) (calls : List (PoolCall τ)) : Ledger Q τ ρ := calls.foldl enter l

/-- The books balance, for a pool of `streams` streams and tasks known by their marks. -/
structure Balanced (mark : τ → ι) (streams : Nat) (l : Ledger Q τ ρ) : Prop where
  limit_eq : l.pool.limit = streams
  free_le : l.pool.free ≤ streams
  /-- The streams taken are as many as the tasks admitted that did not finish. -/
  free_eq : l.pool.free + l.admitted.length = streams + l.finished.length
  peak_eq : l.pool.peak = l.loads.foldl max 0
  /-- The tasks admitted are those that finished, those in the queue, and those discarded. -/
  perm : ∃ discarded, (l.admitted.map mark).Perm
    (l.finished.map mark ++ (tasks l.pool.queue).map mark ++ discarded)

variable {mark : τ → ι} {streams : Nat} {l : Ledger Q τ ρ}

omit [Resumable τ ρ] in
/-- What is in flight, in balanced books. -/
theorem Balanced.exists_discarded (h : Balanced mark streams l) :
    ∃ discarded, (l.admitted.map mark).Perm
        (l.finished.map mark ++ (tasks l.pool.queue).map mark ++ discarded) ∧
      l.admitted.length = l.finished.length + l.pool.inFlight ∧
      l.pool.inFlight = (tasks l.pool.queue).length + discarded.length := by
  obtain ⟨discarded, hperm⟩ := h.perm
  have hlength := hperm.length_eq
  simp only [List.length_append, List.length_map] at hlength
  have hfree := h.free_eq
  have hle := h.free_le
  have hinFlight : l.pool.inFlight = streams - l.pool.free := by
    rw [StreamPool.inFlight, h.limit_eq]
  exact ⟨discarded, hperm, by omega, by omega⟩

omit [Resumable τ ρ] in
theorem Balanced.bounded (h : Balanced mark streams l) : l.pool.Bounded := by
  obtain ⟨discarded, hperm⟩ := h.perm
  have hlength := hperm.length_eq
  simp only [List.length_append, List.length_map] at hlength
  have hfree := h.free_eq
  have hlimit := h.limit_eq
  unfold StreamPool.Bounded
  omega

omit [Resumable τ ρ] in
/-- The books of a new pool balance. -/
theorem balanced_ofPool {queue : Q} {pool : StreamPool Q} (hempty : tasks queue = [])
    (hpool : StreamPool.ofQueue queue streams = .ok pool) (mark : τ → ι) :
    Balanced mark streams (ofPool pool : Ledger Q τ ρ) := by
  obtain ⟨-, -, rfl⟩ := StreamPool.ofQueue_eq_ok hpool
  refine ⟨rfl, Nat.le_refl _, rfl, rfl, [], ?_⟩
  simp only [ofPool, finished, Turn.finishers, hempty]
  exact .nil

/-- Every call keeps the books balanced, whether or not it ends in a fault. -/
theorem Balanced.enter [DropsRefused Q] (h : Balanced mark streams l)
    (hmark : Resumable.Keeps mark) (call : PoolCall τ) : Balanced mark streams (l.enter call) := by
  have hsettles : StreamPool.Settles mark l.pool (l.pool.call call : Progress (StreamPool Q) τ ρ)
      (call.admitted (l.pool.call call : Progress (StreamPool Q) τ ρ)) :=
    StreamPool.settles_call hmark h.bounded call
  have hfree := hsettles.free_eq
  have hfree' := h.free_eq
  have hle := hsettles.free_le
  rw [Progress.finishes_eq] at hfree hle
  constructor
  · exact hsettles.limit_eq.trans h.limit_eq
  · rw [h.limit_eq] at hle
    exact Nat.le_trans (Nat.le.intro hfree) hle
  · simp only [Ledger.enter, finished, Turn.finishers_append, List.length_append]
    rw [finished] at hfree'
    omega
  · simp only [Ledger.enter, List.foldl_append]
    rw [← h.peak_eq]
    exact hsettles.peak_eq
  · obtain ⟨discarded, hdiscarded⟩ := h.perm
    obtain ⟨lost, hlost⟩ := hsettles.perm
    rw [List.map_append] at hlost
    refine ⟨lost ++ discarded, ?_⟩
    simp only [Ledger.enter, finished, Turn.finishers_append, List.map_append]
    exact perm_of_steps hdiscarded hlost

/-- The books stay balanced through any sequence of calls. -/
theorem Balanced.record [DropsRefused Q] (h : Balanced mark streams l)
    (hmark : Resumable.Keeps mark) (calls : List (PoolCall τ)) :
    Balanced mark streams (l.record calls) := by
  induction calls generalizing l with
  | nil => exact h
  | cons call calls ih => exact ih (h.enter hmark call)

/-! ### Where no task can be lost -/

section Flows

variable [LosesNothing Q] {fits : Q → Prop}

/-- A call keeps a pool without faults, if the task to be admitted comes to a result, and if putting
a task into the queue keeps it in a fit state. -/
theorem flows_call (hsteady : Steady fits) (hkept : ∀ q t, fits q → fits (schedule q t).2)
    {p : StreamPool Q} (h : p.Flows fits) {call : PoolCall τ}
    (hresult : ∀ t, call = .spawn t → (Resumable.result? t : Option ρ).isSome = true) :
    (p.call call : Progress (StreamPool Q) τ ρ).state.Flows fits := by
  cases call with
  | spawn t =>
    obtain ⟨hfault, hflows, -⟩ := h.makeRoom hsteady
    have hlaunch := hflows.launch (StreamPool.free_pos_of_makeRoom hfault) (hresult t rfl)
      (hkept _ t hflows.fits)
    change (p.spawn t : Progress (StreamPool Q) τ ρ).state.Flows _
    rw [StreamPool.spawn_eq, Progress.andThen_of_none hfault]
    exact hlaunch.1
  | run => exact (h.run hsteady).2.2.1

/-- Where the queue is in a fit state and all tasks come to results, none is ever lost. -/
theorem flows_record_of_steady (hsteady : Steady fits)
    (hkept : ∀ q t, fits q → fits (schedule q t).2) (h : l.pool.Flows fits)
    {calls : List (PoolCall τ)}
    (hresults : ∀ t, .spawn t ∈ calls → (Resumable.result? t : Option ρ).isSome = true) :
    (l.record calls).pool.Flows fits := by
  induction calls generalizing l with
  | nil => exact h
  | cons call calls ih =>
    have hcall : (l.enter call).pool.Flows fits := by
      apply flows_call hsteady hkept h
      rintro t rfl
      exact hresults t List.mem_cons_self
    exact ih hcall fun t hmem => hresults t (List.mem_cons_of_mem call hmem)

/-- Where the queue takes tasks back and all tasks come to results, none is ever lost. -/
theorem flows_record [TakesBack Q] (h : l.pool.Flows fun _ => True) {calls : List (PoolCall τ)}
    (hresults : ∀ t, .spawn t ∈ calls → (Resumable.result? t : Option ρ).isSome = true) :
    (l.record calls).pool.Flows fun _ => True :=
  flows_record_of_steady steady_of_takesBack (fun _ _ _ => trivial) h hresults

end Flows

/-- Between any two calls on a pool over an empty queue, whatever the calls were and however they
ended: the tasks admitted are those that finished and those in flight; the tasks in flight are those
in the queue and those that the queue discarded; there are no more of them than streams, and the
peak is the greatest number of them after an admission. The next call takes a stream if it admits a
task and gives one back for each task that finishes, and the streams never run over.

A queue that loses nothing says truly how many tasks are in flight, as long as none was discarded;
waiting for a stream, or running, meets a fault only if that costs a task, and a run that does not
leaves no task in flight. If the queue takes back what it hands out, and if the tasks come to
results, then none is ever discarded, and no fault is met at all. -/
theorem record_balances [DropsRefused Q] {queue : Q} {pool : StreamPool Q}
    (hempty : tasks queue = []) (hpool : StreamPool.ofQueue queue streams = .ok pool)
    (hmark : Resumable.Keeps mark) (calls : List (PoolCall τ)) :
    let l : Ledger Q τ ρ := (ofPool pool).record calls
    let waited : Progress (StreamPool Q) τ ρ := l.pool.awaitStream
    let ran : Progress (StreamPool Q) τ ρ := l.pool.run
    ∃ discarded : List ι,
      (l.admitted.map mark).Perm
        (l.finished.map mark ++ (tasks l.pool.queue).map mark ++ discarded) ∧
      l.admitted.length = l.finished.length + l.pool.inFlight ∧
      l.pool.inFlight = (tasks l.pool.queue).length + discarded.length ∧
      l.pool.inFlight ≤ l.pool.limit ∧ l.pool.limit = streams ∧
      l.pool.peak = l.loads.foldl max 0 ∧
      (∀ call, let d : Progress (StreamPool Q) τ ρ := l.pool.call call
        d.state.free + (call.admitted d).length = l.pool.free + d.finishes ∧
        l.pool.free + d.finishes ≤ l.pool.limit) ∧
      (∀ [LosesNothing Q],
        (discarded = [] → ReadyQueue.length l.pool.queue = l.pool.inFlight) ∧
        (l.pool.free = 0 → waited.state.AllQueued → waited.fault = none) ∧
        (ran.state.AllQueued → ran.fault = none ∧ ran.state.inFlight = 0) ∧
        ∀ [TakesBack Q],
          (∀ t, .spawn t ∈ calls → (Resumable.result? t : Option ρ).isSome = true) →
            discarded = [] ∧ (l.pool.free = 0 → waited.fault = none) ∧
            ran.fault = none ∧ ran.state.inFlight = 0) := by
  intro l waited ran
  obtain ⟨hstreams, -, hopened⟩ := StreamPool.ofQueue_eq_ok hpool
  have hbalanced : Balanced mark streams l := (balanced_ofPool hempty hpool mark).record hmark calls
  have hbounded := hbalanced.bounded
  have hlimit := hbalanced.limit_eq
  -- The books after these calls say all that holds of any queue.
  obtain ⟨discarded, hperm, hadmitted, hinFlight⟩ := hbalanced.exists_discarded
  refine ⟨discarded, hperm, hadmitted, hinFlight, Nat.sub_le _ _, hlimit, hbalanced.peak_eq,
    fun call => ?_, ?_⟩
  · have hsettles : StreamPool.Settles mark l.pool
        (l.pool.call call : Progress (StreamPool Q) τ ρ) _ :=
      StreamPool.settles_call hmark hbounded call
    exact ⟨hsettles.free_eq, hsettles.free_le⟩
  -- On a queue that loses nothing, a task can only be lost in a fault.
  · intro hloses
    have hpos : 0 < l.pool.limit := hlimit ▸ hstreams
    have hwaited : waited.state.Bounded :=
      (StreamPool.settles_awaitStream hmark hbounded).bounded hbounded
    have hran : ran.state.Bounded := (StreamPool.settles_run hmark hbounded).bounded hbounded
    refine ⟨fun hnil => ?_, fun hfree hqueued => ?_, fun hqueued => ?_, ?_⟩
    · rw [hinFlight, hnil, LosesNothing.length_eq]
      rfl
    · apply StreamPool.fault_awaitStream_eq_none hbounded hfree hpos
      exact (StreamPool.complete_iff_allQueued hwaited.free_le).2 hqueued
    · apply StreamPool.fault_run_eq_none hbounded
      exact (StreamPool.complete_iff_allQueued hran.free_le).2 hqueued
    · intro htakes hresults
      have hstart : (ofPool pool : Ledger Q τ ρ).pool.Flows fun _ => True := by
        rw [hopened]
        refine ⟨?_, hstreams, trivial, ?_⟩
        · simp [StreamPool.Complete, ofPool, hempty]
        · simp [AllFinish, ofPool, hempty]
      -- No call has lost a task, since each of them ended without a fault of a task or the queue.
      have hflows : l.pool.Flows fun _ => True := flows_record hstart hresults
      refine ⟨?_, fun hfree => ?_, ?_⟩
      · have hqueued := (StreamPool.complete_iff_allQueued hbounded.free_le).1 hflows.complete
        unfold StreamPool.AllQueued at hqueued
        exact List.eq_nil_of_length_eq_zero (by omega)
      · have hroom := (hflows.makeRoom steady_of_takesBack).1
        rwa [StreamPool.makeRoom, if_pos hfree] at hroom
      · obtain ⟨hfault, hnil, hflows', -⟩ := hflows.run steady_of_takesBack
        exact ⟨hfault, hflows'.complete.inFlight_eq_zero hnil⟩

/-- A queue that drops every second task drops the first countdown when it suspends. The second one
then waits in vain for the only stream, and the first is in flight for ever. -/
theorem record_balances_of_lossy_queue :
    let calls : List (PoolCall Countdown) := [.spawn ⟨7, 1⟩, .spawn ⟨8, 0⟩, .run]
    let l : Ledger (Lossy Countdown) Countdown Int :=
      (ofPool ⟨Lossy.ofPeriod 2, 1, 1, 0⟩).record calls
    l.admitted = [⟨7, 1⟩] ∧ l.finished = [] ∧ tasks l.pool.queue = [] ∧
      ∃ discarded : List Int, [7].Perm discarded ∧ l.pool.inFlight = discarded.length := by
  intro calls l
  have hadmitted : l.admitted = [⟨7, 1⟩] := by cbv
  have hfinished : l.finished = [] := by cbv
  have htasks : tasks l.pool.queue = [] := by cbv
  have hpool : StreamPool.ofQueue (Lossy.ofPeriod 2 : Lossy Countdown) 1 =
      .ok ⟨.ofPeriod 2, 1, 1, 0⟩ := rfl
  obtain ⟨discarded, hperm, -, hinFlight, -⟩ :=
    record_balances (by rfl) hpool Countdown.keeps_id calls
  refine ⟨hadmitted, hfinished, htasks, discarded, ?_, ?_⟩
  · rw [hadmitted, hfinished, htasks] at hperm
    exact hperm
  · rw [htasks, List.length_nil, Nat.zero_add] at hinFlight
    exact hinFlight

end Ledger

end BulkLookup
