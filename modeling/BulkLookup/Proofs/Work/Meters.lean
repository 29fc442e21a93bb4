import BulkLookup.Proofs.Work.Completion
import BulkLookup.Proofs.Work.Likeness
import BulkLookup.Proofs.Work.Loads

/-!
# What meters show

A meter changes nothing: a metered queue behaves as the queue itself does. So what a meter shows
after a batch is what the batch has done to the queue. Where nothing is lost and no fault is met,
this is known beforehand. The queue accepts each task once for its admission and once for each of
its suspensions. And it is never longer than right after an admission, since a task that is put back
was taken out before; hence its greatest length is the peak of the pool.

## Main definitions

* `Metered.Shows` — what a meter shows as long as no task is admitted

## Main results

* `Metered.likeness_queue` — a metered queue behaves as the queue
* `StreamPool.Complete.spawn` — where no fault is met, all tasks in flight are in the queue
* `Metered.peak_of_batch` — the greatest length of the queue is the peak of the pool
* `StreamPool.interleaves_of_batch` — the turns that a batch takes altogether
* `ReadyQueue.Counts.of_batch` — how often the queue accepts a task of a batch
-/

namespace BulkLookup

universe u v w

open ReadyQueue Resumable

variable {Q : Type w} {τ : Type u} {ρ : Type v} [ReadyQueue Q τ]

namespace Metered

/-- A metered queue behaves as the queue. -/
theorem likeness_queue : Likeness fun (m : Metered Q) (q : Q) => m.queue = q where
  length_eq h := congrArg ReadyQueue.length h
  schedule {m q} t h := by
    subst h
    exact ⟨m.fst_schedule t, m.queue_schedule t⟩
  takeNext {m q} h := by
    subst h
    exact ⟨rfl, rfl⟩

/-- A meter takes no room. -/
theorem hasRoom {q : Q} {n : Nat} (h : HasRoom q n) : HasRoom (Metered.ofQueue q) n := by
  obtain ⟨fits, hq, haccepts, hschedule, htake⟩ := h
  refine ⟨fun m => fits m.queue, hq, fun m t hm hlt => ?_, fun m t hm => ?_,
    fun m hm => htake m.queue hm⟩
  · exact (m.fst_schedule t).trans (haccepts m.queue t hm hlt)
  · change fits (m.schedule t).2.queue
    rw [m.queue_schedule]
    exact hschedule m.queue t hm

end Metered

/-! ### Where nothing is lost -/

variable [Resumable τ ρ] [LosesNothing Q]

namespace StreamPool.Complete

variable {p : StreamPool Q} {t : τ}

theorem makeRoom (h : p.Complete)
    (hfault : (p.makeRoom : Progress (StreamPool Q) τ ρ).fault = none) :
    (p.makeRoom : Progress (StreamPool Q) τ ρ).state.Complete := by
  have hcomplete : (tasks p.queue).length + p.free = p.limit := h
  unfold StreamPool.makeRoom at hfault ⊢
  split
  · next hfree =>
    rw [if_pos hfree] at hfault
    have hnone : (drainToFinish p.queue : Progress Q τ ρ).fault = none := hfault
    -- The task that has finished is the only one that has left the queue.
    obtain ⟨earlier, q', turn, hworks, -⟩ := exists_works_of_fault_eq_none hnone
    have hlength := hworks.length_eq
    rw [Advance.losses] at hlength
    change (tasks (drainToFinish p.queue : Progress Q τ ρ).state).length +
      (p.free + (drainToFinish p.queue : Progress Q τ ρ).finishes) = p.limit
    omega
  · exact h

omit [Resumable τ ρ] in
theorem launch (h : p.Complete) (hfree : 0 < p.free)
    (hfault : (p.launch t : Progress (StreamPool Q) τ ρ).fault = none) :
    (p.launch t : Progress (StreamPool Q) τ ρ).state.Complete := by
  have hcomplete : (tasks p.queue).length + p.free = p.limit := h
  rcases hschedule : schedule p.queue t with ⟨_ | fault, queue⟩
  · have hlength : (tasks queue).length = (tasks p.queue).length + 1 :=
      (perm_of_accepted hschedule).length_eq
    rw [launch_of_accepted hschedule]
    change (tasks queue).length + (p.free - 1) = p.limit
    omega
  · rw [launch_of_refused hschedule] at hfault
    cases hfault

/-- A spawn that meets no fault loses no task. -/
theorem spawn (h : p.Complete) (hfault : (p.spawn t : Progress (StreamPool Q) τ ρ).fault = none) :
    (p.spawn t : Progress (StreamPool Q) τ ρ).state.Complete := by
  rw [spawn_eq] at hfault ⊢
  obtain ⟨hroom, hlaunch⟩ := Progress.fault_eq_none_of_andThen hfault
  rw [Progress.andThen_of_none hroom]
  exact (h.makeRoom hroom).launch (free_pos_of_makeRoom hroom) hlaunch

end StreamPool.Complete

namespace Metered

omit [Resumable τ ρ] [LosesNothing Q] in
theorem peak_of_accepted {m m' : Metered Q} {t : τ} (h : ReadyQueue.schedule m t = (none, m')) :
    m'.peak = max m.peak (ReadyQueue.length m') := by
  change m.schedule t = (none, m') at h
  rw [schedule] at h
  split at h
  · cases h
  · cases h
    rfl

omit [Resumable τ ρ] [LosesNothing Q] in
theorem peak_of_refused {m m' : Metered Q} {t : τ} {fault : Fault}
    (h : ReadyQueue.schedule m t = (some fault, m')) : m'.peak = m.peak := by
  change m.schedule t = (some fault, m') at h
  rw [schedule] at h
  split at h
  · cases h
    rfl
  · cases h

omit [Resumable τ ρ] [LosesNothing Q] in
theorem peak_of_takeNext {m m' : Metered Q} {t? : Option τ}
    (h : ReadyQueue.takeNext m = (t?, m')) : m'.peak = m.peak := by
  cases h
  rfl

/-- A queue is no longer than its meter says, and unless tasks were admitted, the meter still shows
`peak`. -/
def Shows (peak : Nat) (m : Metered Q) (ts : List τ) (_ : List (Turn τ ρ)) : Prop :=
  (tasks m).length ≤ m.peak ∧ (ts = [] → m.peak = peak)

/-- Turns do not raise the peak. -/
theorem invariant_shows (peak : Nat) :
    Invariant (Shows peak : Metered Q → List τ → List (Turn τ ρ) → Prop) where
  attempt {m ts turns a} h ha := by
    obtain ⟨hle, hpeak⟩ := h
    suffices hkept : a.queue.peak = m.peak ∧ (tasks a.queue).length ≤ m.peak by
      rw [Shows, hkept.1]
      exact ⟨hkept.2, hpeak⟩
    have hshorter : (tasks a.queue).length ≤ m.peak := by
      have hlength := ha.length_eq
      omega
    refine ⟨?_, hshorter⟩
    cases ha with
    | idle htake => exact peak_of_takeNext htake
    | finished htake => exact peak_of_takeNext htake
    | suspended htake hresume hschedule =>
      -- The task that is put back has left its place before.
      rw [Advance.queue, peak_of_accepted hschedule, peak_of_takeNext htake, LosesNothing.length_eq]
      exact Nat.max_eq_left hshorter
    | broke htake => exact peak_of_takeNext htake
    | refused htake hresume hschedule =>
      exact (peak_of_refused hschedule).trans (peak_of_takeNext htake)
  accept {m m' ts turns t} h hschedule := by
    rw [Shows, peak_of_accepted hschedule, LosesNothing.length_eq]
    refine ⟨Nat.le_max_right _ _, fun hnil => ?_⟩
    cases List.append_ne_nil_of_right_ne_nil ts (List.cons_ne_nil t []) hnil

variable {p : StreamPool (Metered Q)} {t : τ} {ts : List τ}

/-- An admission raises the peak to the length that the queue has then. -/
theorem peak_spawn (h : (tasks p.queue).length ≤ p.queue.peak)
    (hfault : (p.spawn t : Progress (StreamPool (Metered Q)) τ ρ).fault = none) :
    (p.spawn t : Progress (StreamPool (Metered Q)) τ ρ).state.queue.peak = max p.queue.peak
      (tasks (p.spawn t : Progress (StreamPool (Metered Q)) τ ρ).state.queue).length := by
  have hstart : Shows p.queue.peak p.queue ([] : List τ) ([] : List (Turn τ ρ)) := ⟨h, fun _ => rfl⟩
  have hpeak := ((invariant_shows p.queue.peak).makeRoom hstart).2 rfl
  rw [StreamPool.spawn_eq] at hfault ⊢
  obtain ⟨hroom, hlaunch⟩ := Progress.fault_eq_none_of_andThen hfault
  rw [Progress.andThen_of_none hroom]
  generalize (p.makeRoom : Progress (StreamPool (Metered Q)) τ ρ) = room at *
  rcases hschedule : ReadyQueue.schedule room.state.queue t with ⟨_ | fault, queue⟩
  · rw [StreamPool.launch_of_accepted hschedule]
    dsimp only
    rw [peak_of_accepted hschedule, hpeak, LosesNothing.length_eq]
  · rw [StreamPool.launch_of_refused hschedule] at hlaunch
    cases hlaunch

/-- While tasks of a batch are admitted without a fault, the queue becomes as long as there are
tasks in flight, and no longer. -/
theorem peak_spawnAll {queue : Q} {streams : Nat} (hnil : tasks queue = [])
    (hfault : ((⟨.ofQueue queue, streams, streams, 0⟩ : StreamPool (Metered Q)).spawnAll ts :
      Progress (StreamPool (Metered Q)) τ ρ).fault = none) :
    let d : Progress (StreamPool (Metered Q)) τ ρ :=
      (⟨.ofQueue queue, streams, streams, 0⟩ : StreamPool (Metered Q)).spawnAll ts
    d.state.Complete ∧ d.state.queue.peak = d.state.peak ∧
      (tasks d.state.queue).length ≤ d.state.queue.peak := by
  induction ts using List.reverseRecOn with
  | nil =>
    have hlength : (tasks queue).length = 0 := List.length_eq_zero_iff.2 hnil
    refine ⟨?_, rfl, Nat.le_of_eq hlength⟩
    change (tasks queue).length + streams = streams
    omega
  | append_singleton ts t ih =>
    intro d
    rw [StreamPool.spawnAll_concat] at hfault
    obtain ⟨hearlier, hspawn⟩ := Progress.fault_eq_none_of_andThen hfault
    obtain ⟨hcomplete, hpeak, hle⟩ := ih hearlier
    obtain ⟨-, -, hpool, -⟩ := StreamPool.spawn_of_fault_eq_none hspawn
    have hcomplete' := hcomplete.spawn hspawn
    have hmeter := peak_spawn hle hspawn
    have hd : d = _ :=
      (StreamPool.spawnAll_concat _ ts t).trans (Progress.andThen_of_none hearlier)
    -- The tasks in flight are those in the queue.
    have hinFlight := (StreamPool.complete_iff_allQueued hcomplete'.bounded.free_le).1 hcomplete'
    rw [StreamPool.AllQueued] at hinFlight
    rw [hinFlight, ← hpeak] at hpool
    rw [hd]
    refine ⟨hcomplete', hmeter.trans hpool.symm, ?_⟩
    change _ ≤ (StreamPool.spawn _ t : Progress (StreamPool (Metered Q)) τ ρ).state.queue.peak
    rw [hmeter]
    exact Nat.le_max_right _ _

/-- When a batch has been worked off without a fault, the greatest length of the queue is the peak
of the pool. -/
theorem peak_of_batch {queue : Q} {streams : Nat} (hnil : tasks queue = [])
    {ran : Progress (StreamPool (Metered Q)) τ ρ}
    (hran : ((⟨.ofQueue queue, streams, streams, 0⟩ : StreamPool (Metered Q)).spawnAll ts).andThen
      (·.run) = ran) (hfault : ran.fault = none) :
    (ran.state.close : Progress (Metered Q) τ ρ).state.peak = ran.state.peak := by
  rw [← hran] at hfault
  obtain ⟨hspawned, -⟩ := Progress.fault_eq_none_of_andThen hfault
  obtain ⟨-, hpeak, hle⟩ := peak_spawnAll hnil hspawned
  rw [← hran, Progress.andThen_of_none hspawned]
  generalize (StreamPool.spawnAll _ ts : Progress (StreamPool (Metered Q)) τ ρ) = d at hpeak hle ⊢
  have hspawned : Shows d.state.peak d.state.queue ([] : List τ) ([] : List (Turn τ ρ)) :=
    ⟨hle, fun _ => hpeak⟩
  have hrun := (invariant_shows d.state.peak).run hspawned
  exact ((invariant_shows d.state.peak).drain hrun).2 rfl

end Metered

/-! ### Batches that are worked off -/

section Batches

variable {queue : Q} {streams : Nat} {ts : List τ}

/-- To admit a batch to a pool over an empty queue, to run and to close the pool takes exactly the
turns of the tasks of the batch. -/
theorem StreamPool.interleaves_of_batch (hstreams : 0 < streams) (hempty : isEmpty queue = true)
    (hroom : HasRoom queue (min streams ts.length))
    (hresults : ∀ t ∈ ts, (result? t : Option ρ).isSome = true) :
    let ran : Progress (StreamPool Q) τ ρ :=
      ((⟨queue, streams, streams, 0⟩ : StreamPool Q).spawnAll ts).andThen (·.run)
    let closed : Progress Q τ ρ := ran.state.close
    Interleaves (ts.map journey) (ran.turns ++ closed.turns).toList (ts.map fun _ => []) := by
  intro ran closed
  obtain ⟨hran, -, -, hperm⟩ := perm_results_of_batch hstreams hempty hroom hresults
  have hunrolled : Unrolled ts (ran.turns ++ closed.turns).toList closed.state :=
    lasting_unrolled.batch (.of_tasks_eq_nil (isEmpty_iff.1 hempty)) rfl hran
  refine (hunrolled.of_finished ?_).2
  have hlength := hperm.length_eq
  rw [List.length_map, List.length_map, Array.toList_filterMap] at hlength
  rw [Turn.length_finishers, hlength]

/-- Whatever counts the tasks that the queue accepts goes up by all of these turns. -/
theorem ReadyQueue.Counts.of_batch {count : Q → Nat} (hcount : Counts count)
    (hstreams : 0 < streams) (hempty : isEmpty queue = true)
    (hroom : HasRoom queue (min streams ts.length)) {pauses : τ → Nat}
    (hpauses : ∀ t ∈ ts, FinishesAfter t (pauses t)) :
    let ran : Progress (StreamPool Q) τ ρ :=
      ((⟨queue, streams, streams, 0⟩ : StreamPool Q).spawnAll ts).andThen (·.run)
    let closed : Progress Q τ ρ := ran.state.close
    count closed.state = count queue + (ts.map fun t => pauses t + 1).sum := by
  intro ran closed
  have hresults : ∀ t ∈ ts, (result? t : Option ρ).isSome = true :=
    fun t hmem => (hpauses t hmem).isSome_result?
  have hnil : tasks queue = [] := isEmpty_iff.1 hempty
  obtain ⟨hran, -, hclosed, -⟩ := StreamPool.perm_results_of_batch hstreams hempty hroom hresults
  have hjourneys := StreamPool.interleaves_of_batch hstreams hempty hroom hresults
  have hcounted : AllFinish closed.state ∧ count closed.state =
      count queue + (ran.turns ++ closed.turns).toList.length + (tasks closed.state).length := by
    apply (hcount.lasting (count queue)).batch (p := ⟨queue, streams, streams, 0⟩) _ rfl hran
      hresults
    refine fun _ => ⟨.of_tasks_eq_nil hnil, ?_⟩
    change count queue = count queue + 0 + (tasks queue).length
    rw [hnil]
    rfl
  rw [hcounted.2, hjourneys.length_eq_sum hpauses, hclosed]
  rfl

end Batches

end BulkLookup
