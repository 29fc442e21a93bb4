import BulkLookup.Proofs.Work.Steady
import BulkLookup.Work.StreamPool

/-!
# What pools do to streams and tasks

A pool takes a stream when a task is admitted and gives one back when a task finishes. This module
says what an operation on a pool does to its streams, to its peak and to the tasks of its queue, in
one statement for all operations: `StreamPool.Settles`. It holds even of operations that end in a
fault, whether the queue refused a task or handed none out.

The one thing that a pool asks of its queue beyond what every queue owes is that a task which the
queue refuses is not held all the same; a pool could not know of it.

## Main definitions

* `DropsRefused` — queues that do not hold what they refuse
* `StreamPool.Bounded` — the tasks in the queue do not outnumber the streams taken
* `StreamPool.Settles` — what an operation does to streams, peak and tasks
* `PoolCall`, `StreamPool.call` — the operations on a pool

## Main results

* `StreamPool.spawn_eq` — spawning is making room and then launching
* `StreamPool.settles_call` — every operation settles
* `StreamPool.Settles.bounded` — and keeps the pool bounded
-/

namespace BulkLookup

universe u v w x

open ReadyQueue

variable {Q : Type w} {τ : Type u} {ρ : Type v} {ι : Type x}

section Laws

variable (Q) [ReadyQueue Q τ]

/-- A queue that does not hold a task that it has refused. -/
class DropsRefused : Prop where
  perm_refused : ∀ (q : Q) (t : τ), (schedule q t).1 ≠ none →
    ∃ lost, (tasks q).Perm (tasks (schedule q t).2 ++ lost)

instance (priority := low) [LosesNothing Q] : DropsRefused Q where
  perm_refused q t h := by
    refine ⟨[], ?_⟩
    rw [List.append_nil]
    exact (LosesNothing.perm_refused q t h).symm

end Laws

instance : DropsRefused (Lossy τ) := ⟨fun _ _ h => absurd rfl h⟩

namespace StreamPool

variable [ReadyQueue Q τ]

/-- The tasks in the queue of a pool do not outnumber the streams that are taken. -/
def Bounded (p : StreamPool Q) : Prop := (tasks p.queue).length + p.free ≤ p.limit

theorem Bounded.free_le {p : StreamPool Q} (h : p.Bounded) : p.free ≤ p.limit :=
  Nat.le_trans (Nat.le_add_left _ _) h

/-- What an operation on a pool does in which the tasks `admitted` were admitted: it takes a stream
for each of them and gives one back for each task that finishes, without ever having more of them
than there are; its peak takes note of the load; and tasks, known by their marks, are neither made
nor doubled. -/
structure Settles (mark : τ → ι) (p : StreamPool Q) (d : Progress (StreamPool Q) τ ρ)
    (admitted : List τ) : Prop where
  limit_eq : d.state.limit = p.limit
  free_eq : d.state.free + admitted.length = p.free + d.finishes
  free_le : p.free + d.finishes ≤ p.limit
  peak_eq : d.state.peak = (admitted.map fun _ => d.state.inFlight).foldl max p.peak
  perm : ∃ lost, ((tasks p.queue ++ admitted).map mark).Perm
    ((Turn.finishers d.turns.toList).map mark ++ (tasks d.state.queue).map mark ++ lost)

variable {mark : τ → ι} {p : StreamPool Q} {d : Progress (StreamPool Q) τ ρ} {admitted : List τ}

namespace Settles

/-- How many tasks there are before and after an operation. -/
theorem exists_length_eq (h : Settles mark p d admitted) :
    ∃ lost, (tasks p.queue).length + admitted.length =
      d.finishes + (tasks d.state.queue).length + lost := by
  obtain ⟨lost, hlost⟩ := h.perm
  refine ⟨lost.length, ?_⟩
  have hlength := hlost.length_eq
  simp only [List.length_map, List.length_append] at hlength
  rw [d.finishes_eq]
  exact hlength

/-- A pool stays bounded. -/
theorem bounded (h : Settles mark p d admitted) (hp : p.Bounded) : d.state.Bounded := by
  obtain ⟨lost, hlost⟩ := h.exists_length_eq
  have hfree := h.free_eq
  unfold Bounded at hp ⊢
  rw [h.limit_eq]
  omega

end Settles

/-- A pool that was opened has a stream, its queue says that it is empty, and nothing is in
flight. -/
theorem ofQueue_eq_ok {queue : Q} {streams : Nat} (h : ofQueue queue streams = .ok p) :
    0 < streams ∧ isEmpty queue = true ∧ p = ⟨queue, streams, streams, 0⟩ := by
  rw [ofQueue] at h
  split at h
  · cases h
  · next hstreams =>
    split at h
    · next hempty => exact ⟨Nat.pos_of_ne_zero hstreams, hempty, (Except.ok.inj h).symm⟩
    · cases h

/-- A pool is not opened without a stream, nor over a queue that says that it holds a task. -/
theorem ofQueue_eq_error {queue : Q} {streams : Nat} {cause : Fault}
    (h : ofQueue queue streams = .error cause) :
    cause = .noStreams ∧ streams = 0 ∨ cause = .foreignTasks ∧ isEmpty queue = false := by
  rw [ofQueue] at h
  split at h
  · next hstreams =>
    cases h
    exact .inl ⟨rfl, hstreams⟩
  · split at h
    · cases h
    · next hempty =>
      cases h
      exact .inr ⟨rfl, Bool.eq_false_iff.2 hempty⟩

/-! ### Letting tasks work -/

variable [Resumable τ ρ]

/-- A loop over the queue of a pool settles. -/
theorem settles_letWork (hmark : Resumable.Keeps mark) (hp : p.Bounded) {work : Q → Progress Q τ ρ}
    {earlier : List (Turn τ ρ)} {last : Advance Q τ ρ}
    (hworks : Works p.queue (work p.queue) earlier last) :
    Settles mark p (p.letWork work) [] := by
  obtain ⟨queue, limit, free, peak⟩ := p
  have hperm := hworks.perm hmark
  refine ⟨rfl, rfl, ?_, rfl, ?_⟩
  · -- No more tasks finish than the queue held.
    obtain ⟨lost, hlost⟩ := hperm
    have hlength := hlost.length_eq
    rw [List.length_append, List.length_append, List.length_map, List.length_map,
      ← Progress.finishes_eq] at hlength
    unfold Bounded at hp
    change free + (work queue).finishes ≤ limit
    dsimp only at hp hlength
    omega
  · rw [List.append_nil]
    exact hperm

theorem settles_awaitStream (hmark : Resumable.Keeps mark) (hp : p.Bounded) :
    Settles mark p (p.awaitStream : Progress (StreamPool Q) τ ρ) [] := by
  have hletWork : Settles mark p (p.letWork drainToFinish : Progress (StreamPool Q) τ ρ) [] := by
    cases (awaits p.queue : Awaits p.queue (drainToFinish p.queue : Progress Q τ ρ)) with
    | finished hworks => exact settles_letWork hmark hp hworks
    | idle hworks => exact settles_letWork hmark hp hworks
    | failed hworks => exact settles_letWork hmark hp hworks
  exact ⟨hletWork.limit_eq, hletWork.free_eq, hletWork.free_le, hletWork.peak_eq, hletWork.perm⟩

theorem settles_run (hmark : Resumable.Keeps mark) (hp : p.Bounded) :
    Settles mark p (p.run : Progress (StreamPool Q) τ ρ) [] := by
  cases (drains p.queue : Drains p.queue (drain p.queue : Progress Q τ ρ)) with
  | idle hworks => exact settles_letWork hmark hp hworks
  | failed hworks => exact settles_letWork hmark hp hworks

/-! ### Admitting a task -/

/-- A pool that waits for a stream if all of them are busy. -/
def makeRoom (p : StreamPool Q) : Progress (StreamPool Q) τ ρ :=
  if p.free = 0 then p.awaitStream else { state := p }

/-- Spawning is making room and then launching. -/
theorem spawn_eq (p : StreamPool Q) (t : τ) : p.spawn t = p.makeRoom.andThen (·.launch t) := by
  unfold spawn makeRoom
  split
  · rfl
  · simp only [Progress.andThen, Array.empty_append]

theorem settles_makeRoom (hmark : Resumable.Keeps mark) (hp : p.Bounded) :
    Settles mark p (p.makeRoom : Progress (StreamPool Q) τ ρ) [] := by
  unfold makeRoom
  split
  · exact settles_awaitStream hmark hp
  · refine ⟨rfl, rfl, hp.free_le, rfl, [], ?_⟩
    simp [Turn.finishers]

/-- Once room was made without a fault, a stream is free. -/
theorem free_pos_of_makeRoom (h : (p.makeRoom : Progress (StreamPool Q) τ ρ).fault = none) :
    0 < (p.makeRoom : Progress (StreamPool Q) τ ρ).state.free := by
  unfold makeRoom at h ⊢
  split at h
  · next hfree =>
    rw [if_pos hfree]
    cases (awaits p.queue : Awaits p.queue (drainToFinish p.queue : Progress Q τ ρ)) with
    | finished hworks hearlier hturn hfault =>
      have hone := hworks.finishes_eq_one hearlier hturn
      change 0 < p.free + (drainToFinish p.queue : Progress Q τ ρ).finishes
      omega
    | idle hworks hearlier hfault =>
      have hnone : (drainToFinish p.queue : Progress Q τ ρ).fault = none := h
      rw [hfault] at hnone
      cases hnone
    | failed hworks hearlier hfault =>
      have hnone : (drainToFinish p.queue : Progress Q τ ρ).fault = none := h
      rw [hfault] at hnone
      cases hnone
  · next hfree =>
    rw [if_neg hfree]
    exact Nat.pos_of_ne_zero hfree

end StreamPool

namespace Progress

variable {σ : Type w} {d d' : Progress σ τ ρ} {next : σ → Progress σ τ ρ}

/-- The task that an operation was to admit, if it met no fault. -/
def admits (d : Progress σ τ ρ) (t : τ) : List τ :=
  match d.fault with
  | none => [t]
  | some _ => []

theorem admits_congr (h : d'.fault = d.fault) (t : τ) : d'.admits t = d.admits t := by
  rw [admits, admits, h]

theorem andThen_of_none (h : d.fault = none) :
    d.andThen next = { next d.state with
      turns := d.turns ++ (next d.state).turns, events := d.events ++ (next d.state).events } := by
  obtain ⟨state, turns, events, fault⟩ := d
  obtain rfl : fault = none := h
  rfl

theorem fault_andThen_of_none (h : d.fault = none) :
    (d.andThen next).fault = (next d.state).fault := by
  rw [andThen_of_none h]

theorem andThen_of_some {fault : Fault} (h : d.fault = some fault) : d.andThen next = d := by
  obtain ⟨state, turns, events, fault'⟩ := d
  obtain rfl : fault' = some fault := h
  rfl

end Progress

namespace StreamPool

variable [ReadyQueue Q τ] {mark : τ → ι} {p : StreamPool Q} {d : Progress (StreamPool Q) τ ρ}
  {admitted : List τ}

theorem launch_of_refused {t : τ} {fault : Fault} {queue : Q}
    (h : schedule p.queue t = (some fault, queue)) :
    (p.launch t : Progress (StreamPool Q) τ ρ) =
      { state := ⟨queue, p.limit, p.free, p.peak⟩, fault := some fault } := by
  obtain ⟨queue₀, limit, free, peak⟩ := p
  rw [launch, h]

theorem launch_of_accepted {t : τ} {queue : Q} (h : schedule p.queue t = (none, queue)) :
    (p.launch t : Progress (StreamPool Q) τ ρ) =
      { state := ⟨queue, p.limit, p.free - 1, max p.peak (p.limit - (p.free - 1))⟩ } := by
  obtain ⟨queue₀, limit, free, peak⟩ := p
  rw [launch, h]

/-- Launching takes a stream if the queue accepts the task, and changes nothing else if not. -/
theorem settles_launch [DropsRefused Q] (t : τ) (hfree : 0 < p.free) (hle : p.free ≤ p.limit) :
    Settles mark p (p.launch t : Progress (StreamPool Q) τ ρ)
      ((p.launch t : Progress (StreamPool Q) τ ρ).admits t) := by
  rcases hschedule : schedule p.queue t with ⟨_ | fault, queue⟩
  -- The queue accepts the task, which takes a stream.
  · rw [launch_of_accepted hschedule]
    obtain ⟨lost, hlost⟩ := tasks_schedule p.queue t
    rw [hschedule] at hlost
    have hmap : ((tasks p.queue ++ [t]).map mark).Perm
        ((tasks queue).map mark ++ lost.map mark) := by
      rw [← List.map_append]
      exact ((List.perm_append_singleton t (tasks p.queue)).trans hlost).map mark
    exact ⟨rfl, Nat.sub_add_cancel hfree, hle, rfl, lost.map mark, hmap⟩
  -- The queue refuses the task, and the pool stays as it is.
  · rw [launch_of_refused hschedule]
    have hrefused : (schedule p.queue t).1 ≠ none := by
      rw [hschedule]
      exact Option.some_ne_none fault
    obtain ⟨lost, hlost⟩ := DropsRefused.perm_refused p.queue t hrefused
    rw [hschedule] at hlost
    refine ⟨rfl, rfl, hle, rfl, lost.map mark, ?_⟩
    have hmap := hlost.map mark
    rw [List.map_append] at hmap
    exact (List.append_nil (tasks p.queue)).symm ▸ hmap

/-- Two operations, the first of which admits nothing and meets no fault, settle as one. -/
theorem Settles.andThen (h : Settles mark p d []) (hfault : d.fault = none)
    {next : StreamPool Q → Progress (StreamPool Q) τ ρ}
    (hnext : Settles mark d.state (next d.state) admitted) :
    Settles mark p (d.andThen next) admitted := by
  have hthen : d.andThen next = { next d.state with
      turns := d.turns ++ (next d.state).turns, events := d.events ++ (next d.state).events } :=
    Progress.andThen_of_none hfault
  have hfinishes : (d.andThen next).finishes = d.finishes + (next d.state).finishes := by
    rw [hthen]
    exact Array.countP_append
  have hfree := h.free_eq
  rw [List.length_nil, Nat.add_zero] at hfree
  constructor
  · rw [hthen]
    exact hnext.limit_eq.trans h.limit_eq
  -- What the first operation gave back is there for the second.
  · rw [hfinishes, ← Nat.add_assoc, ← hfree, hthen]
    exact hnext.free_eq
  · rw [hfinishes, ← Nat.add_assoc, ← hfree, ← h.limit_eq]
    exact hnext.free_le
  · have hpeak : d.state.peak = p.peak := h.peak_eq
    rw [← hpeak, hthen]
    exact hnext.peak_eq
  · obtain ⟨lost, hlost⟩ := h.perm
    obtain ⟨lost', hlost'⟩ := hnext.perm
    rw [List.append_nil] at hlost
    rw [List.map_append] at hlost'
    refine ⟨lost' ++ lost, ?_⟩
    rw [hthen, List.map_append, Array.toList_append, Turn.finishers_append, List.map_append]
    exact perm_of_steps hlost hlost'

/-! ### All operations -/

variable [Resumable τ ρ]

theorem settles_spawn [DropsRefused Q] (hmark : Resumable.Keeps mark) (hp : p.Bounded) (t : τ) :
    Settles mark p (p.spawn t : Progress (StreamPool Q) τ ρ)
      ((p.spawn t : Progress (StreamPool Q) τ ρ).admits t) := by
  have hroom : Settles mark p (p.makeRoom : Progress (StreamPool Q) τ ρ) [] :=
    settles_makeRoom hmark hp
  rw [spawn_eq]
  cases hfault : (p.makeRoom : Progress (StreamPool Q) τ ρ).fault with
  | none =>
    have hle := (hroom.bounded hp).free_le
    rw [Progress.admits_congr (Progress.fault_andThen_of_none hfault)]
    exact hroom.andThen hfault (settles_launch t (free_pos_of_makeRoom hfault) hle)
  | some fault =>
    rwa [Progress.andThen_of_some hfault, Progress.admits, hfault]

end StreamPool

/-- What can be done with a pool. -/
inductive PoolCall (τ : Type u) where
  | spawn (t : τ)
  | run

/-- The tasks that a call admitted. -/
def PoolCall.admitted {σ : Type w} (d : Progress σ τ ρ) : PoolCall τ → List τ
  | .spawn t => d.admits t
  | .run => []

namespace StreamPool

variable [ReadyQueue Q τ] [Resumable τ ρ] {mark : τ → ι} {p : StreamPool Q}

/-- Performs a call. -/
def call (p : StreamPool Q) : PoolCall τ → Progress (StreamPool Q) τ ρ
  | .spawn t => p.spawn t
  | .run => p.run

/-- Every call settles, whether or not it ends in a fault. -/
theorem settles_call [DropsRefused Q] (hmark : Resumable.Keeps mark) (hp : p.Bounded)
    (call : PoolCall τ) :
    Settles mark p (p.call call : Progress (StreamPool Q) τ ρ) (call.admitted (p.call call)) := by
  cases call with
  | spawn t => exact settles_spawn hmark hp t
  | run => exact settles_run hmark hp

end StreamPool

end BulkLookup
