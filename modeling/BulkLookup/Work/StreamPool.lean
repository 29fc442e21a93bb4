import BulkLookup.Work.Drain

/-!
# Stream pools

A stream pool owns a ready queue and lets at most `limit` tasks be in flight on it at a time. A
task that is spawned while all streams are busy waits: the tasks in flight are given turns until
one of them finishes and leaves its stream. When the pool is closed, the tasks still queued are
worked off, and the queue is handed back.

The pool is the only one to give turns to the tasks of its queue, which is why it can count streams:
it takes one when a task is admitted and gives one back when it sees a task finish.

## Main definitions

* `StreamPool` — a queue with its streams
* `StreamPool.ofQueue` — a pool over an empty queue
* `StreamPool.spawn` — admits a task, waiting for a stream if need be
* `StreamPool.spawnAll` — admits several tasks, one after the other
* `StreamPool.run`, `StreamPool.close` — work off what is queued, and keep or hand back the queue
-/

namespace BulkLookup

universe u v w

/-- A ready queue that at most `limit` tasks share at a time. -/
structure StreamPool (Q : Type w) where
  queue : Q
  /-- How many streams there are. -/
  limit : Nat
  /-- How many streams no task uses. -/
  free : Nat
  /-- The most tasks in flight right after a task was admitted. -/
  peak : Nat

namespace StreamPool

variable {Q : Type w} {τ : Type u} {ρ : Type v} [ReadyQueue Q τ] [Resumable τ ρ]

/-- How many tasks were admitted and did not finish yet. -/
def inFlight (p : StreamPool Q) : Nat := p.limit - p.free

/-- A pool of the given number of streams over a queue, which has to be empty. -/
def ofQueue (queue : Q) (streams : Nat) : Except Fault (StreamPool Q) :=
  if streams = 0 then .error .noStreams
  else if ReadyQueue.isEmpty queue then .ok ⟨queue, streams, streams, 0⟩
  else .error .foreignTasks

/-- Schedules a task on a free stream. The stream is taken only if the queue accepts the task. -/
def launch : StreamPool Q → τ → Progress (StreamPool Q) τ ρ
  | ⟨queue, limit, free, peak⟩, t =>
    -- A refused task takes no stream.
    match ReadyQueue.schedule queue t with
    | (some fault, queue) => { state := ⟨queue, limit, free, peak⟩, fault := some fault }
    | (none, queue) =>
      { state := ⟨queue, limit, free - 1, max peak (limit - (free - 1))⟩ }

/-- Lets the tasks in flight take turns as `work` says, and gives the streams of those that finish
back. -/
def letWork (p : StreamPool Q) (work : Q → Progress Q τ ρ) : Progress (StreamPool Q) τ ρ :=
  match p with
  | ⟨queue, limit, free, peak⟩ =>
    let done := work queue
    { done with state := ⟨done.state, limit, free + done.finishes, peak⟩ }

/-- Waits until a task in flight finishes. -/
def awaitStream (p : StreamPool Q) : Progress (StreamPool Q) τ ρ :=
  let limit := p.limit
  { p.letWork ReadyQueue.drainToFinish with events := #[.streamsBusy limit] }

/-- Admits a task, first waiting for a stream if all of them are busy. -/
def spawn (p : StreamPool Q) (t : τ) : Progress (StreamPool Q) τ ρ :=
  if p.free = 0 then p.awaitStream.andThen (·.launch t) else p.launch t

/-- Admits tasks one after the other, up to the first fault. -/
def spawnAll (p : StreamPool Q) (ts : List τ) : Progress (StreamPool Q) τ ρ :=
  ts.foldl (fun progress t => progress.andThen (·.spawn t)) { state := p }

/-- Gives turns until the queue hands out no task. -/
def run (p : StreamPool Q) : Progress (StreamPool Q) τ ρ := p.letWork ReadyQueue.drain

/-- Runs a pool for the last time and hands the queue back. -/
def close (p : StreamPool Q) : Progress Q τ ρ :=
  let ran : Progress (StreamPool Q) τ ρ := p.run
  { ran with state := ran.state.queue }

/-- What is left in the queue is drained, and the streams do not matter any more. -/
theorem close_eq_drain (p : StreamPool Q) :
    (p.close : Progress Q τ ρ) = ReadyQueue.drain p.queue :=
  rfl

end StreamPool

end BulkLookup
