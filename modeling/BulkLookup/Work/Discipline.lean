import BulkLookup.Work.Ring
import BulkLookup.Work.Stack
import BulkLookup.Work.Lossy

/-!
# Queues of a chosen discipline

Which queue is used may be known only at run time. A `Discipline` names one, and
`Discipline.emptyQueue` makes an empty queue that follows it.

## Main definitions

* `Discipline` — the disciplines on offer
* `AnyQueue` — a queue of one of them
* `Discipline.emptyQueue` — an empty queue of a discipline
-/

namespace BulkLookup

universe u

/-- How a ready queue chooses and keeps its tasks. -/
inductive Discipline where
  /-- In order, with room for `capacity` tasks. -/
  | ring (capacity : Nat)
  /-- In order. -/
  | fifo
  /-- The latest first. -/
  | stack
  /-- In order, dropping each `every`-th task. -/
  | lossy (every : Nat)
deriving DecidableEq, Repr

/-- A ready queue of one of the disciplines. -/
inductive AnyQueue (τ : Type u) where
  | ring (queue : Ring τ)
  | fifo (queue : Fifo τ)
  | stack (queue : Stack τ)
  | lossy (queue : Lossy τ)

/-- An empty queue of a discipline. -/
def Discipline.emptyQueue {τ : Type u} : Discipline → Except Fault (AnyQueue τ)
  | .ring capacity => (Ring.ofCapacity capacity).map .ring
  | .fifo => .ok (.fifo .empty)
  | .stack => .ok (.stack .empty)
  | .lossy every => .ok (.lossy (.ofPeriod every))

instance {τ : Type u} : ReadyQueue (AnyQueue τ) τ where
  schedule
    | .ring q, t => (ReadyQueue.schedule q t).map id .ring
    | .fifo q, t => (ReadyQueue.schedule q t).map id .fifo
    | .stack q, t => (ReadyQueue.schedule q t).map id .stack
    | .lossy q, t => (ReadyQueue.schedule q t).map id .lossy
  takeNext
    | .ring q => (ReadyQueue.takeNext q).map id .ring
    | .fifo q => (ReadyQueue.takeNext q).map id .fifo
    | .stack q => (ReadyQueue.takeNext q).map id .stack
    | .lossy q => (ReadyQueue.takeNext q).map id .lossy
  length
    | .ring q => ReadyQueue.length q
    | .fifo q => ReadyQueue.length q
    | .stack q => ReadyQueue.length q
    | .lossy q => ReadyQueue.length q
  tasks
    | .ring q => ReadyQueue.tasks q
    | .fifo q => ReadyQueue.tasks q
    | .stack q => ReadyQueue.tasks q
    | .lossy q => ReadyQueue.tasks q
  tasks_schedule
    | .ring q, t => ReadyQueue.tasks_schedule q t
    | .fifo q, t => ReadyQueue.tasks_schedule q t
    | .stack q, t => ReadyQueue.tasks_schedule q t
    | .lossy q, t => ReadyQueue.tasks_schedule q t
  tasks_takeNext
    | .ring q => ReadyQueue.tasks_takeNext q
    | .fifo q => ReadyQueue.tasks_takeNext q
    | .stack q => ReadyQueue.tasks_takeNext q
    | .lossy q => ReadyQueue.tasks_takeNext q

end BulkLookup
