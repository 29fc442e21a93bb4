import BulkLookup.Event
import BulkLookup.Work.ReadyQueue

/-!
# Working off a ready queue

A queue is worked off turn by turn: take the next task, resume it, and put it back at the end of
the queue's line if it suspended. Two loops are built on that step. `drain` goes on until the queue
hands out nothing more; `drainToFinish` stops as soon as one task has finished. Both end because
every turn lowers the work left in the queue.

## Main definitions

* `ReadyQueue.advance` — one turn of the next task
* `Progress` — a state together with the turns taken, the events emitted and the fault met
* `ReadyQueue.drain`, `ReadyQueue.drainToFinish` — the two loops

## Main results

* `ReadyQueue.work_lt_of_advance` — a turn lowers the work left in the queue
-/

namespace BulkLookup

universe u v w

/-- What one attempt to advance a queue comes to. -/
inductive Advance (Q : Type w) (τ : Type u) (ρ : Type v) where
  /-- The queue handed out no task. -/
  | idle (queue : Q)
  /-- A task had its turn, and was put back if it suspended. -/
  | took (queue : Q) (turn : Turn τ ρ)
  /-- The task handed out could not be resumed, or could not be put back after its turn. -/
  | failed (queue : Q) (turn : Option (Turn τ ρ)) (fault : Fault)

/-- How far an operation came: the state it leaves behind, the turns it gave to tasks and the
events it emitted, each in order, and the fault that ended it, if one did. -/
structure Progress (σ : Type w) (τ : Type u) (ρ : Type v) where
  state : σ
  turns : Array (Turn τ ρ) := #[]
  events : Array Event := #[]
  fault : Option Fault := none
deriving Repr

namespace Progress

variable {σ : Type w} {τ : Type u} {ρ : Type v}

/-- How many tasks finished. -/
def finishes (p : Progress σ τ ρ) : Nat := p.turns.countP Turn.isFinish

/-- The results of the tasks that finished, in the order in which they did. -/
def results (p : Progress σ τ ρ) : Array ρ := p.turns.filterMap (·.result)

/-- Goes on from where an operation came to, unless a fault ended it. -/
def andThen (p : Progress σ τ ρ) (next : σ → Progress σ τ ρ) : Progress σ τ ρ :=
  match p with
  | { fault := some _, .. } => p
  | { state, turns, events, fault := none } =>
    let q := next state
    { q with turns := turns ++ q.turns, events := events ++ q.events }

end Progress

namespace ReadyQueue

variable {Q : Type w} {τ : Type u} {ρ : Type v} [ReadyQueue Q τ] [Resumable τ ρ]

/-- Gives the next task its turn. -/
def advance (q : Q) : Advance Q τ ρ :=
  match takeNext q with
  | (none, q') => .idle q'
  | (some t, q') =>
    match Resumable.resume t with
    | .error fault => .failed q' none fault
    | .ok (_, .finished r) => .took q' ⟨t, some r⟩
    | .ok (t', .suspended) =>
      match schedule q' t' with
      | (none, q'') => .took q'' ⟨t, none⟩
      | (some fault, q'') => .failed q'' (some ⟨t, none⟩) fault

/-- A turn lowers the work left in the queue. -/
theorem work_lt_of_advance {q q' : Q} {turn : Turn τ ρ} (h : advance q = .took q' turn) :
    work q' < work q := by
  have htake := work_takeNext_le q
  unfold advance at h
  split at h
  · simp at h
  · next t q₁ hq =>
    -- Taking the task out removes its share of the work; putting it back restores less.
    simp only [hq, Option.toList_some, Resumable.turnsLeft] at htake
    split at h
    · simp at h
    · simp only [Advance.took.injEq] at h
      obtain ⟨rfl, -⟩ := h
      omega
    · next t' hresume =>
      have hlt := Resumable.pausesLeft_lt hresume
      split at h
      · next q₂ hschedule =>
        simp only [Advance.took.injEq] at h
        obtain ⟨rfl, -⟩ := h
        have hle := work_schedule_le q₁ t'
        simp only [hschedule] at hle
        omega
      · simp at h

/-! ### The two loops -/

/-- Gives turns until the queue hands out no task, adding them to `turns`. -/
def drainFrom (q : Q) (turns : Array (Turn τ ρ)) : Progress Q τ ρ :=
  match _h : advance q with
  | .idle q' => { state := q', turns }
  | .failed q' turn fault =>
    { state := q', turns := turns ++ turn.toArray, fault := some fault }
  | .took q' turn => drainFrom q' (turns.push turn)
termination_by work q
decreasing_by exact work_lt_of_advance ‹_›

/-- Gives turns until the queue hands out no task. -/
def drain (q : Q) : Progress Q τ ρ := drainFrom q #[]

/-- Gives turns until a task finishes, adding them to `turns`. -/
def drainToFinishFrom (q : Q) (turns : Array (Turn τ ρ)) : Progress Q τ ρ :=
  match _h : advance q with
  | .idle q' => { state := q', turns, fault := some .nothingQueued }
  | .failed q' turn fault =>
    { state := q', turns := turns ++ turn.toArray, fault := some fault }
  | .took q' turn =>
    if turn.isFinish then { state := q', turns := turns.push turn }
    else drainToFinishFrom q' (turns.push turn)
termination_by work q
decreasing_by exact work_lt_of_advance ‹_›

/-- Gives turns until a task finishes; a queue that hands out no task before is a fault. -/
def drainToFinish (q : Q) : Progress Q τ ρ := drainToFinishFrom q #[]

end ReadyQueue

end BulkLookup
