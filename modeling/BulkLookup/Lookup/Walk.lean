import BulkLookup.Table.Operations
import BulkLookup.Work.Task

/-!
# Chain walks as tasks

A chain walk answers one query as a task. Its first step hashes the key and goes to the head of the
chain; each later step reads the entry it stands on and either ends with an answer or goes on to
the next entry. Going to an entry is the moment at which the entry may still be on its way from
memory, so the walk suspends there, once for each entry.

A walk belongs to a position among the queries and hands it back with its answer. It stands on no
more entries than its table holds, which bounds how often it may suspend.

## Main definitions

* `Finding` — the answer to a query
* `WalkState`, `ChainWalk` — how far a walk came, and the walk
* `ChainWalk.step` — one step of a walk

## Main results

* `ChainWalk.pausesLeft_step_lt` — each suspension uses up one of the entries left to a walk
-/

namespace BulkLookup

/-- The answer to a query: the key asked for, and the stored pair if there is one. -/
structure Finding (κ ν : Type) where
  query : κ
  entry : Option (κ × ν)
deriving BEq, Repr

namespace Finding

variable {κ ν : Type}

/-- Whether something was found. -/
def isFound (f : Finding κ ν) : Bool := f.entry.isSome

/-- The value found. -/
def value (f : Finding κ ν) : Option ν := f.entry.map Prod.snd

end Finding

variable [Storage]

/-- How far a walk came. -/
inductive WalkState where
  /-- It did not set out yet. -/
  | unstarted
  /-- It stands on the entry behind `node` and may go to `left` more; `hash` is that of its key. -/
  | standing (hash : UInt64) (node : Handle) (left : Nat)
  /-- It answered. -/
  | answered
deriving DecidableEq

/-- A walk through a table in search of a key. -/
structure ChainWalk (κ ν : Type) where
  table : Table κ ν
  /-- The position of the key among the queries. -/
  position : Nat
  key : κ
  state : WalkState

namespace ChainWalk

variable {κ ν : Type}

/-- A walk that did not set out yet. -/
def ofQuery (table : Table κ ν) (position : Nat) (key : κ) : ChainWalk κ ν :=
  ⟨table, position, key, .unstarted⟩

/-- Goes to the next entry of the chain, if there is one, and else ends without a find. -/
def follow (w : ChainWalk κ ν) (hash : UInt64) (left : Nat) :
    Option Handle → Except Fault (ChainWalk κ ν × Step (Nat × Finding κ ν))
  | none => .ok ({ w with state := .answered }, .finished (w.position, ⟨w.key, none⟩))
  | some node =>
    match left with
    | 0 => .error .brokenChain
    | left + 1 => .ok ({ w with state := .standing hash node left }, .suspended)

variable [BEq κ]

/-- One step of a walk. -/
def step (w : ChainWalk κ ν) : Except Fault (ChainWalk κ ν × Step (Nat × Finding κ ν)) :=
  match w.state with
  | .unstarted =>
    let hash := w.table.hasher w.key
    w.follow hash w.table.count (w.table.headOf hash)
  | .standing hash node left =>
    match w.table.arena.get? node with
    | none => .error .brokenChain
    | some e =>
      if e.isFor hash w.key then
        .ok ({ w with state := .answered },
          .finished (w.position, ⟨w.key, some (e.key, e.value)⟩))
      else w.follow hash left e.next
  | .answered => .error .alreadyFinished

/-- A bound on how often a walk may still suspend. -/
def pausesLeft (w : ChainWalk κ ν) : Nat :=
  match w.state with
  | .unstarted => w.table.count
  | .standing _ _ left => left
  | .answered => 0

omit [BEq κ] in
theorem pausesLeft_follow {w w' : ChainWalk κ ν} {hash : UInt64} {left : Nat}
    {next : Option Handle} (h : w.follow hash left next = .ok (w', .suspended)) :
    w'.pausesLeft < left := by
  unfold follow at h
  split at h
  · simp at h
  · split at h
    · simp at h
    · simp only [Except.ok.injEq, Prod.mk.injEq, and_true] at h
      simp [← h, pausesLeft]

/-- Each suspension uses up one of the entries left to a walk. -/
theorem pausesLeft_step_lt {w w' : ChainWalk κ ν} (h : w.step = .ok (w', .suspended)) :
    w'.pausesLeft < w.pausesLeft := by
  unfold step at h
  split at h
  · next hstate =>
    have := pausesLeft_follow h
    simp only [pausesLeft, hstate] at this ⊢
    omega
  · next hstate =>
    split at h
    · simp at h
    · split at h
      · simp at h
      · have := pausesLeft_follow h
        simp only [pausesLeft, hstate] at this ⊢
        omega
  · simp at h

end ChainWalk

instance {κ ν : Type} [BEq κ] : Resumable (ChainWalk κ ν) (Nat × Finding κ ν) where
  resume := ChainWalk.step
  pausesLeft := ChainWalk.pausesLeft
  pausesLeft_lt := ChainWalk.pausesLeft_step_lt

end BulkLookup
