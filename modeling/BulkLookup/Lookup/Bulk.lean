import BulkLookup.Lookup.Walk
import BulkLookup.Work.StreamPool

/-!
# Bulk lookups

A bulk lookup answers a list of queries and gives the answers in the order of the queries. It can
be done one query after the other, or with many chain walks interleaved on a ready queue: while one
walk waits for its next entry, others take their turns. Walks finish in an order of their own, so
each puts its answer into the place of its query; when all is done, every place has to be filled.

## Main definitions

* `Table.tryLookupAll`, `Table.lookupAll` — one query after the other
* `Table.lookupInterleaved` — all queries interleaved over a number of streams
* `BulkRun` — what an interleaved lookup comes to
* `Finding.collect` — the answers in the order of the queries
-/

namespace BulkLookup

universe w

variable [Storage]

/-- What an interleaved lookup comes to: its answers or the fault that ended it, the queue it ran
on as it is afterwards, and the turns taken and the events emitted on the way. -/
structure BulkRun (Q : Type w) (κ ν : Type) where
  outcome : Except Fault (List (Finding κ ν))
  queue : Q
  turns : Array (Turn (ChainWalk κ ν) (Nat × Finding κ ν))
  events : Array Event

variable {κ ν : Type}

/-- Puts answers into their places, of which there are `count`. -/
def Finding.arrange (count : Nat) (answers : Array (Nat × Finding κ ν)) :
    Array (Option (Finding κ ν)) :=
  answers.foldl (fun places (position, finding) => places.setIfInBounds position (some finding))
    (Array.replicate count none)

/-- The answers in the order of their places, all of which have to be filled. -/
def Finding.collect (count : Nat) (answers : Array (Nat × Finding κ ν)) :
    Except Fault (List (Finding κ ν)) :=
  (Finding.arrange count answers).toList.mapM fun
    | some finding => .ok finding
    | none => .error .missingAnswer

namespace Table

variable [BEq κ]

/-- Answers queries one after the other. -/
def tryLookupAll (t : Table κ ν) (keys : List κ) : Except Fault (List (Finding κ ν)) :=
  keys.mapM fun key => (t.tryLookup key).map fun entry => ⟨key, entry⟩

/-- Answers one query in a table in order. -/
def answer (t : Table κ ν) (key : κ) : Finding κ ν := ⟨key, t.lookup key⟩

/-- The plain form of `tryLookupAll`. -/
def lookupAll (t : Table κ ν) (keys : List κ) : List (Finding κ ν) := keys.map t.answer

/-- One walk for each query, in order. -/
def walks (t : Table κ ν) (keys : List κ) : List (ChainWalk κ ν) :=
  keys.mapIdx (ChainWalk.ofQuery t)

variable {Q : Type w} [ReadyQueue Q (ChainWalk κ ν)]

/-- Answers queries with up to `streams` walks interleaved on a queue, which has to be empty. A
fault ends the lookup where it occurs, and leaves in the queue what is in it then. -/
def lookupInterleaved (t : Table κ ν) (keys : List κ) (queue : Q) (streams : Nat) :
    BulkRun Q κ ν :=
  let started : Array Event := #[.lookupStarted keys.length streams]
  match StreamPool.ofQueue queue streams with
  | .error fault => ⟨.error fault, queue, #[], started⟩
  | .ok pool =>
    let ran : Progress _ _ _ := (pool.spawnAll (t.walks keys)).andThen (·.run)
    let events := started ++ ran.events
    match ran.fault with
    | some fault => ⟨.error fault, ran.state.queue, ran.turns, events⟩
    | none =>
      -- A queue may hand out late what it held back; closing the pool gives it a last chance.
      let peak := ran.state.peak
      let closed : Progress _ _ _ := ran.state.close
      let turns := ran.turns ++ closed.turns
      match closed.fault with
      | some fault => ⟨.error fault, closed.state, turns, events⟩
      | none =>
        ⟨Finding.collect keys.length (turns.filterMap (·.result)), closed.state, turns,
          events.push (.lookupFinished keys.length peak)⟩

end Table

end BulkLookup
