/-!
# Events

Operations tell an observer what they did to the shape of a table or to the traffic of a pool
by emitting events. An event is plain data; `Event.level`, `Event.text` and `Event.fields` give
the three parts of the record that is written for it.

## Main definitions

* `Event` — what can be observed
* `Event.level`, `Event.text`, `Event.fields` — the written record of an event
-/

namespace BulkLookup

/-- What an observer of tables and pools gets to see. -/
inductive Event where
  /-- A table with `items` entries went from `before` to `after` buckets. -/
  | resized (before after items : Nat)
  /-- A table of `capacity` buckets, the most it may have, went beyond half load at `items`
  entries. -/
  | ceilingReached (capacity items : Nat)
  /-- An interleaved lookup of `keys` queries over `streams` streams began. -/
  | lookupStarted (keys streams : Nat)
  /-- A task was admitted while all `limit` streams were busy. -/
  | streamsBusy (limit : Nat)
  /-- An interleaved lookup of `keys` queries ended, with `peak` tasks in flight at most. -/
  | lookupFinished (keys peak : Nat)
deriving DecidableEq, Repr

/-- How much attention an event asks for. -/
inductive Level where
  | debug
  | trace
deriving DecidableEq, Repr

/-- The name of a level in a record. -/
def Level.name : Level → String
  | .debug => "DEBUG"
  | .trace => "TRACE"

namespace Event

/-- The level of an event: what may come in great numbers is a trace. -/
def level : Event → Level
  | .resized .. => .debug
  | .ceilingReached .. => .trace
  | .lookupStarted .. => .debug
  | .streamsBusy .. => .trace
  | .lookupFinished .. => .debug

/-- The message of an event. -/
def text : Event → String
  | .resized .. => "resized bucket array"
  | .ceilingReached .. => "capacity ceiling reached, load factor degraded"
  | .lookupStarted .. => "interleaved multilookup started"
  | .streamsBusy .. => "all streams busy"
  | .lookupFinished .. => "interleaved multilookup finished"

/-- The named numbers of an event. -/
def fields : Event → List (String × Nat)
  | .resized before after items =>
    [("old_capacity", before), ("new_capacity", after), ("items", items)]
  | .ceilingReached capacity items => [("capacity", capacity), ("items", items)]
  | .lookupStarted keys streams => [("keys", keys), ("n_streams", streams)]
  | .streamsBusy limit => [("limit", limit)]
  | .lookupFinished keys peak => [("keys", keys), ("peak_in_flight", peak)]

end Event

end BulkLookup
