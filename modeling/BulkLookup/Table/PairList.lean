import BulkLookup.Table.History

/-!
# Tables as lists of pairs

Seen from outside, a table is a list of pairs. New pairs join it at the end, a value is overwritten
where its pair is, and a pair that is removed leaves the others as they are. There are no buckets,
no links and no capacity: operations search the whole list for the first pair whose key matches.

## Main definitions

* `PairList` — pairs, and the hash that takes part in deciding which keys match
* `PairList.perform`, `PairList.responses` — operations and histories on the list
-/

namespace BulkLookup

/-- Pairs in the order in which they were first stored. -/
structure PairList (κ ν : Type) where
  hasher : κ → UInt64
  pairs : List (κ × ν)

namespace PairList

variable {κ ν : Type} [BEq κ]

/-- Whether the pair of a stored key is the one meant by a key: their hashes are equal, and so are
the keys. -/
def isFor (l : PairList κ ν) (key : κ) (pair : κ × ν) : Bool :=
  l.hasher pair.1 == l.hasher key && pair.1 == key

/-- The pair of a key. -/
def find? (l : PairList κ ν) (key : κ) : Option (κ × ν) := l.pairs.find? (l.isFor key)

/-- Puts a pair at the end. -/
def append (l : PairList κ ν) (pair : κ × ν) : PairList κ ν := ⟨l.hasher, l.pairs ++ [pair]⟩

/-- Changes the value of a key where its pair is. -/
def mapValue (l : PairList κ ν) (key : κ) (f : ν → ν) : PairList κ ν :=
  ⟨l.hasher, l.pairs.map fun pair => if l.isFor key pair then (pair.1, f pair.2) else pair⟩

/-- Takes the pair of a key out. -/
def erase (l : PairList κ ν) (key : κ) : PairList κ ν :=
  ⟨l.hasher, l.pairs.eraseP (l.isFor key)⟩

/-- Performs one operation. -/
def perform (l : PairList κ ν) : Operation κ ν → Response κ ν × PairList κ ν
  | .insert key value change =>
    match l.find? key with
    | some (k, v) => (.inserted false (k, v) (some (k, change v)), l.mapValue key change)
    | none => (.inserted true (key, value) (some (key, change value)), l.append (key, change value))
  | .update key value change =>
    match l.find? key with
    | some (k, v) =>
      (.updated (some v) (k, value) (some (k, change value)), l.mapValue key fun _ => change value)
    | none =>
      (.updated none (key, value) (some (key, change value)), l.append (key, change value))
  | .remove key => (.removed (l.find? key), l.erase key)
  | .lookup key => (.found (l.find? key), l)
  | .contains key => (.contained (l.find? key).isSome, l)
  | .modify key change =>
    (.modified ((l.find? key).map fun pair => change pair.2), l.mapValue key change)
  | .count => (.counted l.pairs.length, l)
  | .lookupAll keys => (.answered (keys.map fun key => ⟨key, l.find? key⟩), l)

/-- The list after a history. -/
def run (l : PairList κ ν) (history : List (Operation κ ν)) : PairList κ ν :=
  history.foldl (fun l operation => (l.perform operation).2) l

/-- The responses to the operations of a history. -/
def responses (l : PairList κ ν) : List (Operation κ ν) → List (Response κ ν)
  | [] => []
  | operation :: history =>
    let (response, l) := l.perform operation
    response :: l.responses history

end PairList

end BulkLookup
