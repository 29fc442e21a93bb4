import BulkLookup.Proofs.Table.Capacity
import BulkLookup.Table.Occupancy

/-!
# What a table reports

A table reports two things about itself: that its buckets have doubled, and that its ceiling keeps
it more than half full. Nobody remembers what was reported before. Whether the second report is due
is guessed from the number of entries, less one; the guess is right because a table only looks at
its load when it has just got one entry more, and because one doubling always makes room for that.

What a call reports can therefore be read off the sizes of the table before and after it, and all
reports of a history off the sizes in between. The number of doublings reported tells how many
buckets there are, and the ceiling is reported as often as the load rises beyond one half there.

## Main definitions

* `TableCall`, `Table.call`, `Table.after`, `Table.log` — all calls on a table, and their events
* `Table.crosses`, `Table.crossings` — the load rises beyond one half and stays there
* `Table.dueEvents`, `Table.Reports` — what is to be reported, by the sizes before and after a call
* `Table.Settled` — a table that is at most half full, unless it has reached its ceiling

## Main results

* `Table.WellFormed.grow_of_room`, `Table.grow_of_ceiling`, `Table.Settled.grow_cases` — what
  growing does and reports
* `Table.Settled.reports_of_sizeStep` — what an operation reports is what is due
* `Table.events_of_calls` — what is reported in any history
-/

namespace BulkLookup

variable {κ ν : Type}

/-! ### Calls -/

/-- What can be asked of a table: an operation, or how its entries are spread. -/
inductive TableCall (κ ν : Type) where
  | perform (operation : Operation κ ν)
  | occupancy

/-- What a table answers to a call. -/
inductive TableAnswer (κ ν : Type) where
  | performed (response : Except Fault (Response κ ν))
  | spread (occupancy : Occupancy)

/-- A call answered: the answer, the table afterwards and the events on the way. -/
structure Answered [Storage] (κ ν : Type) where
  answer : TableAnswer κ ν
  table : Table κ ν
  events : Array Event

/-- Whether a response tells that a pair was stored under a key that was not there. -/
def Response.storedNew : Response κ ν → Bool
  | .inserted isNew _ _ => isNew
  | .updated previous _ _ => previous.isNone
  | _ => false

/-- Whether an answer tells that a pair was stored under a key that was not there. -/
def TableAnswer.storedNew : TableAnswer κ ν → Bool
  | .performed (.ok response) => response.storedNew
  | .performed (.error _) => false
  | .spread _ => false

/-- Whether an event tells that the buckets of a table have doubled. -/
def Event.isResized : Event → Bool
  | .resized .. => true
  | _ => false

/-- Whether an event tells that the ceiling of a table keeps it more than half full. -/
def Event.isCeilingReached : Event → Bool
  | .ceilingReached .. => true
  | _ => false

/-- The operations among some calls. -/
def TableCall.operations (calls : List (TableCall κ ν)) : List (Operation κ ν) :=
  calls.filterMap fun
    | .perform operation => some operation
    | .occupancy => none

/-- An operation that stores no new pair leaves no more pairs than there were. -/
theorem PairList.length_perform_le [BEq κ] (l : PairList κ ν) {operation : Operation κ ν}
    (hold : (l.perform operation).1.storedNew = false) :
    (l.perform operation).2.pairs.length ≤ l.pairs.length := by
  cases operation with
  | insert key value change =>
    simp only [perform] at hold ⊢
    split at hold
    · exact Nat.le_of_eq (List.length_map _)
    · exact absurd hold Bool.noConfusion
  | update key value change =>
    simp only [perform] at hold ⊢
    split at hold
    · exact Nat.le_of_eq (List.length_map _)
    · exact absurd hold Bool.noConfusion
  | remove key => exact List.length_eraseP_le
  | modify key change => exact Nat.le_of_eq (List.length_map _)
  | lookup key => exact Nat.le_refl _
  | contains key => exact Nat.le_refl _
  | count => exact Nat.le_refl _
  | lookupAll keys => exact Nat.le_refl _

namespace Table

section AnyStorage

variable [Storage]

section Calls

variable [BEq κ]

/-- Answers a call. -/
def call (t : Table κ ν) : TableCall κ ν → Answered κ ν
  | .perform operation =>
    let p := t.perform operation
    ⟨.performed p.response, p.table, p.events⟩
  | .occupancy => ⟨.spread t.occupancy, t, #[]⟩

/-- The table after some calls. -/
def after (t : Table κ ν) (calls : List (TableCall κ ν)) : Table κ ν :=
  calls.foldl (fun t call => (t.call call).table) t

/-- The events of some calls, in order. -/
def log (t : Table κ ν) : List (TableCall κ ν) → List Event
  | [] => []
  | call :: calls => (t.call call).events.toList ++ (t.call call).table.log calls

/-- Calls leave the table that the operations among them leave. -/
theorem after_eq_run (t : Table κ ν) (calls : List (TableCall κ ν)) :
    t.after calls = t.run (TableCall.operations calls) := by
  induction calls generalizing t with
  | nil => rfl
  | cons call calls ih =>
    cases call with
    | perform operation => exact ih (t.perform operation).table
    | occupancy => exact ih t

end Calls

/-! ### What is due -/

/-- Whether the load rises beyond one half, and stays there, when a table goes from one size to
another. -/
def crosses (before after : Table κ ν) : Bool :=
  2 * before.count ≤ before.capacity && after.capacity < 2 * after.count

theorem crosses_iff {before after : Table κ ν} :
    crosses before after ↔
      2 * before.count ≤ before.capacity ∧ after.capacity < 2 * after.count := by
  simp [crosses]

/-- What is to be reported when a table goes from one size to another: that its buckets have
doubled; or else that its ceiling keeps it more than half full, if it was not before. -/
def dueEvents (before after : Table κ ν) : List Event :=
  if after.capacity ≠ before.capacity then
    [.resized before.capacity after.capacity after.count]
  else if crosses before after then [.ceilingReached after.capacity after.count]
  else []

variable {t before after : Table κ ν} {events : Array Event}

/-- The events on the way from one size to another are those that are due; and if the number of
buckets has changed at all, it has doubled once, and that was enough. -/
structure Reports (before after : Table κ ν) (events : Array Event) : Prop where
  events_eq : events.toList = dueEvents before after
  capacity_eq : after.capacity ≠ before.capacity → after.capacity = 2 * before.capacity
  count_le : after.capacity ≠ before.capacity → 2 * after.count ≤ after.capacity

namespace Reports

/-- Nothing is to be reported of a table that keeps its buckets and gets no more entries. -/
theorem of_kept (hcount : after.count ≤ before.count) (hcapacity : after.capacity = before.capacity)
    (hevents : events = #[]) : Reports before after events where
  events_eq := by
    rw [hevents, dueEvents, if_neg (not_not_intro hcapacity), if_neg]
    rw [crosses_iff]
    omega
  capacity_eq h := absurd hcapacity h
  count_le h := absurd hcapacity h

/-- A table that has doubled is at most half full. -/
theorem not_crosses (h : Reports before after events)
    (hcapacity : after.capacity ≠ before.capacity) : ¬ crosses before after :=
  fun hcrosses => Nat.not_lt.2 (h.count_le hcapacity) (crosses_iff.1 hcrosses).2

theorem mem_resized_iff (h : Reports before after events) :
    (∃ b a items, Event.resized b a items ∈ events) ↔ after.capacity ≠ before.capacity := by
  simp only [← Array.mem_toList_iff, h.events_eq, dueEvents]
  split_ifs <;> simp_all

theorem mem_ceilingReached_iff (h : Reports before after events) :
    (∃ capacity items, Event.ceilingReached capacity items ∈ events) ↔ crosses before after := by
  simp only [← Array.mem_toList_iff, h.events_eq, dueEvents]
  split_ifs with hcapacity hcrosses
  · simp [h.not_crosses hcapacity]
  · simpa using hcrosses
  · simpa using hcrosses

/-- Each doubling that is reported doubles the number of buckets. -/
theorem capacity_eq_mul (h : Reports before after events) :
    after.capacity = before.capacity * 2 ^ events.toList.countP Event.isResized := by
  rw [h.events_eq, dueEvents]
  split_ifs with hcapacity hcrosses
  · rw [h.capacity_eq hcapacity, Nat.mul_comm]
    rfl
  · rw [not_not.1 hcapacity]
    exact (Nat.mul_one _).symm
  · rw [not_not.1 hcapacity]
    exact (Nat.mul_one _).symm

/-- The ceiling is reported once if the load rises beyond one half. -/
theorem countP_isCeilingReached (h : Reports before after events) :
    events.toList.countP Event.isCeilingReached = if crosses before after then 1 else 0 := by
  rw [h.events_eq, dueEvents]
  split_ifs with hcapacity hcrosses hcrosses
  · exact absurd hcrosses (h.not_crosses hcapacity)
  · rfl
  · rfl
  · rfl

end Reports

/-! ### Growing -/

/-- A table that is at most half full stays as it is. -/
theorem grow_of_count_le (h : 2 * t.count ≤ t.capacity) : t.grow = .ok (t, #[]) := by
  have hload : ¬ t.isOverloaded = true := by simpa [isOverloaded] using h
  rw [grow_of_not_isDue fun hdue => hload hdue.1, if_neg fun hreport => hload hreport.1]

/-- A table that its ceiling keeps more than half full reports this if it was not before its latest
entry. -/
theorem grow_of_ceiling (hload : t.capacity < 2 * t.count)
    (hroom : ¬ 2 * t.capacity ≤ t.ceiling) :
    t.grow = .ok (t, if 2 * (t.count - 1) ≤ t.capacity then #[.ceilingReached t.capacity t.count]
      else #[]) := by
  have hload' : t.isOverloaded = true := by simpa [isOverloaded] using hload
  rw [grow_of_not_isDue fun hdue => hroom hdue.2.2]
  simp only [hload', true_and]

variable [BEq κ]

/-- A table that may double, and has as many buckets as entries at least, doubles once. -/
theorem WellFormed.grow_of_room (ht : t.WellFormed) (hload : t.capacity < 2 * t.count)
    (hroom : 2 * t.capacity ≤ t.ceiling) (hfits : t.count ≤ t.capacity) :
    ∃ moved, t.resize (2 * t.capacity) = .ok moved ∧
      t.grow = .ok (moved, #[.resized t.capacity (2 * t.capacity) t.count]) := by
  obtain ⟨moved, hmoved⟩ := ht.exists_double
  have hcount := ht.count_resize (Nat.mul_pos Nat.two_pos ht.capacity_pos) hmoved
  have hgrown : moved.grow = .ok (moved, #[]) := by
    apply grow_of_count_le
    rw [hcount, capacity_resize hmoved]
    exact Nat.mul_le_mul_left 2 hfits
  have hdue : t.IsDue := ⟨by simpa [isOverloaded] using hload, ht.capacity_pos, hroom⟩
  refine ⟨moved, hmoved, ?_⟩
  rw [grow_of_isDue hdue hmoved, hgrown]
  rfl

/-- A well-formed table that is at most half full, unless it has reached its ceiling. -/
structure Settled (t : Table κ ν) : Prop where
  wellFormed : t.WellFormed
  ceiling_isPowerOfTwo : t.ceiling.isPowerOfTwo
  capacity_le : t.capacity ≤ t.ceiling
  count_le : 2 * t.count ≤ t.capacity ∨ t.capacity = t.ceiling

namespace Settled

variable {added grown : Table κ ν}

/-- How a table grows that has got one entry more: not while at most half of its buckets are filled;
else not if its ceiling keeps it, and it may report that; and else by one doubling, which is
enough. -/
theorem grow_cases (h : t.Settled) (hadded : added.WellFormed)
    (hcount : added.count = t.count + 1) (hcapacity : added.capacity = t.capacity)
    (hceiling : added.ceiling = t.ceiling) :
    (2 * added.count ≤ added.capacity ∧ added.grow = .ok (added, #[])) ∨
    (added.capacity < 2 * added.count ∧ added.grow = .ok (added,
      if 2 * (added.count - 1) ≤ added.capacity then #[.ceilingReached added.capacity added.count]
      else #[])) ∨
    (added.count ≤ added.capacity ∧ ∃ moved, added.resize (2 * added.capacity) = .ok moved ∧
      added.grow = .ok (moved, #[.resized added.capacity (2 * added.capacity) added.count])) := by
  have hpos := hadded.capacity_pos
  rcases Nat.lt_or_ge added.capacity (2 * added.count) with hload | hfits
  · by_cases hroom : 2 * added.capacity ≤ added.ceiling
    -- Below its ceiling it was at most half full, so that it has no more entries than buckets now.
    · have hhalf : 2 * t.count ≤ t.capacity := h.count_le.resolve_right (by omega)
      have hle : added.count ≤ added.capacity := by omega
      exact .inr (.inr ⟨hle, hadded.grow_of_room hload hroom hle⟩)
    · exact .inr (.inl ⟨hload, grow_of_ceiling hload hroom⟩)
  · exact .inl ⟨hfits, grow_of_count_le hfits⟩

/-- A table that has got one entry more reports what is due as it grows. -/
theorem reports_grow (h : t.Settled) (hadded : added.WellFormed)
    (hcount : added.count = t.count + 1) (hcapacity : added.capacity = t.capacity)
    (hceiling : added.ceiling = t.ceiling) (hgrown : added.grow = .ok (grown, events)) :
    Reports t grown events := by
  rcases h.grow_cases hadded hcount hcapacity hceiling with
    ⟨hfits, hgrow⟩ | ⟨hload, hgrow⟩ | ⟨hfits, moved, hmoved, hgrow⟩
  · cases hgrown.symm.trans hgrow
    refine ⟨?_, fun hne => absurd hcapacity hne, fun hne => absurd hcapacity hne⟩
    rw [dueEvents, if_neg (not_not_intro hcapacity),
      if_neg fun hcrosses => Nat.not_lt.2 hfits (crosses_iff.1 hcrosses).2]
  · cases hgrown.symm.trans hgrow
    refine ⟨?_, fun hne => absurd hcapacity hne, fun hne => absurd hcapacity hne⟩
    rw [dueEvents, if_neg (not_not_intro hcapacity), hcount, Nat.add_sub_cancel, hcapacity]
    by_cases hhalf : 2 * t.count ≤ t.capacity
    · rw [if_pos hhalf, if_pos (crosses_iff.2 ⟨hhalf, by omega⟩)]
    · rw [if_neg hhalf, if_neg fun hcrosses => hhalf (crosses_iff.1 hcrosses).1]
  · have hpos := hadded.capacity_pos
    have hcount' := hadded.count_resize (Nat.mul_pos Nat.two_pos hpos) hmoved
    have hcapacity' : moved.capacity = 2 * added.capacity := capacity_resize hmoved
    cases hgrown.symm.trans hgrow
    refine ⟨?_, fun _ => ?_, fun _ => ?_⟩
    · rw [dueEvents, hcapacity', if_pos (by omega), hcount', hcapacity]
    · rw [hcapacity', hcapacity]
    · rw [hcapacity', hcount']
      omega

/-- What an operation reports is what is due. -/
theorem reports_of_sizeStep (h : t.Settled) {t' : Table κ ν} (hstep : SizeStep t t' events) :
    Reports t t' events := by
  cases hstep with
  | kept hcount hcapacity hceiling hevents => exact .of_kept hcount hcapacity hevents
  | grew added grown hadded hcount hcapacity hceiling hgrown hcount' hcapacity' hceiling' =>
    obtain ⟨hdue, hdouble, hfits⟩ := h.reports_grow hadded hcount hcapacity hceiling hgrown
    refine ⟨hdue.trans ?_, ?_, ?_⟩
    · rw [dueEvents, dueEvents, crosses, crosses, hcount', hcapacity']
    · rwa [hcapacity']
    · rwa [hcapacity', hcount']

end Settled

/-- An operation that stores no new pair reports nothing. -/
theorem Represents.events_of_not_storedNew [PartialEquivBEq κ] {l : PairList κ ν}
    {rows : List (Row κ ν)} (h : t.Represents l rows) {operation : Operation κ ν}
    (hold : (TableAnswer.performed (t.perform operation).response).storedNew = false) :
    (t.perform operation).events = #[] := by
  cases h.lists.wellFormed.sizeStep_perform operation with
  | kept hcount hcapacity hceiling hevents => exact hevents
  | grew added grown hadded hcount hcapacity hceiling hgrown hcount' hcapacity' hceiling' =>
    obtain ⟨hresponse, rows', h'⟩ := h.perform operation
    -- There would be one entry more than pairs.
    rw [hadded.count_grow hgrown, hcount] at hcount'
    rw [hresponse] at hold
    have hlength := l.length_perform_le hold
    rw [h.pairs_eq, h'.pairs_eq, List.length_map, List.length_map, h.lists.length_eq,
      h'.lists.length_eq, hcount'] at hlength
    omega

/-! ### Histories -/

/-- How often the load rises beyond one half, and stays there, in the course of some calls. -/
def crossings (t : Table κ ν) : List (TableCall κ ν) → Nat
  | [] => 0
  | call :: calls =>
    (if crosses t (t.call call).table then 1 else 0) + (t.call call).table.crossings calls

theorem after_concat (t : Table κ ν) (calls : List (TableCall κ ν)) (call : TableCall κ ν) :
    t.after (calls ++ [call]) = ((t.after calls).call call).table := by
  simp [after]

theorem log_concat (t : Table κ ν) (calls : List (TableCall κ ν)) (call : TableCall κ ν) :
    t.log (calls ++ [call]) = t.log calls ++ ((t.after calls).call call).events.toList := by
  induction calls generalizing t with
  | nil => simp [log, after]
  | cons first calls ih =>
    rw [List.cons_append, log, ih, log, List.append_assoc]
    rfl

theorem crossings_concat (t : Table κ ν) (calls : List (TableCall κ ν)) (call : TableCall κ ν) :
    t.crossings (calls ++ [call]) = t.crossings calls +
      if crosses (t.after calls) ((t.after calls).call call).table then 1 else 0 := by
  induction calls generalizing t with
  | nil => exact Nat.add_comm _ _
  | cons first calls ih =>
    rw [List.cons_append, crossings, ih, crossings, Nat.add_assoc]
    rfl

variable [PartialEquivBEq κ] {hasher : κ → UInt64} {t₀ : Table κ ν}

/-- After any history from an empty table on, a table is at most half full, unless it has reached
its ceiling. -/
theorem IsFresh.settled_run (h₀ : t₀.IsFresh hasher) (history : List (Operation κ ν)) :
    (t₀.run history).Settled := by
  obtain ⟨hceiling, hcount, hcapacity⟩ := h₀.sized_run history
  obtain ⟨-, rows, hrepresents⟩ := h₀.represents.run history
  obtain ⟨ceiling, hpower, hempty⟩ := h₀.exists_eq
  have hpeak := two_mul_le_bucketsFor (t₀.peakCount history)
  refine ⟨hrepresents.lists.wellFormed, ?_, by omega, by omega⟩
  rw [hceiling, hempty]
  exact hpower

/-- A table that came about by a history is at most half full, unless it has reached its ceiling. -/
theorem IsReachable.settled (ht : t.IsReachable) : t.Settled := by
  obtain ⟨hasher, t₀, history, hfresh, rfl⟩ := isReachable_iff.1 ht
  exact hfresh.settled_run history

/-- What a call reports is what is due. -/
theorem IsFresh.reports_call (h₀ : t₀.IsFresh hasher) (calls : List (TableCall κ ν))
    (call : TableCall κ ν) :
    let t := t₀.after calls
    Reports t (t.call call).table (t.call call).events := by
  intro t
  cases call with
  | perform operation =>
    have ht : t = t₀.run (TableCall.operations calls) := t₀.after_eq_run calls
    obtain ⟨-, rows, hrepresents⟩ := h₀.represents.run (TableCall.operations calls)
    have hsettled := h₀.settled_run (TableCall.operations calls)
    rw [← ht] at hrepresents hsettled
    exact hsettled.reports_of_sizeStep (hrepresents.lists.wellFormed.sizeStep_perform operation)
  | occupancy => exact .of_kept (Nat.le_refl _) rfl rfl

/-- The number of buckets tells how many doublings were reported. -/
theorem IsFresh.capacity_after (h₀ : t₀.IsFresh hasher) (calls : List (TableCall κ ν)) :
    (t₀.after calls).capacity = t₀.capacity * 2 ^ (t₀.log calls).countP Event.isResized := by
  induction calls using List.reverseRecOn with
  | nil => exact (Nat.mul_one _).symm
  | append_singleton calls call ih =>
    rw [after_concat, log_concat, List.countP_append, Nat.pow_add, ← Nat.mul_assoc, ← ih]
    exact (h₀.reports_call calls call).capacity_eq_mul

/-- The ceiling is reported as often as the load rises beyond one half there. -/
theorem IsFresh.countP_isCeilingReached_log (h₀ : t₀.IsFresh hasher)
    (calls : List (TableCall κ ν)) :
    (t₀.log calls).countP Event.isCeilingReached = t₀.crossings calls := by
  induction calls using List.reverseRecOn with
  | nil => rfl
  | append_singleton calls call ih =>
    rw [log_concat, List.countP_append, ih, crossings_concat,
      (h₀.reports_call calls call).countP_isCeilingReached]

/-- A call that stores no new pair reports nothing. -/
theorem IsFresh.events_of_not_storedNew (h₀ : t₀.IsFresh hasher) (calls : List (TableCall κ ν))
    {call : TableCall κ ν} (hold : ((t₀.after calls).call call).answer.storedNew = false) :
    ((t₀.after calls).call call).events = #[] := by
  cases call with
  | occupancy => rfl
  | perform operation =>
    obtain ⟨-, rows, hrepresents⟩ := h₀.represents.run (TableCall.operations calls)
    rw [after_eq_run] at hold ⊢
    exact hrepresents.events_of_not_storedNew hold

/-- An account of all reports, in any history of calls on an empty table.

Of the sizes before and after a call: it reports a doubling just when the number of buckets has
changed, and then it has doubled, and nothing else is reported. It reports the ceiling just when at
most one half of the buckets would have been filled before, and more than that are afterwards, and
then nothing else is reported. Otherwise it reports nothing; and so does a call that stores no new
pair. Of the whole history: the buckets have doubled as often as was reported, and the ceiling was
reported as often as the load has risen beyond one half and stayed there. -/
theorem events_of_calls (h₀ : t₀.IsFresh hasher) (calls : List (TableCall κ ν))
    (call : TableCall κ ν) :
    let t := t₀.after calls
    let done := t.call call
    let doubled := done.table.capacity ≠ t.capacity
    let crossed := 2 * t.count ≤ t.capacity ∧ done.table.capacity < 2 * done.table.count
    ((∃ before after items, .resized before after items ∈ done.events) ↔ doubled) ∧
    (doubled → done.table.capacity = 2 * t.capacity ∧
      done.events = #[.resized t.capacity (2 * t.capacity) done.table.count]) ∧
    ((∃ capacity items, .ceilingReached capacity items ∈ done.events) ↔ crossed) ∧
    (crossed → done.events = #[.ceilingReached done.table.capacity done.table.count]) ∧
    (¬ doubled → ¬ crossed → done.events = #[]) ∧
    (done.answer.storedNew = false → done.events = #[]) ∧
    t.capacity = t₀.capacity * 2 ^ (t₀.log calls).countP Event.isResized ∧
    (t₀.log calls).countP Event.isCeilingReached = t₀.crossings calls := by
  intro t done doubled crossed
  have hreports : Reports t done.table done.events := h₀.reports_call calls call
  have hcrosses : crosses t done.table ↔ crossed := crosses_iff
  refine ⟨hreports.mem_resized_iff, fun hdoubled => ?_,
    hreports.mem_ceilingReached_iff.trans hcrosses, fun hcrossed => ?_, fun hkept hlow => ?_,
    h₀.events_of_not_storedNew calls, h₀.capacity_after calls,
    h₀.countP_isCeilingReached_log calls⟩
  · have hcapacity := hreports.capacity_eq hdoubled
    refine ⟨hcapacity, Array.ext' ?_⟩
    rw [hreports.events_eq, dueEvents, if_pos hdoubled, hcapacity]
  · apply Array.ext'
    have hkept : ¬ doubled := fun hdoubled => hreports.not_crosses hdoubled (hcrosses.2 hcrossed)
    rw [hreports.events_eq, dueEvents, if_neg hkept, if_pos (hcrosses.2 hcrossed)]
  · apply Array.ext'
    rw [hreports.events_eq, dueEvents, if_neg hkept, if_neg (mt hcrosses.1 hlow)]

end AnyStorage

/-- Ten entries under a bound of sixteen buckets, one of which leaves and comes back: the fifth
entry makes the buckets double, the ninth takes the load beyond one half, and so does the next one
after one of the nine was taken out, but the tenth does not. -/
theorem events_of_calls_on_tagged_keys :
    let k : Nat → TaggedKey := fun n => ⟨n.toUInt64, "a", "key"⟩
    let store : Nat → TableCall TaggedKey Nat := fun n => .perform (.insert (k n) n id)
    let calls : List (TableCall TaggedKey Nat) :=
      (List.range 9).map store ++
        [.perform (.remove (k 3)), .occupancy, .perform (.update (k 3) 3 id), store 9]
    ∃ t₀ : Table TaggedKey Nat, bounded TaggedKey.digest 16 = .ok t₀ ∧
      t₀.log calls = [.resized 8 16 5, .ceilingReached 16 9, .ceilingReached 16 9] ∧
      t₀.crossings calls = 2 ∧ (t₀.after calls).capacity = 16 := by
  intro k store calls
  have hbounded : bounded TaggedKey.digest 16 =
      .ok (withCeiling TaggedKey.digest 16 : Table TaggedKey Nat) := rfl
  have hfresh : IsFresh TaggedKey.digest (withCeiling TaggedKey.digest 16 : Table TaggedKey Nat) :=
    .inr ⟨16, hbounded⟩
  have hlog : (withCeiling TaggedKey.digest 16 : Table TaggedKey Nat).log calls =
      [.resized 8 16 5, .ceilingReached 16 9, .ceilingReached 16 9] := by
    decide +kernel
  obtain ⟨-, -, -, -, -, -, hcapacity, hcrossings⟩ :=
    events_of_calls hfresh calls (store 10)
  rw [hlog] at hcapacity hcrossings
  exact ⟨_, hbounded, hlog, hcrossings.symm, hcapacity⟩

end Table

end BulkLookup
