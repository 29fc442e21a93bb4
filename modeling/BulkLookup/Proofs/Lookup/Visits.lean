import BulkLookup.Proofs.Lookup.Walks
import BulkLookup.Proofs.Work.Resuming

/-!
# How many entries a walk visits

A walk suspends once for each entry that it visits, and it visits the entries of its chain one after
the other, up to the one that is meant or to the end. So the number of its suspensions can be read
off the chain: it is the position of the entry that is meant, counted from one, or the length of the
chain if none is. And since walks only read the table, this does not change when walks through one
table are resumed in any order, nor when some of them are resumed after they have answered.

## Main definitions

* `Table.means` — whether an entry is the one that a key means
* `Table.visits` — how many entries a search for a key reads
* `ChainWalk.node?` — the entry on which a walk stands

## Main results

* `Table.WellFormed.visits_eq_of_isFor`, `Table.visitsAlong_eq_length` — the number of visits read
  off the chain
* `ChainWalk.finishesAfter_of_follow`, `ChainWalk.node?_iterate_of_follow` — a walk suspends on each
  entry that it visits, in the order of the chain
* `Table.walks_answer_as_lookup` — walks resumed in any order answer as a lookup does
-/

namespace BulkLookup

universe x

open Resumable

section AnyStorage

variable [Storage] {κ ν : Type} {ι : Type x} [BEq κ]

/-! ### Entries that a search reads -/

namespace Table

/-- Whether the entry behind a handle is the one that a key means. -/
def means (t : Table κ ν) (key : κ) (node : Handle) : Bool :=
  (t.arena.get? node).any fun e => e.isFor (t.hasher key) key

/-- How many of the entries on a path a search for a key reads: those up to the one that is meant,
or all of them if none is. -/
def visitsAlong (t : Table κ ν) (key : κ) (nodes : List Handle) : Nat :=
  match nodes.findIdx? (t.means key) with
  | some i => i + 1
  | none => nodes.length

/-- How many entries a search for a key reads. -/
def visits (t : Table κ ν) (key : κ) : Nat :=
  t.visitsAlong key (t.chain (homeIndex t.capacity (t.hasher key)))

variable {t : Table κ ν} {key : κ} {node : Handle} {nodes : List Handle} {e : Entry κ ν}

theorem means_of_get? (hget : t.arena.get? node = some e) :
    t.means key node = e.isFor (t.hasher key) key := by
  rw [means, hget, Option.any_some]

theorem findIdx?_means_eq_none
    (hnone : ∀ node ∈ nodes, ∀ e, t.arena.get? node = some e → ¬ e.isFor (t.hasher key) key) :
    nodes.findIdx? (t.means key) = none := by
  rw [List.findIdx?_eq_none_iff]
  intro node hmem
  rw [means, Option.any_eq_false]
  exact fun e hget => Bool.eq_false_iff.2 (hnone node hmem e hget)

theorem visitsAlong_cons_of_isFor (hget : t.arena.get? node = some e)
    (hfor : e.isFor (t.hasher key) key) : t.visitsAlong key (node :: nodes) = 1 := by
  rw [visitsAlong, List.findIdx?_cons, means_of_get? hget, if_pos hfor]

theorem visitsAlong_cons_of_not_isFor (hget : t.arena.get? node = some e)
    (hfor : ¬ e.isFor (t.hasher key) key) :
    t.visitsAlong key (node :: nodes) = t.visitsAlong key nodes + 1 := by
  rw [visitsAlong, visitsAlong, List.findIdx?_cons, means_of_get? hget, if_neg hfor]
  cases nodes.findIdx? (t.means key) <;> rfl

/-- A search that meets no entry that is meant reads all of them. -/
theorem visitsAlong_eq_length
    (hnone : ∀ node ∈ nodes, ∀ e, t.arena.get? node = some e → ¬ e.isFor (t.hasher key) key) :
    t.visitsAlong key nodes = nodes.length := by
  rw [visitsAlong, findIdx?_means_eq_none hnone]

/-- The entry that is meant is the last one that a search reads. -/
theorem WellFormed.visits_eq_of_isFor [PartialEquivBEq κ] (ht : t.WellFormed)
    {before after : List Handle}
    (hchain : t.chain (homeIndex t.capacity (t.hasher key)) = before ++ node :: after)
    (hget : t.arena.get? node = some e) (hfor : e.isFor (t.hasher key) key) :
    t.visits key = before.length + 1 := by
  have hnodup : (before ++ node :: after).Nodup :=
    hchain ▸ ht.nodup_chain (ht.homeIndex_lt_capacity _)
  -- No entry before it is meant, for no two entries mean the same key.
  have hbefore : before.findIdx? (t.means key) = none := by
    apply findIdx?_means_eq_none
    intro other hmem e' hget' hfor'
    exact (List.nodup_append.1 hnodup).2.2 other hmem node List.mem_cons_self
      (ht.eq_of_isFor hget' hget hfor' hfor)
  rw [visits, hchain, visitsAlong, List.findIdx?_append, hbefore, List.findIdx?_cons,
    means_of_get? hget, if_pos hfor, Option.none_or, Option.map_some, Nat.zero_add]

end Table

/-! ### Walks along a path -/

namespace ChainWalk

/-- The entry on which a walk stands. -/
def node? (w : ChainWalk κ ν) : Option Handle :=
  match w.state with
  | .standing _ node _ => some node
  | _ => none

omit [BEq κ] in
theorem state_of_follow {w w' : ChainWalk κ ν} {hash : UInt64} {left : Nat} {next : Option Handle}
    {answer : Nat × Finding κ ν} (h : w.follow hash left next = .ok (w', .finished answer)) :
    w'.state = .answered := by
  unfold follow at h
  split at h
  · cases h
    rfl
  · split at h
    · cases h
    · cases h

theorem state_of_finished {w w' : ChainWalk κ ν} {answer : Nat × Finding κ ν}
    (h : w.step = .ok (w', .finished answer)) : w'.state = .answered := by
  unfold step at h
  split at h
  · exact state_of_follow h
  · split at h
    · cases h
    · split at h
      · cases h
        rfl
      · exact state_of_follow h
  · cases h

/-- A walk that is resumed after it has answered meets a fault. -/
theorem endsWith_alreadyFinished : EndsWith (ChainWalk κ ν) .alreadyFinished := by
  intro w w' answer hresume
  have hstate : w'.state = .answered := state_of_finished hresume
  change w'.step = _
  rw [step, hstate]

variable {t : Table κ ν} {position : Nat} {key : κ} {left : Nat} {link : Option Handle}
  {nodes : List Handle} {state : WalkState}

/-- A walk suspends once for each entry that it visits. -/
theorem finishesAfter_of_follow
    (hstep : (⟨t, position, key, state⟩ : ChainWalk κ ν).step =
      (⟨t, position, key, state⟩ : ChainWalk κ ν).follow (t.hasher key) left link)
    (hpath : t.arena.Path link nodes) (hleft : nodes.length ≤ left) :
    FinishesAfter (⟨t, position, key, state⟩ : ChainWalk κ ν) (t.visitsAlong key nodes) := by
  induction hpath generalizing left state with
  | nil => exact .now hstep
  | @cons node e rest hget _ ih =>
    obtain ⟨left, rfl⟩ := Nat.exists_eq_add_one_of_ne_zero (Nat.ne_zero_of_lt hleft)
    by_cases hfor : e.isFor (t.hasher key) key
    · rw [Table.visitsAlong_cons_of_isFor hget hfor]
      exact .later hstep (.now (step_standing_of_isFor hget hfor))
    · rw [Table.visitsAlong_cons_of_not_isFor hget hfor]
      exact .later hstep
        (ih (step_standing_of_not_isFor hget hfor) (Nat.le_of_succ_le_succ hleft))

/-- A walk that has answered stands nowhere, and stays where it is. -/
theorem node?_iterate_of_answered (n : Nat) :
    ((resumed^[n]) (⟨t, position, key, .answered⟩ : ChainWalk κ ν)).node? = none := by
  rw [Function.iterate_fixed rfl]
  rfl

/-- After each suspension, a walk stands on the next entry that it visits. -/
theorem node?_iterate_of_follow
    (hstep : (⟨t, position, key, state⟩ : ChainWalk κ ν).step =
      (⟨t, position, key, state⟩ : ChainWalk κ ν).follow (t.hasher key) left link)
    (hpath : t.arena.Path link nodes) (hleft : nodes.length ≤ left) (n : Nat) :
    ((resumed^[n + 1]) (⟨t, position, key, state⟩ : ChainWalk κ ν)).node? =
      (nodes.take (t.visitsAlong key nodes))[n]? := by
  induction hpath generalizing left state n with
  | nil =>
    rw [Function.iterate_succ_apply, resumed_of_ok hstep, node?_iterate_of_answered]
    rfl
  | @cons node e rest hget _ ih =>
    obtain ⟨left, rfl⟩ := Nat.exists_eq_add_one_of_ne_zero (Nat.ne_zero_of_lt hleft)
    rw [Function.iterate_succ_apply, resumed_of_ok hstep]
    by_cases hfor : e.isFor (t.hasher key) key
    · rw [Table.visitsAlong_cons_of_isFor hget hfor]
      cases n with
      | zero => rfl
      | succ n =>
        rw [Function.iterate_succ_apply, resumed_of_ok (step_standing_of_isFor hget hfor),
          node?_iterate_of_answered]
        rfl
    · rw [Table.visitsAlong_cons_of_not_isFor hget hfor]
      cases n with
      | zero => rfl
      | succ n =>
        rw [ih (step_standing_of_not_isFor hget hfor) (Nat.le_of_succ_le_succ hleft)]
        rfl

end ChainWalk

/-! ### Walks from the start -/

namespace Table

variable {t : Table κ ν}

/-- In a well-formed table, a walk from the start suspends once for each entry that it visits. -/
theorem WellFormed.finishesAfter_ofQuery (ht : t.WellFormed) (position : Nat) (key : κ) :
    FinishesAfter (ChainWalk.ofQuery t position key) (t.visits key) :=
  ChainWalk.finishesAfter_of_follow rfl (ht.path_headOf _)
    (ht.length_chain_le (ht.homeIndex_lt_capacity _))

/-- Walks through a table that came about by any history, resumed one at a time in any order, also
after they have answered. Whatever the others do, a walk suspends once for each entry that it
visits: as often as the position says that the entry that is meant has in its chain, counted from
one, or as the chain has entries if none is meant. Then it finishes, once, with what a lookup of its
key finds, which meets no fault; and when it is resumed after that, it meets a fault. After each
suspension, it stands on the next entry of its chain, which is a live one, and nowhere once it has
answered. -/
theorem walks_answer_as_lookup [PartialEquivBEq κ] [DecidableEq ι] (ht : t.IsReachable)
    (position : ι → Nat) (key : ι → κ) (order : List ι) (i : ι) :
    let hash := t.hasher (key i)
    let nodes := t.chain (homeIndex t.capacity hash)
    let visits := t.visits (key i)
    let run := resumeEach (fun j => ChainWalk.ofQuery t (position j) (key j)) order
    let count := order.count i
    t.arena.Path (t.headOf hash) nodes ∧
      (∀ node ∈ nodes, (t.arena.get? node).isSome = true) ∧
      (∀ before node after e, nodes = before ++ node :: after → t.arena.get? node = some e →
        e.isFor hash (key i) = true → visits = before.length + 1) ∧
      ((∀ node ∈ nodes, ∀ e, t.arena.get? node = some e → ¬ e.isFor hash (key i) = true) →
        visits = nodes.length) ∧
      t.tryLookup (key i) = .ok (t.lookup (key i)) ∧
      (run.2.filter (·.1 = i)).map Prod.snd =
        (List.replicate visits (Except.ok Step.suspended) ++
          [Except.ok (Step.finished (position i, (⟨key i, t.lookup (key i)⟩ : Finding κ ν)))]).take
            count ++
        List.replicate (count - (visits + 1)) (.error .alreadyFinished) ∧
      (count = 0 → (run.1 i).node? = none) ∧
      ∀ n, count = n + 1 → (run.1 i).node? = (nodes.take visits)[n]? := by
  intro hash nodes visits run count
  have hwellFormed := ht.wellFormed
  have hhome := hwellFormed.homeIndex_lt_capacity hash
  have hpath : t.arena.Path (t.headOf hash) nodes := hwellFormed.path_headOf hash
  refine ⟨hpath, fun node hmem => hwellFormed.isSome_get?_of_mem hhome hmem,
    fun before node after e hnodes hget hfor => hwellFormed.visits_eq_of_isFor hnodes hget hfor,
    visitsAlong_eq_length, hwellFormed.tryLookup_eq (key i), ?_, fun hcount => ?_,
    fun n hcount => ?_⟩
  · rw [filter_resumeEach]
    exact (hwellFormed.finishesAfter_ofQuery _ _).answers_eq (hwellFormed.result?_ofQuery _ _)
      ChainWalk.endsWith_alreadyFinished _
  · rw [resumeEach_apply]
    change ((resumed^[count]) (ChainWalk.ofQuery t (position i) (key i))).node? = none
    rw [hcount]
    rfl
  · rw [resumeEach_apply]
    change ((resumed^[count]) (ChainWalk.ofQuery t (position i) (key i))).node? = _
    rw [hcount]
    exact ChainWalk.node?_iterate_of_follow rfl hpath (hwellFormed.length_chain_le hhome) n

end Table

end AnyStorage

namespace Table

/-- A key behind one of the same name but of another digest, in the chain that both belong into: its
walk suspends twice and then finishes, and to resume it once more is a fault. Meanwhile, the walk
for a key that is not there has come as far as the first entry. -/
theorem walks_answer_as_lookup_of_tagged_keys :
    let k : TaggedKey := ⟨0, "a", "first"⟩
    let k' : TaggedKey := ⟨8, "a", "other digest"⟩
    let t : Table TaggedKey Nat :=
      (unbounded TaggedKey.digest).run [.insert k 1 (· + 0), .insert k' 2 (· + 0)]
    let key (position : Nat) : TaggedKey := if position = 1 then k' else ⟨16, "a", "missing"⟩
    let run := resumeEach (fun position => ChainWalk.ofQuery t position (key position))
      [1, 0, 1, 1, 1]
    (run.2.filter (·.1 = 1)).map Prod.snd =
        [.ok .suspended, .ok .suspended, .ok (.finished (1, ⟨k', some (k', 2)⟩)),
          .error .alreadyFinished] ∧
      (run.1 0).node? = (t.chain 0).head? := by
  intro k k' t key run
  have ht : t.IsReachable := ⟨_, _, .inl rfl⟩
  have hwalks := walks_answer_as_lookup ht id key [1, 0, 1, 1, 1]
  obtain ⟨-, -, -, -, -, hanswers, -⟩ := hwalks 1
  obtain ⟨-, -, -, -, -, -, -, hnode⟩ := hwalks 0
  refine ⟨hanswers.trans ?_, (hnode 0 rfl).trans ?_⟩
  · simp only [key, t, k, k']
    cbv
  · simp only [key, t, k, k']
    cbv

end Table

end BulkLookup
