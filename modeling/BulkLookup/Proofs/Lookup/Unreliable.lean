import BulkLookup.Proofs.Lookup.Interleaving
import BulkLookup.Proofs.Work.Unreliable

/-!
# Interleaved lookups on queues that promise nothing

An interleaved lookup trusts its queue with its walks. If the queue loses some of them, holds them
back or refuses them, then the lookup may have to give up; but what it answers, it answers truly.
Every walk is resumed along its own way and never after its end, every place gets at most one
answer, and that from its own walk. And when the lookup does give its answers, no walk was lost on
the way and they are the answers of a sequential lookup.

## Main results

* `Finding.collect_cases` — answers are given only if every place is filled
* `Table.WellFormed.perm_answers` — where all walks come to the end, no answer is missing
* `Table.WellFormed.of_collect_eq_ok` — where answers are given, all walks have come to the end
* `Table.WellFormed.lookupInterleaved_cases` — how an interleaved lookup ends
* `Table.lookupInterleaved_on_any_queue` — no queue can make an interleaved lookup answer wrongly
-/

namespace BulkLookup

universe w

open ReadyQueue Resumable

variable {κ ν : Type}

/-! ### Giving answers -/

namespace Finding

/-- Answers are given if every place is filled, and only then. -/
theorem collect_cases (count : Nat) (answers : Array (Nat × Finding κ ν)) :
    (∃ findings, (arrange count answers).toList = findings.map some ∧
      collect count answers = .ok findings) ∨
    (none ∈ (arrange count answers).toList ∧ collect count answers = .error .missingAnswer) := by
  unfold collect
  generalize (arrange count answers).toList = places
  induction places with
  | nil => exact .inl ⟨[], rfl, rfl⟩
  | cons place places ih =>
    cases place with
    | none => exact .inr ⟨List.mem_cons_self, by rw [List.mapM_cons]; rfl⟩
    | some finding =>
      rw [List.mapM_cons]
      rcases ih with ⟨findings, rfl, hfindings⟩ | ⟨hmem, hmissing⟩
      · refine .inl ⟨finding :: findings, rfl, ?_⟩
        rw [hfindings]
        rfl
      · refine .inr ⟨List.mem_cons_of_mem _ hmem, ?_⟩
        rw [hmissing]
        rfl

/-- A place whose answer is not among those that came stays empty. -/
theorem none_mem_arrange {findings : List (Finding κ ν)} {answers : Array (Nat × Finding κ ν)}
    {other : Nat × Finding κ ν} {others : List (Nat × Finding κ ν)}
    (h : (findings.mapIdx Prod.mk).Perm (answers.toList ++ other :: others)) :
    none ∈ (arrange findings.length answers).toList := by
  have hpositions := (h.map Prod.fst).nodup_iff.1 (by
    rw [map_fst_mapIdx]
    exact List.nodup_range)
  have hother : other ∈ findings.mapIdx Prod.mk :=
    h.mem_iff.2 (List.mem_append_right _ List.mem_cons_self)
  obtain ⟨i, hi, rfl⟩ := List.mem_mapIdx.1 hother
  rw [List.map_append, List.map_cons] at hpositions
  have hnot : i ∉ answers.toList.map Prod.fst := fun hmem =>
    (List.nodup_append.1 hpositions).2.2 i hmem i List.mem_cons_self rfl
  apply List.mem_iff_getElem?.2
  refine ⟨i, ?_⟩
  rw [Array.getElem?_toList, arrange, ← Array.foldl_toList]
  exact (getElem?_foldl_place_of_notMem hnot).trans (by simp [hi])

/-- When answers are given, none is missing, and they are those in question. -/
theorem of_collect_eq_ok {findings found : List (Finding κ ν)}
    {answers : Array (Nat × Finding κ ν)} {others : List (Nat × Finding κ ν)}
    (h : (findings.mapIdx Prod.mk).Perm (answers.toList ++ others))
    (hcollect : collect findings.length answers = .ok found) : found = findings ∧ others = [] := by
  cases others with
  | nil =>
    rw [List.append_nil] at h
    rw [collect_of_perm h] at hcollect
    exact ⟨(Except.ok.inj hcollect).symm, rfl⟩
  | cons other others =>
    exfalso
    obtain ⟨findings', hfilled, -⟩ | ⟨-, hmissing⟩ := collect_cases findings.length answers
    · have hnone := none_mem_arrange h
      rw [hfilled] at hnone
      obtain ⟨finding, -, hsome⟩ := List.mem_map.1 hnone
      cases hsome
    · rw [hmissing] at hcollect
      cases hcollect

end Finding

section AnyStorage

variable [Storage]

/-! ### Walks and their positions -/

namespace ChainWalk

/-- Wherever a walk goes next, only its state changes. -/
theorem exists_state_of_follow {w w' : ChainWalk κ ν} {hash : UInt64} {left : Nat}
    {next : Option Handle} {answer : Step (Nat × Finding κ ν)}
    (h : w.follow hash left next = .ok (w', answer)) : ∃ state, w' = { w with state } := by
  unfold follow at h
  split at h
  · cases h
    exact ⟨_, rfl⟩
  · split at h
    · cases h
    · cases h
      exact ⟨_, rfl⟩

theorem exists_state_of_suspended [BEq κ] {w w' : ChainWalk κ ν}
    (h : resume w = .ok (w', .suspended)) : ∃ state, w' = { w with state } := by
  change w.step = .ok (w', .suspended) at h
  unfold step at h
  split at h
  · exact exists_state_of_follow h
  · split at h
    · cases h
    · split at h
      · cases h
      · exact exists_state_of_follow h
  · cases h

theorem keeps_position [BEq κ] : Keeps (position : ChainWalk κ ν → Nat) := by
  intro w w' h
  obtain ⟨state, rfl⟩ := exists_state_of_suspended h
  rfl

theorem keeps_key [BEq κ] : Keeps (key : ChainWalk κ ν → κ) := by
  intro w w' h
  obtain ⟨state, rfl⟩ := exists_state_of_suspended h
  rfl

end ChainWalk

namespace Table

variable {t : Table κ ν} {keys : List κ}

theorem map_position_walks (t : Table κ ν) (keys : List κ) :
    (t.walks keys).map ChainWalk.position = List.range keys.length := by
  apply List.ext_getElem
  · simp [walks]
  · intro i hi hi'
    simp [walks, ChainWalk.ofQuery]

theorem nodup_map_position_walks (t : Table κ ν) (keys : List κ) :
    ((t.walks keys).map ChainWalk.position).Nodup := by
  rw [map_position_walks]
  exact List.nodup_range

variable [BEq κ]

theorem WellFormed.filterMap_result?_walks (ht : t.WellFormed) (keys : List κ) :
    (t.walks keys).filterMap result? = (t.lookupAll keys).mapIdx Prod.mk := by
  have hresults := congrArg (List.filterMap id) (ht.map_result?_walks keys)
  rwa [List.filterMap_map, List.filterMap_map, Function.id_comp, Function.id_comp,
    List.filterMap_some] at hresults

theorem WellFormed.isSome_result?_walks (ht : t.WellFormed) (keys : List κ) :
    ∀ walk ∈ t.walks keys, (result? walk : Option (Nat × Finding κ ν)).isSome = true := by
  intro walk hmem
  obtain ⟨i, hi, rfl⟩ := List.mem_mapIdx.1 hmem
  rw [ht.result?_ofQuery, Option.isSome_some]

/-- The answers that have come are answers to the queries, each of them once. -/
theorem WellFormed.exists_perm_answers (ht : t.WellFormed)
    {turns : List (Turn (ChainWalk κ ν) (Nat × Finding κ ν))}
    {left : List (List (Turn (ChainWalk κ ν) (Nat × Finding κ ν)))}
    (h : Interleaves ((t.walks keys).map journey) turns left) :
    ∃ others, ((t.lookupAll keys).mapIdx Prod.mk).Perm (turns.filterMap (·.result) ++ others) := by
  rw [← ht.filterMap_result?_walks]
  exact h.exists_perm_results

/-- If all walks have come to the end of their journeys, then no answer is missing. -/
theorem WellFormed.perm_answers (ht : t.WellFormed)
    {turns : List (Turn (ChainWalk κ ν) (Nat × Finding κ ν))}
    {left : List (List (Turn (ChainWalk κ ν) (Nat × Finding κ ν)))}
    (h : Interleaves ((t.walks keys).map journey) turns left)
    (hall : ∀ walk ∈ t.walks keys,
      turns.filter (fun turn => turn.task.position = walk.position) = journey walk) :
    ((t.lookupAll keys).mapIdx Prod.mk).Perm (turns.filterMap (·.result)) := by
  obtain ⟨others, hothers⟩ := ht.exists_perm_answers h
  cases others with
  | nil => rwa [List.append_nil] at hothers
  | cons other others =>
    exfalso
    -- The walk that comes to the answer missing is one that has come to its end.
    have hother : other ∈ (t.walks keys).filterMap result? := by
      rw [ht.filterMap_result?_walks]
      exact hothers.mem_iff.2 (List.mem_append_right _ List.mem_cons_self)
    obtain ⟨walk, hwalk, hresult⟩ := List.mem_filterMap.1 hother
    have hjourney : other ∈ (journey walk).filterMap (·.result) := by
      rw [filterMap_result_journey]
      exact Option.mem_toList.2 hresult
    rw [← hall walk hwalk] at hjourney
    have hmem : other ∈ turns.filterMap (·.result) :=
      (List.filter_sublist.filterMap _).mem hjourney
    have hdistinct : ((t.lookupAll keys).mapIdx Prod.mk).Nodup := by
      apply List.Nodup.of_map Prod.fst
      rw [Finding.map_fst_mapIdx]
      exact List.nodup_range
    exact (List.nodup_append.1 (hothers.nodup_iff.1 hdistinct)).2.2 other hmem other
      List.mem_cons_self rfl

/-- If no answers are given, then one is missing, and some walk has not come to its end. -/
theorem WellFormed.of_collect_eq_error (ht : t.WellFormed)
    {turns : Array (Turn (ChainWalk κ ν) (Nat × Finding κ ν))}
    {left : List (List (Turn (ChainWalk κ ν) (Nat × Finding κ ν)))}
    (h : Interleaves ((t.walks keys).map journey) turns.toList left) {cause : Fault}
    (hcollect : Finding.collect keys.length (turns.filterMap (·.result)) = .error cause) :
    cause = .missingAnswer ∧ ∃ walk ∈ t.walks keys,
      turns.toList.filter (fun turn => turn.task.position = walk.position) ≠ journey walk := by
  obtain ⟨findings, -, hgiven⟩ | ⟨-, hmissing⟩ :=
    Finding.collect_cases keys.length (turns.filterMap (·.result))
  · rw [hgiven] at hcollect
    cases hcollect
  · refine ⟨?_, ?_⟩
    · rw [hmissing] at hcollect
      exact (Except.error.inj hcollect).symm
    · by_contra hnone
      have hperm := ht.perm_answers h fun walk hmem =>
        not_not.1 fun hne => hnone ⟨walk, hmem, hne⟩
      rw [← Array.toList_filterMap] at hperm
      have hgiven := Finding.collect_of_perm hperm
      rw [lookupAll, List.length_map, hmissing] at hgiven
      cases hgiven

variable {Q : Type w} [ReadyQueue Q (ChainWalk κ ν)] {queue : Q} {streams : Nat}

/-- If answers are given, they are those of a sequential lookup, no walk is left in the queue, and
each has come to the end of its journey. -/
theorem WellFormed.of_collect_eq_ok (ht : t.WellFormed)
    {turns : Array (Turn (ChainWalk κ ν) (Nat × Finding κ ν))}
    (h : Unrolled (t.walks keys) turns.toList queue) {findings : List (Finding κ ν)}
    (hcollect : Finding.collect keys.length (turns.filterMap (·.result)) = .ok findings) :
    findings = t.lookupAll keys ∧ tasks queue = [] ∧ ∀ walk ∈ t.walks keys,
      turns.toList.filter (fun turn => turn.task.position = walk.position) = journey walk := by
  obtain ⟨left, hleft⟩ := h.exists_interleaves
  obtain ⟨others, hothers⟩ := ht.exists_perm_answers hleft
  have hlength : (t.lookupAll keys).length = keys.length := List.length_map _
  rw [← hlength] at hcollect
  rw [← Array.toList_filterMap] at hothers
  obtain ⟨rfl, rfl⟩ := Finding.of_collect_eq_ok hothers hcollect
  -- All answers have come, and so all walks have come to the end.
  have hfinished : (Turn.finishers turns.toList).length = (t.walks keys).length := by
    have hall := hothers.length_eq
    rw [List.append_nil, Array.toList_filterMap, List.length_mapIdx, hlength] at hall
    rw [Turn.length_finishers, walks, List.length_mapIdx]
    exact hall.symm
  obtain ⟨hqueue, hjourneys⟩ := h.of_finished hfinished
  refine ⟨rfl, hqueue, fun walk hmem => ?_⟩
  obtain ⟨rest, hrest, hfilter⟩ := hjourneys.exists_filter_append ChainWalk.keeps_position
    (nodup_map_position_walks t keys) hmem
  obtain ⟨-, -, rfl⟩ := List.mem_map.1 hrest
  rwa [List.append_nil] at hfilter

/-- How an interleaved lookup ends: it collects the results of its walks, or it ends in a fault,
which is then that it was called wrongly or one that the queue is to blame for. In either case, the
turns taken interleave the journeys of its walks. -/
theorem WellFormed.lookupInterleaved_cases (ht : t.WellFormed) (keys : List κ)
    (hnil : tasks queue = []) (streams : Nat) :
    let run := t.lookupInterleaved keys queue streams
    (∃ left, Interleaves ((t.walks keys).map journey) run.turns.toList left) ∧
      ((Unrolled (t.walks keys) run.turns.toList run.queue ∧
        run.outcome = Finding.collect keys.length (run.turns.filterMap (·.result))) ∨
      ∃ cause, run.outcome = .error cause ∧
        (cause = .noStreams ∧ streams = 0 ∨
          cause = .foreignTasks ∧ ReadyQueue.isEmpty queue = false ∨
          IsToBlame run.queue cause)) := by
  intro run
  cases hpool : StreamPool.ofQueue queue streams with
  | error cause =>
    have hrun : run = ⟨.error cause, queue, #[], #[.lookupStarted keys.length streams]⟩ := by
      simp only [run, lookupInterleaved, hpool]
    rw [hrun]
    refine ⟨⟨_, .nil (.refl _)⟩, .inr ⟨cause, rfl, ?_⟩⟩
    rcases StreamPool.ofQueue_eq_error hpool with hstreams | hempty
    · exact .inl hstreams
    · exact .inr (.inl hempty)
  | ok pool =>
    obtain ⟨hran, hclosed⟩ :=
      StreamPool.accounted_of_batch hpool hnil (ht.isSome_result?_walks keys)
    simp only [run, lookupInterleaved, hpool]
    generalize ((pool.spawnAll (t.walks keys)).andThen (·.run) :
      Progress (StreamPool Q) (ChainWalk κ ν) (Nat × Finding κ ν)) = ran at hran hclosed ⊢
    cases hfault : ran.fault with
    | some cause =>
      exact ⟨hran.exists_interleaves, .inr ⟨cause, rfl, .inr (.inr (hran.isToBlame cause hfault))⟩⟩
    | none =>
      have hclosed := hclosed hfault
      dsimp only
      cases hfault' : (ran.state.close : Progress Q (ChainWalk κ ν) (Nat × Finding κ ν)).fault with
      | some cause =>
        exact ⟨hclosed.exists_interleaves,
          .inr ⟨cause, rfl, .inr (.inr (hclosed.isToBlame cause hfault'))⟩⟩
      | none => exact ⟨hclosed.exists_interleaves, .inl ⟨hclosed.unrolled hfault', rfl⟩⟩

/-- An interleaved lookup in a table that came about by any history, for any queries, and on any
empty queue: even one that hands its tasks out in any order, loses some, holds some back or refuses
some. Whatever the queue does, the turns of each walk begin its journey, on which only the last turn
is a finish, and there are no other turns; no two answers have the same position, and each is that
to the query in the position of its walk. If answers are given, they are those of a sequential
lookup, which meets no fault; every walk has come to the end of its journey, and none is left in the
queue. If none are given, then the lookup was called wrongly, or the queue is to blame, or there is
an answer missing in the end, and a walk that has not come to the end of its journey. -/
theorem lookupInterleaved_on_any_queue [PartialEquivBEq κ] (ht : t.IsReachable) (keys : List κ)
    (hnil : tasks queue = []) (streams : Nat) :
    let run := t.lookupInterleaved keys queue streams
    let turns := run.turns.toList
    let answers := turns.filterMap (·.result)
    (∀ walk ∈ t.walks keys,
      turns.filter (fun turn => turn.task.position = walk.position) <+: journey walk ∧
      ∃ n, (journey walk).map Turn.isFinish = List.replicate n false ++ [true]) ∧
    (∀ turn ∈ turns, ∃ walk ∈ t.walks keys, turn ∈ journey walk) ∧
    (answers.map Prod.fst).Nodup ∧
    (∀ turn ∈ turns, ∀ r, turn.result = some r →
      ∃ key, keys[turn.task.position]? = some key ∧
        r = (turn.task.position, ⟨key, t.lookup key⟩)) ∧
    t.tryLookupAll keys = .ok (t.lookupAll keys) ∧
    (∀ findings, run.outcome = .ok findings → findings = t.lookupAll keys ∧ tasks run.queue = [] ∧
      ∀ walk ∈ t.walks keys,
        turns.filter (fun turn => turn.task.position = walk.position) = journey walk) ∧
    ∀ cause, run.outcome = .error cause →
      cause = .noStreams ∧ streams = 0 ∨ cause = .foreignTasks ∧ ReadyQueue.isEmpty queue = false ∨
        IsToBlame run.queue cause ∨ cause = .missingAnswer ∧ ∃ walk ∈ t.walks keys,
          turns.filter (fun turn => turn.task.position = walk.position) ≠ journey walk := by
  intro run turns answers
  have hwellFormed := ht.wellFormed
  obtain ⟨⟨left, hleft⟩, hend⟩ := hwellFormed.lookupInterleaved_cases keys hnil streams
  obtain ⟨others, hothers⟩ := hwellFormed.exists_perm_answers hleft
  refine ⟨fun walk hmem => ⟨?_, ?_⟩, fun turn hmem => hleft.exists_mem_journey hmem, ?_,
    fun turn hmem r hr => ?_, hwellFormed.tryLookupAll_eq keys, fun findings hfindings => ?_,
    fun cause hcause => ?_⟩
  · obtain ⟨rest, -, hfilter⟩ := hleft.exists_filter_append ChainWalk.keeps_position
      (nodup_map_position_walks t keys) hmem
    exact ⟨rest, hfilter⟩
  · obtain ⟨n, hn⟩ := exists_finishesAfter (hwellFormed.isSome_result?_walks keys walk hmem)
    exact ⟨n, hn.map_isFinish_journey⟩
  · have hpositions := (hothers.map Prod.fst).nodup_iff.1 (by
      rw [Finding.map_fst_mapIdx]
      exact List.nodup_range)
    rw [List.map_append] at hpositions
    exact (List.nodup_append.1 hpositions).1
  · -- The turn belongs to the walk for one of the queries, which keeps its position.
    obtain ⟨walk, hwalk, hturn⟩ := hleft.exists_mem_journey hmem
    have hresult := result?_of_mem_journey hturn hr
    have hposition := ChainWalk.keeps_position.eq_of_mem_journey turn hturn
    obtain ⟨i, hi, rfl⟩ := List.mem_mapIdx.1 hwalk
    rw [hwellFormed.result?_ofQuery] at hresult
    rw [hposition]
    exact ⟨keys[i], List.getElem?_eq_getElem hi, (Option.some.inj hresult).symm⟩
  · obtain ⟨hunrolled, houtcome⟩ | ⟨cause, houtcome, -⟩ := hend
    · rw [houtcome] at hfindings
      exact hwellFormed.of_collect_eq_ok hunrolled hfindings
    · rw [houtcome] at hfindings
      cases hfindings
  · obtain ⟨-, houtcome⟩ | ⟨cause', houtcome, hblame⟩ := hend
    · rw [houtcome] at hcause
      exact .inr (.inr (.inr (hwellFormed.of_collect_eq_error hleft hcause)))
    · rw [houtcome] at hcause
      cases hcause
      rcases hblame with hstreams | hempty | hblame
      · exact .inl hstreams
      · exact .inr (.inl hempty)
      · exact .inr (.inr (.inl hblame))

end Table

end AnyStorage

namespace Table

/-- Two streams over a queue that drops every fifth walk it is given, for a key that is not there
and two keys in the same chain. The last walk is dropped after its first turn, and its answer is
missing in the end; but its turn is one that it should take, and the other walks have come to their
answers. -/
theorem lookupInterleaved_on_lossy_queue :
    let k : TaggedKey := ⟨0, "a", "first"⟩
    let k' : TaggedKey := ⟨8, "b", "same bucket"⟩
    let t : Table TaggedKey Nat :=
      (unbounded TaggedKey.digest).run [.insert k 1 (· + 0), .insert k' 2 (· + 0)]
    let run : BulkRun (Lossy (ChainWalk TaggedKey Nat)) TaggedKey Nat :=
      t.lookupInterleaved [⟨1, "c", "missing"⟩, k, k'] (.ofPeriod 5) 2
    run.outcome = .error .missingAnswer ∧
      run.turns.toList.map (·.task.position) = [0, 1, 2, 1] ∧
      run.turns.toList.filter (fun turn => turn.task.position = 2) <+:
        journey (ChainWalk.ofQuery t 2 k') := by
  intro k k' t run
  have ht : t.IsReachable := ⟨_, _, .inl rfl⟩
  have hnil : tasks (Lossy.ofPeriod 5 : Lossy (ChainWalk TaggedKey Nat)) = [] := rfl
  obtain ⟨hwalks, -⟩ := lookupInterleaved_on_any_queue ht [⟨1, "c", "missing"⟩, k, k'] hnil 2
  refine ⟨?_, ?_, (hwalks (ChainWalk.ofQuery t 2 k') ?_).1⟩
  · simp only [run, t, k, k']
    cbv
  · simp only [run, t, k, k']
    cbv
  · exact List.mem_mapIdx.2 ⟨2, by decide, rfl⟩

end Table

end BulkLookup
