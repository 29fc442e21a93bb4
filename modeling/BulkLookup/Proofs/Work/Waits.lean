import BulkLookup.Proofs.Work.Completion
import BulkLookup.Proofs.Work.Rounds

/-!
# How long a task waits for a stream

While all streams are busy, a task that is spawned waits until one of those in the queue finishes.
In a queue that hands tasks out in order, this is the first one of those that have the fewest
suspensions left: the tasks have their turns in rounds, in each of which all of them lose one
suspension, until in the next round that task is reached.

## Main definitions

* `FirstLeast` — the first one of those that have the least left

## Main results

* `ReadyQueue.Steady.drainToFinish_in_rounds` — the turns taken until a task finishes
* `StreamPool.spawn_in_rounds` — what spawning a task comes to while all streams are busy
-/

namespace BulkLookup

universe u v w

open ReadyQueue Resumable

variable {Q : Type w} {τ : Type u} {ρ : Type v}

/-- Of some tasks, `t` is the first one of those that have the least left. -/
structure FirstLeast (left : τ → Nat) (ts before : List τ) (t : τ) (after : List τ) : Prop where
  eq_append : ts = before ++ t :: after
  lt_before : ∀ t' ∈ before, left t < left t'
  le_after : ∀ t' ∈ after, left t ≤ left t'

namespace FirstLeast

variable {left : τ → Nat} {ts before after : List τ} {t t' : τ}

theorem le (h : FirstLeast left ts before t after) : ∀ t' ∈ ts, left t ≤ left t' := by
  rw [h.eq_append]
  simp only [List.mem_append, List.mem_cons]
  rintro t' (hmem | rfl | hmem)
  · exact Nat.le_of_lt (h.lt_before t' hmem)
  · exact Nat.le_refl _
  · exact h.le_after t' hmem

theorem mem (h : FirstLeast left ts before t after) : t ∈ ts := by simp [h.eq_append]

theorem mem_of_mem_before (h : FirstLeast left ts before t after) (hmem : t' ∈ before) :
    t' ∈ ts := by simp [h.eq_append, hmem]

theorem mem_of_mem_after (h : FirstLeast left ts before t after) (hmem : t' ∈ after) :
    t' ∈ ts := by simp [h.eq_append, hmem]

end FirstLeast

/-- Among some tasks, there is a first one of those that have the least left. -/
theorem exists_firstLeast (left : τ → Nat) {ts : List τ} (hne : ts ≠ []) :
    ∃ before t after, FirstLeast left ts before t after := by
  induction ts with
  | nil => exact absurd rfl hne
  | cons t₁ ts ih =>
    by_cases hleast : ∀ t' ∈ ts, left t₁ ≤ left t'
    · exact ⟨[], t₁, ts, rfl, by simp, hleast⟩
    · simp only [not_forall, Nat.not_le] at hleast
      obtain ⟨t', hmem, hlt⟩ := hleast
      obtain ⟨before, t, after, hfirst⟩ := ih (List.ne_nil_of_mem hmem)
      have ht₁ := Nat.lt_of_le_of_lt (hfirst.le t' hmem) hlt
      exact ⟨t₁ :: before, t, after, by rw [hfirst.eq_append]; rfl,
        List.forall_mem_cons.2 ⟨ht₁, hfirst.lt_before⟩, hfirst.le_after⟩

variable [ReadyQueue Q τ] [Resumable τ ρ]

/-- No task finishes in a round after which all of them have suspensions left. -/
theorem isFinish_of_mem_round {pauses : τ → Nat} {ts : List τ} {i : Nat}
    (hpauses : ∀ t ∈ ts, FinishesAfter t (pauses t)) (hlt : ∀ t ∈ ts, i < pauses t) :
    ∀ turn ∈ ts.map (turnAfter i), turn.isFinish = false := by
  intro turn hmem
  obtain ⟨t, ht, rfl⟩ := List.mem_map.1 hmem
  have hfinish := (hpauses t ht).isFinish_turnAfter (Nat.le_of_lt (hlt t ht))
  rwa [decide_eq_false (Nat.ne_of_lt (hlt t ht))] at hfinish

namespace ReadyQueue.Steady

variable [InOrder Q] {fits : Q → Prop} {q : Q} {left : τ → Nat} {before after : List τ} {t : τ}

/-- Some whole rounds: no task has finished in an earlier one, and none does in these. -/
theorem exists_whole_rounds (h : Steady fits) (hq : fits q)
    (hleft : ∀ t ∈ tasks q, FinishesAfter t (left t)) {n : Nat} (hle : ∀ t ∈ tasks q, n ≤ left t) :
    let turns := (List.range n).flatMap fun i => (tasks q).map (turnAfter i)
    (∀ turn ∈ turns, turn.isFinish = false) ∧
      ∃ q', Turns q turns q' ∧ fits q' ∧ tasks q' = (tasks q).map resumed^[n] := by
  intro turns
  have hall : ∀ i ≤ n, (tasks q).filter (i ≤ left ·) = tasks q := by
    intro i hi
    simpa using fun t hmem => Nat.le_trans hi (hle t hmem)
  have hturns : rounds left (tasks q) n = turns := by
    apply List.flatMap_congr
    intro i hi
    rw [hall i (Nat.le_of_lt (List.mem_range.1 hi))]
  obtain ⟨q', hrounds, hq', htasks'⟩ := h.exists_rounds hq hleft n
  rw [hturns] at hrounds
  rw [hall n (Nat.le_refl n)] at htasks'
  refine ⟨fun turn hmem => ?_, q', hrounds, hq', htasks'⟩
  obtain ⟨i, hi, hmem⟩ := List.mem_flatMap.1 hmem
  exact isFinish_of_mem_round hleft
    (fun t ht => Nat.lt_of_lt_of_le (List.mem_range.1 hi) (hle t ht)) turn hmem

/-- Until a task finishes, the tasks have their turns in rounds, and the last round breaks off with
the first one of those that had the fewest suspensions left. -/
theorem drainToFinish_in_rounds (h : Steady fits) (hq : fits q)
    (hfirst : FirstLeast left (tasks q) before t after)
    (hleft : ∀ t' ∈ tasks q, FinishesAfter t' (left t')) :
    let d : Progress Q τ ρ := drainToFinish q
    d.fault = none ∧ fits d.state ∧
      d.turns.toList = (List.range (left t)).flatMap (fun i => (tasks q).map (turnAfter i)) ++
        (before ++ [t]).map (turnAfter (left t)) ∧
      Turn.finishers d.turns.toList = [resumed^[left t] t] ∧
      tasks d.state = after.map resumed^[left t] ++ before.map resumed^[left t + 1] := by
  intro d
  have hothers : ∀ t' ∈ before, FinishesAfter t' (left t') :=
    fun t' hmem => hleft t' (hfirst.mem_of_mem_before hmem)
  obtain ⟨hnone, q₁, hrounds, hq₁, htasks₁⟩ := h.exists_whole_rounds hq hleft hfirst.le
  have hsplit : tasks q₁ = before.map resumed^[left t] ++
      resumed^[left t] t :: after.map resumed^[left t] := by
    rw [htasks₁, hfirst.eq_append, List.map_append, List.map_cons]
  -- The tasks before the one that is to finish have another turn, and then that task has its last.
  obtain ⟨q₂, hround, hq₂, htasks₂⟩ :=
    h.exists_round hq₁ hsplit hothers fun t' hmem => Nat.le_of_lt (hfirst.lt_before t' hmem)
  rw [List.filter_eq_self.2 fun t' hmem => decide_eq_true (hfirst.lt_before t' hmem)] at htasks₂
  have hlast := (hleft t hfirst.mem).iterate (Nat.le_refl _)
  rw [Nat.sub_self] at hlast
  obtain ⟨q₃, hturn, hq₃, htasks₃⟩ := h.exists_turn hq₂ htasks₂ hlast
  have hearlier := List.forall_mem_append.2 ⟨hnone, isFinish_of_mem_round hothers hfirst.lt_before⟩
  have hfinish : (nextTurn (resumed^[left t] t)).isFinish = true :=
    hlast.isFinish_nextTurn.trans (decide_eq_true rfl)
  have hd : d = _ := (hrounds.append hround).drainToFinish_eq hearlier hturn hfinish
  rw [hd]
  refine ⟨rfl, hq₃, ?_, Turn.finishers_concat hearlier hfinish, ?_⟩
  · rw [List.append_assoc, List.map_append]
    rfl
  · simpa using htasks₃

end ReadyQueue.Steady

namespace StreamPool

/-- A task that is spawned while all streams are busy gets the stream of the one that finishes. -/
theorem spawn_of_busy {p : StreamPool Q} (hbusy : p.free = 0) {waited : Progress Q τ ρ}
    (hwaited : drainToFinish p.queue = waited) (hfault : waited.fault = none)
    (hone : waited.finishes = 1) {t : τ} {queue : Q}
    (hschedule : schedule waited.state t = (none, queue)) :
    p.spawn t =
      { state := ⟨queue, p.limit, 0, max p.peak p.limit⟩, turns := waited.turns,
        events := #[.streamsBusy p.limit] } := by
  obtain ⟨queue₀, limit, free, peak⟩ := p
  obtain rfl : free = 0 := hbusy
  have hawait : ((⟨queue₀, limit, 0, peak⟩ : StreamPool Q).awaitStream :
      Progress (StreamPool Q) τ ρ) =
        { state := ⟨waited.state, limit, 1, peak⟩, turns := waited.turns,
          events := #[.streamsBusy limit] } := by
    simp [awaitStream, letWork, hwaited, hone, hfault]
  rw [spawn, if_pos rfl, hawait, Progress.andThen_of_none rfl, launch_of_accepted hschedule]
  simp

/-- A task that is spawned while all streams are busy, on a queue that hands tasks out in order and
has room for as many of them as there are streams. In the queue there is a first one of those that
have the fewest suspensions left, and it is the only one to finish: before, as many whole rounds are
made as it has suspensions left, and another one up to that task. Of the others, those behind it
come first then, with that many suspensions less, then those before it, with one more less, and at
the end the new task, which had no turn. All streams are busy again. -/
theorem spawn_in_rounds [InOrder Q] {p : StreamPool Q} (hlimit : 1 ≤ p.limit) (hbusy : p.free = 0)
    (hqueued : (tasks p.queue).length = p.limit) (hroom : HasRoom p.queue p.limit) {left : τ → Nat}
    (hleft : ∀ t ∈ tasks p.queue, FinishesAfter t (left t)) (new : τ) :
    let ts := tasks p.queue
    let d : Progress (StreamPool Q) τ ρ := p.spawn new
    ∃ before t after, ts = before ++ t :: after ∧ (∀ t' ∈ before, left t < left t') ∧
      (∀ t' ∈ after, left t ≤ left t') ∧ d.fault = none ∧
      d.turns.toList = (List.range (left t)).flatMap (fun i => ts.map (turnAfter i)) ++
        (before ++ [t]).map (turnAfter (left t)) ∧
      d.turns.size = p.limit * left t + before.length + 1 ∧
      Turn.finishers d.turns.toList = [resumed^[left t] t] ∧
      tasks d.state.queue =
        after.map resumed^[left t] ++ before.map resumed^[left t + 1] ++ [new] ∧
      (∀ t' ∈ after, FinishesAfter (resumed^[left t] t') (left t' - left t)) ∧
      (∀ t' ∈ before, FinishesAfter (resumed^[left t + 1] t') (left t' - left t - 1)) ∧
      d.state.limit = p.limit ∧ d.state.inFlight = p.limit ∧
      d.events = #[.streamsBusy p.limit] := by
  intro ts d
  obtain ⟨fits, hfits, hsteady, haccepts⟩ := hroom.exists_steady (Nat.le_of_eq hqueued)
  obtain ⟨before, t, after, hfirst⟩ :=
    exists_firstLeast left (List.ne_nil_of_length_pos (hqueued ▸ hlimit))
  obtain ⟨hfault, hfits', hturns, hfinishers, htasks⟩ :=
    hsteady.drainToFinish_in_rounds hfits hfirst hleft
  have hlength : before.length + (after.length + 1) = p.limit := by
    rw [← hqueued, hfirst.eq_append, List.length_append, List.length_cons]
  -- The queue has room for the new task, for one task has left it.
  generalize hwaited : (drainToFinish p.queue : Progress Q τ ρ) = waited at *
  have hone : waited.finishes = 1 := by
    rw [Progress.finishes_eq, hfinishers]
    rfl
  have hlt : (tasks waited.state).length < p.limit := by
    rw [htasks, List.length_append, List.length_map, List.length_map]
    omega
  have hschedule : schedule waited.state new = (none, (schedule waited.state new).2) :=
    Prod.ext (haccepts _ new hfits' hlt).1 rfl
  have hd : d = _ := spawn_of_busy hbusy hwaited hfault hone hschedule
  refine ⟨before, t, after, hfirst.eq_append, hfirst.lt_before, hfirst.le_after, ?_⟩
  rw [hd]
  refine ⟨rfl, hturns, ?_, hfinishers, ?_, fun t' hmem => ?_, fun t' hmem => ?_, rfl, rfl, rfl⟩
  · rw [← Array.length_toList, hturns]
    simp [List.length_flatMap, hqueued, Nat.mul_comm, Nat.add_assoc]
  · rw [tasks_of_accepted hschedule, htasks]
  · exact (hleft t' (hfirst.mem_of_mem_after hmem)).iterate (hfirst.le_after t' hmem)
  · exact (hleft t' (hfirst.mem_of_mem_before hmem)).iterate (hfirst.lt_before t' hmem)

/-- Three countdowns in a full ring of three cells: the second and the third one have the fewest
suspensions left. So the second one finishes in the fifth turn, and the others go on behind it. -/
theorem spawn_in_rounds_on_full_ring :
    let ring : Ring Countdown :=
      ⟨#[some ⟨3, 1⟩, some ⟨1, 2⟩, some ⟨2, 1⟩], 1, 3, by decide, by decide, by decide⟩
    let p : StreamPool (Ring Countdown) := ⟨ring, 3, 0, 3⟩
    let d : Progress (StreamPool (Ring Countdown)) Countdown Int := p.spawn ⟨4, 0⟩
    d.fault = none ∧ d.turns.size = 5 ∧ Turn.finishers d.turns.toList = [⟨2, 0⟩] ∧
      tasks d.state.queue = [⟨3, 0⟩, ⟨1, 0⟩, ⟨4, 0⟩] ∧ d.state.inFlight = 3 := by
  intro ring p d
  have hqueued : tasks p.queue = [⟨1, 2⟩, ⟨2, 1⟩, ⟨3, 1⟩] := by decide
  obtain ⟨before, t, after, hts, hbefore, hafter, hfault, -, hsize, hfinishers, htasks, -, -, -,
    hinFlight, -⟩ := spawn_in_rounds (p := p) (by decide) rfl (by rw [hqueued]; rfl) ring.hasRoom
      (fun t _ => t.finishesAfter) ⟨4, 0⟩
  rw [hqueued] at hts
  have hpos : ∀ t ∈ ([⟨1, 2⟩, ⟨2, 1⟩, ⟨3, 1⟩] : List Countdown), 1 ≤ t.pauses := by decide
  have ht : 1 ≤ t.pauses := hpos t (by simp [hts])
  obtain ⟨rfl, rfl, rfl⟩ : before = [⟨1, 2⟩] ∧ t = ⟨2, 1⟩ ∧ after = [⟨3, 1⟩] := by
    rcases before with _ | ⟨a, _ | ⟨b, before⟩⟩
    · obtain ⟨rfl, rfl⟩ := List.cons.inj hts
      exact absurd (hafter ⟨2, 1⟩ (by simp)) (by decide)
    · simpa using hts.symm
    · obtain rfl : ⟨2, 1⟩ = b := (List.cons.inj (List.cons.inj hts).2).1
      exact absurd (hbefore ⟨2, 1⟩ (by simp)) (Nat.not_lt.2 ht)
  exact ⟨hfault, hsize, hfinishers, htasks, hinFlight⟩

end StreamPool

end BulkLookup
