import BulkLookup.Proofs.Work.Pools

/-!
# Queues that behave alike

A queue of one kind and a queue of another behave alike if they say that they are of the same
length, accept or refuse a task for the same reason, hand out the same task, and still behave alike
afterwards. Whatever is done with one of them then comes to the same on the other, be it a sequence
of calls, a loop that works them off, or a pool that is opened over them.

## Main definitions

* `Likeness` — a pairing of queues that behave alike
* `QueueCall`, `ReadyQueue.perform` — what can be done with a queue, once and again
* `Progress.Alike` — operations that come to the same, up to the states they leave behind

## Main results

* `Likeness.perform` — the same calls are answered alike
* `Likeness.drain`, `Likeness.drainToFinish` — loops take the same turns
* `Likeness.spawnAll`, `Likeness.run`, `Likeness.close` — pools come to the same
-/

namespace BulkLookup

universe u v w w'

open ReadyQueue

variable {Q : Type w} {Q' : Type w'} {τ : Type u} {ρ : Type v}

/-- A pairing of queues that behave alike. -/
structure Likeness [ReadyQueue Q τ] [ReadyQueue Q' τ] (R : Q → Q' → Prop) : Prop where
  length_eq : ∀ {q : Q} {q' : Q'}, R q q' → length q = length q'
  schedule : ∀ {q : Q} {q' : Q'} (t : τ), R q q' →
    (schedule q t).1 = (schedule q' t).1 ∧ R (schedule q t).2 (schedule q' t).2
  takeNext : ∀ {q : Q} {q' : Q'}, R q q' →
    (takeNext q).1 = (takeNext q').1 ∧ R (takeNext q).2 (takeNext q').2

/-! ### Calls on a queue -/

/-- What can be done with a queue. -/
inductive QueueCall (τ : Type u) where
  | schedule (t : τ)
  | takeNext

/-- What a queue answers. -/
inductive QueueAnswer (τ : Type u) where
  /-- The task was accepted, or it was refused with a fault. -/
  | scheduled (refusal : Option Fault)
  /-- The task was handed out, or there was none. -/
  | taken (task : Option τ)
deriving DecidableEq

namespace ReadyQueue

variable [ReadyQueue Q τ]

/-- Performs a call: what the queue answers, and the queue afterwards. -/
def call (q : Q) : QueueCall τ → QueueAnswer τ × Q
  | .schedule t => (.scheduled (schedule q t).1, (schedule q t).2)
  | .takeNext => (.taken (takeNext q).1, (takeNext q).2)

/-- Performs calls one after the other, those that are refused included. -/
def perform (q : Q) : List (QueueCall τ) → List (QueueAnswer τ) × Q
  | [] => ([], q)
  | c :: calls => ((call q c).1 :: (perform (call q c).2 calls).1, (perform (call q c).2 calls).2)

end ReadyQueue

namespace Likeness

variable [ReadyQueue Q τ] [ReadyQueue Q' τ] {R : Q → Q' → Prop} {q : Q} {q' : Q'}

theorem call (h : Likeness R) (hq : R q q') (c : QueueCall τ) :
    (ReadyQueue.call q c).1 = (ReadyQueue.call q' c).1 ∧
      R (ReadyQueue.call q c).2 (ReadyQueue.call q' c).2 := by
  cases c with
  | schedule t =>
    obtain ⟨hanswer, hq'⟩ := h.schedule t hq
    exact ⟨congrArg _ hanswer, hq'⟩
  | takeNext =>
    obtain ⟨hanswer, hq'⟩ := h.takeNext hq
    exact ⟨congrArg _ hanswer, hq'⟩

/-- The same calls are answered alike. -/
theorem perform (h : Likeness R) (hq : R q q') (calls : List (QueueCall τ)) :
    (ReadyQueue.perform q calls).1 = (ReadyQueue.perform q' calls).1 ∧
      R (ReadyQueue.perform q calls).2 (ReadyQueue.perform q' calls).2 := by
  induction calls generalizing q q' with
  | nil => exact ⟨rfl, hq⟩
  | cons c calls ih =>
    obtain ⟨hanswer, hq'⟩ := h.call hq c
    obtain ⟨hanswers, hqs⟩ := ih hq'
    refine ⟨?_, hqs⟩
    rw [ReadyQueue.perform, ReadyQueue.perform, hanswer, hanswers]

theorem isEmpty_eq (h : Likeness R) (hq : R q q') : isEmpty q = isEmpty q' := by
  rw [isEmpty, isEmpty, h.length_eq hq]

end Likeness

/-! ### Loops -/

/-- Attempts that come to the same, up to the queues they leave behind. -/
inductive Advance.Alike (R : Q → Q' → Prop) : Advance Q τ ρ → Advance Q' τ ρ → Prop where
  | idle {q : Q} {q' : Q'} : R q q' → Alike R (.idle q) (.idle q')
  | took {q : Q} {q' : Q'} {turn : Turn τ ρ} : R q q' → Alike R (.took q turn) (.took q' turn)
  | failed {q : Q} {q' : Q'} {turn : Option (Turn τ ρ)} {fault : Fault} : R q q' →
    Alike R (.failed q turn fault) (.failed q' turn fault)

namespace Advance.Alike

variable {R : Q → Q' → Prop} {a : Advance Q τ ρ} {a' : Advance Q' τ ρ} {q : Q}

theorem exists_idle (h : a.Alike R a') (ha : a = .idle q) : ∃ q', a' = .idle q' ∧ R q q' := by
  cases h <;> cases ha
  exact ⟨_, rfl, ‹_›⟩

theorem exists_took {turn : Turn τ ρ} (h : a.Alike R a') (ha : a = .took q turn) :
    ∃ q', a' = .took q' turn ∧ R q q' := by
  cases h <;> cases ha
  exact ⟨_, rfl, ‹_›⟩

theorem exists_failed {turn : Option (Turn τ ρ)} {fault : Fault} (h : a.Alike R a')
    (ha : a = .failed q turn fault) : ∃ q', a' = .failed q' turn fault ∧ R q q' := by
  cases h <;> cases ha
  exact ⟨_, rfl, ‹_›⟩

end Advance.Alike

/-- Operations that come to the same, up to the states they leave behind. -/
structure Progress.Alike {σ : Type w} {σ' : Type w'} (R : σ → σ' → Prop) (d : Progress σ τ ρ)
    (d' : Progress σ' τ ρ) : Prop where
  state : R d.state d'.state
  turns_eq : d.turns = d'.turns
  events_eq : d.events = d'.events
  fault_eq : d.fault = d'.fault

namespace Progress.Alike

variable {σ : Type w} {σ' : Type w'} {R : σ → σ' → Prop} {d : Progress σ τ ρ} {d' : Progress σ' τ ρ}

theorem finishes_eq (h : d.Alike R d') : d.finishes = d'.finishes := by
  rw [finishes, finishes, h.turns_eq]

/-- To go on alike comes to the same. -/
theorem andThen (h : d.Alike R d') {next : σ → Progress σ τ ρ} {next' : σ' → Progress σ' τ ρ}
    (hnext : ∀ s s', R s s' → (next s).Alike R (next' s')) :
    (d.andThen next).Alike R (d'.andThen next') := by
  have hthen := hnext _ _ h.state
  cases hfault : d.fault with
  | none =>
    rw [andThen_of_none hfault, andThen_of_none (h.fault_eq.symm.trans hfault)]
    refine ⟨hthen.state, ?_, ?_, hthen.fault_eq⟩
    · rw [h.turns_eq, hthen.turns_eq]
    · rw [h.events_eq, hthen.events_eq]
  | some fault =>
    rwa [andThen_of_some hfault, andThen_of_some (h.fault_eq.symm.trans hfault)]

end Progress.Alike

namespace ReadyQueue

variable [ReadyQueue Q τ] [Resumable τ ρ] {q q' : Q} {turns : Array (Turn τ ρ)}

theorem drainFrom_of_idle (h : (advance q : Advance Q τ ρ) = .idle q') :
    drainFrom q turns = { state := q', turns } := by
  rw [drainFrom]
  split <;> simp_all

theorem drainFrom_of_failed {turn : Option (Turn τ ρ)} {fault : Fault}
    (h : advance q = .failed q' turn fault) :
    drainFrom q turns = { state := q', turns := turns ++ turn.toArray, fault := some fault } := by
  rw [drainFrom]
  split <;> simp_all

theorem drainFrom_of_took {turn : Turn τ ρ} (h : advance q = .took q' turn) :
    drainFrom q turns = drainFrom q' (turns.push turn) := by
  conv => lhs; rw [drainFrom]
  split <;> simp_all

theorem drainToFinishFrom_of_idle (h : (advance q : Advance Q τ ρ) = .idle q') :
    drainToFinishFrom q turns = { state := q', turns, fault := some .nothingQueued } := by
  rw [drainToFinishFrom]
  split <;> simp_all

theorem drainToFinishFrom_of_failed {turn : Option (Turn τ ρ)} {fault : Fault}
    (h : advance q = .failed q' turn fault) :
    drainToFinishFrom q turns =
      { state := q', turns := turns ++ turn.toArray, fault := some fault } := by
  rw [drainToFinishFrom]
  split <;> simp_all

theorem drainToFinishFrom_of_took {turn : Turn τ ρ} (h : advance q = .took q' turn) :
    drainToFinishFrom q turns =
      if turn.isFinish then { state := q', turns := turns.push turn }
      else drainToFinishFrom q' (turns.push turn) := by
  conv => lhs; rw [drainToFinishFrom]
  split <;> simp_all

end ReadyQueue

namespace Likeness

variable [ReadyQueue Q τ] [ReadyQueue Q' τ] [Resumable τ ρ] {R : Q → Q' → Prop} {q : Q} {q' : Q'}

/-- The next task is the same, and so is what becomes of it. -/
theorem advance (h : Likeness R) (hq : R q q') :
    (ReadyQueue.advance q : Advance Q τ ρ).Alike R (ReadyQueue.advance q') := by
  have htake := h.takeNext hq
  unfold ReadyQueue.advance
  rcases hq₁ : ReadyQueue.takeNext q with ⟨t?, q₁⟩
  rcases hq₁' : ReadyQueue.takeNext q' with ⟨t?', q₁'⟩
  rw [hq₁, hq₁'] at htake
  obtain ⟨rfl : t? = t?', hR⟩ := htake
  cases t? with
  | none => exact .idle hR
  | some t =>
    dsimp only
    split
    · exact .failed hR
    · exact .took hR
    · next t' _ =>
      have hschedule := h.schedule t' hR
      rcases hq₂ : ReadyQueue.schedule q₁ t' with ⟨refusal, q₂⟩
      rcases hq₂' : ReadyQueue.schedule q₁' t' with ⟨refusal', q₂'⟩
      rw [hq₂, hq₂'] at hschedule
      obtain ⟨rfl : refusal = refusal', hR'⟩ := hschedule
      cases refusal with
      | none => exact .took hR'
      | some fault => exact .failed hR'

theorem drainFrom (h : Likeness R) (hq : R q q') (turns : Array (Turn τ ρ)) :
    (ReadyQueue.drainFrom q turns : Progress Q τ ρ).Alike R (ReadyQueue.drainFrom q' turns) := by
  fun_induction ReadyQueue.drainFrom q turns generalizing q' with
  | case1 q turns q₁ hidle =>
    obtain ⟨q₁', hidle', hq₁⟩ := (h.advance hq).exists_idle hidle
    rw [drainFrom_of_idle hidle']
    exact ⟨hq₁, rfl, rfl, rfl⟩
  | case2 q turns q₁ turn fault hfailed =>
    obtain ⟨q₁', hfailed', hq₁⟩ := (h.advance hq).exists_failed hfailed
    rw [drainFrom_of_failed hfailed']
    exact ⟨hq₁, rfl, rfl, rfl⟩
  | case3 q turns q₁ turn htook ih =>
    obtain ⟨q₁', htook', hq₁⟩ := (h.advance hq).exists_took htook
    rw [drainFrom_of_took htook']
    exact ih hq₁

theorem drainToFinishFrom (h : Likeness R) (hq : R q q') (turns : Array (Turn τ ρ)) :
    (ReadyQueue.drainToFinishFrom q turns : Progress Q τ ρ).Alike R
      (ReadyQueue.drainToFinishFrom q' turns) := by
  fun_induction ReadyQueue.drainToFinishFrom q turns generalizing q' with
  | case1 q turns q₁ hidle =>
    obtain ⟨q₁', hidle', hq₁⟩ := (h.advance hq).exists_idle hidle
    rw [drainToFinishFrom_of_idle hidle']
    exact ⟨hq₁, rfl, rfl, rfl⟩
  | case2 q turns q₁ turn fault hfailed =>
    obtain ⟨q₁', hfailed', hq₁⟩ := (h.advance hq).exists_failed hfailed
    rw [drainToFinishFrom_of_failed hfailed']
    exact ⟨hq₁, rfl, rfl, rfl⟩
  | case3 q turns q₁ turn htook hfinish =>
    obtain ⟨q₁', htook', hq₁⟩ := (h.advance hq).exists_took htook
    rw [drainToFinishFrom_of_took htook', if_pos hfinish]
    exact ⟨hq₁, rfl, rfl, rfl⟩
  | case4 q turns q₁ turn htook hfinish ih =>
    obtain ⟨q₁', htook', hq₁⟩ := (h.advance hq).exists_took htook
    rw [drainToFinishFrom_of_took htook', if_neg hfinish]
    exact ih hq₁

/-- To work queues off that behave alike takes the same turns. -/
theorem drain (h : Likeness R) (hq : R q q') :
    (ReadyQueue.drain q : Progress Q τ ρ).Alike R (ReadyQueue.drain q') := h.drainFrom hq #[]

/-- So does waiting for a task to finish. -/
theorem drainToFinish (h : Likeness R) (hq : R q q') :
    (ReadyQueue.drainToFinish q : Progress Q τ ρ).Alike R (ReadyQueue.drainToFinish q') :=
  h.drainToFinishFrom hq #[]

end Likeness

/-! ### Pools -/

/-- Pools with the same streams, over queues that are paired. -/
structure StreamPool.Alike (R : Q → Q' → Prop) (p : StreamPool Q) (p' : StreamPool Q') : Prop where
  queue : R p.queue p'.queue
  limit_eq : p.limit = p'.limit
  free_eq : p.free = p'.free
  peak_eq : p.peak = p'.peak

namespace Likeness

variable [ReadyQueue Q τ] [ReadyQueue Q' τ] {R : Q → Q' → Prop} {q : Q} {q' : Q'}
  {p : StreamPool Q} {p' : StreamPool Q'}

theorem launch (h : Likeness R) (hp : p.Alike R p') (t : τ) :
    (p.launch t : Progress (StreamPool Q) τ ρ).Alike (StreamPool.Alike R) (p'.launch t) := by
  have hschedule := h.schedule t hp.queue
  rcases hqueue : ReadyQueue.schedule p.queue t with ⟨refusal, queue⟩
  rcases hqueue' : ReadyQueue.schedule p'.queue t with ⟨refusal', queue'⟩
  rw [hqueue, hqueue'] at hschedule
  obtain ⟨rfl : refusal = refusal', hR⟩ := hschedule
  cases refusal with
  | none =>
    rw [StreamPool.launch_of_accepted hqueue, StreamPool.launch_of_accepted hqueue', hp.limit_eq,
      hp.free_eq, hp.peak_eq]
    exact ⟨⟨hR, rfl, rfl, rfl⟩, rfl, rfl, rfl⟩
  | some fault =>
    rw [StreamPool.launch_of_refused hqueue, StreamPool.launch_of_refused hqueue']
    exact ⟨⟨hR, hp.limit_eq, hp.free_eq, hp.peak_eq⟩, rfl, rfl, rfl⟩

variable [Resumable τ ρ]

omit [ReadyQueue Q τ] [ReadyQueue Q' τ] [Resumable τ ρ] in
theorem letWork (hp : p.Alike R p') {work : Q → Progress Q τ ρ} {work' : Q' → Progress Q' τ ρ}
    (hwork : (work p.queue).Alike R (work' p'.queue)) :
    (p.letWork work).Alike (StreamPool.Alike R) (p'.letWork work') := by
  refine ⟨⟨hwork.state, hp.limit_eq, ?_, hp.peak_eq⟩, hwork.turns_eq, hwork.events_eq,
    hwork.fault_eq⟩
  rw [StreamPool.letWork, StreamPool.letWork, hp.free_eq, hwork.finishes_eq]

theorem spawn (h : Likeness R) (hp : p.Alike R p') (t : τ) :
    (p.spawn t : Progress (StreamPool Q) τ ρ).Alike (StreamPool.Alike R) (p'.spawn t) := by
  unfold StreamPool.spawn
  rw [hp.free_eq]
  split
  · have hwait := letWork hp (h.drainToFinish hp.queue (ρ := ρ))
    have hawait : (p.awaitStream : Progress (StreamPool Q) τ ρ).Alike (StreamPool.Alike R)
        p'.awaitStream := by
      refine ⟨hwait.state, hwait.turns_eq, ?_, hwait.fault_eq⟩
      rw [StreamPool.awaitStream, StreamPool.awaitStream, hp.limit_eq]
    exact hawait.andThen fun _ _ hp => h.launch hp t
  · exact h.launch hp t

/-- Admitting tasks one after the other comes to the same. -/
theorem spawnAll (h : Likeness R) (hp : p.Alike R p') (ts : List τ) :
    (p.spawnAll ts : Progress (StreamPool Q) τ ρ).Alike (StreamPool.Alike R) (p'.spawnAll ts) := by
  unfold StreamPool.spawnAll
  have hstart : ({ state := p } : Progress (StreamPool Q) τ ρ).Alike (StreamPool.Alike R)
      ({ state := p' } : Progress (StreamPool Q') τ ρ) := ⟨hp, rfl, rfl, rfl⟩
  generalize ({ state := p } : Progress (StreamPool Q) τ ρ) = d at hstart ⊢
  generalize ({ state := p' } : Progress (StreamPool Q') τ ρ) = d' at hstart ⊢
  induction ts generalizing d d' with
  | nil => exact hstart
  | cons t ts ih => exact ih _ _ (hstart.andThen fun _ _ hp => h.spawn hp t)

theorem run (h : Likeness R) (hp : p.Alike R p') :
    (p.run : Progress (StreamPool Q) τ ρ).Alike (StreamPool.Alike R) p'.run :=
  letWork hp (h.drain hp.queue)

theorem close (h : Likeness R) (hp : p.Alike R p') :
    (p.close : Progress Q τ ρ).Alike R p'.close :=
  h.drain hp.queue

end Likeness

end BulkLookup
