import SampleStream.Proofs.Session.Turns
import SampleStream.Session.Operation

/-!
# Sessions whose parts may go

A part that is there takes its turn, and each part may go at any time. Whatever has happened, a history is
sound as long as its processor is there, so that what is proved of sound histories holds in every state
that a session can reach.
-/

namespace SampleStream

universe u v w

variable {α : Type v} {σ : Type u}

/-- The part whose turn it is is there. -/
def Turn.isPossible (s : Session α σ) : Turn α σ → Bool
  | .load _ | .tryReady | .waitReady _ _ => s.controllerAlive
  | .process _ => s.processorAlive
  | .handle _ => s.workerAlive

/-- What may happen to a session. -/
inductive Move (α : Type v) (σ : Type u)
  | turn (turn : Turn α σ)
  | dropController
  | dropProcessor
  | dropWorker

namespace Session

variable {s : Session α σ}

-- Things that are dropped one after the other leave their trace only.
theorem foldl_drop_eq {β : Type w} {drop : Session α σ → β → Session α σ}
    (hdrop : ∀ s b, ∃ trace, drop s b = { s with trace }) (bs : List β) (s : Session α σ) :
    ∃ trace, bs.foldl drop s = { s with trace } := by
  induction bs generalizing s with
  | nil => exact ⟨s.trace, rfl⟩
  | cons b bs ih =>
    obtain ⟨trace, htrace⟩ := hdrop s b
    obtain ⟨rest, hrest⟩ := ih (drop s b)
    rw [htrace] at hrest
    exact ⟨rest, by rw [List.foldl_cons, htrace, hrest]⟩

theorem dropOutcome_eq (s : Session α σ) (o : LoadOutcome σ) :
    ∃ trace, s.dropOutcome o = { s with trace } := by
  cases o with
  | loaded p => exact ⟨_, rfl⟩
  | failed generation => exact ⟨s.trace, rfl⟩

theorem dropRequest_eq (s : Session α σ) (r : Request α σ) :
    ∃ trace, s.dropRequest r = { s with trace } := by
  cases r with
  | instantiate generation source => exact ⟨s.trace, rfl⟩
  | retire m => exact ⟨_, rfl⟩

theorem dropQueues_eq (s : Session α σ) : ∃ trace, s.dropQueues =
    { s with requests := s.requests.clear, outcomes := s.outcomes.clear, trace } := by
  obtain ⟨trace, htrace⟩ := foldl_drop_eq dropRequest_eq s.requests.items
    { s with requests := s.requests.clear, outcomes := s.outcomes.clear }
  obtain ⟨rest, hrest⟩ := foldl_drop_eq dropOutcome_eq s.outcomes.items
    (s.requests.items.foldl dropRequest
      { s with requests := s.requests.clear, outcomes := s.outcomes.clear })
  rw [htrace] at hrest
  exact ⟨rest, by rw [dropQueues, htrace, hrest]⟩

theorem dropActive_eq (slot : Option (Active σ)) (s : Session α σ) :
    ∃ trace, s.dropActive slot = { s with trace } := by
  cases slot with
  | some a => exact ⟨_, rfl⟩
  | none => exact ⟨s.trace, rfl⟩

-- A processor that goes leaves nothing in its slot, and nothing in the queues if it is the last.
theorem dropProcessor_eq (s : Session α σ) : ∃ requests outcomes trace,
    s.dropProcessor = { s with
      processorAlive := false, requests, outcomes, trace
      processor := { s.processor with active := none, parked := none } } ∧
    (s.workerAlive = false → requests.items = [] ∧ outcomes.items = []) := by
  let gone : Session α σ := { s with
    processorAlive := false
    processor := { s.processor with active := none, parked := none } }
  obtain ⟨trace, hactive⟩ := gone.dropActive_eq s.processor.active
  obtain ⟨rest, hparked⟩ := (gone.dropActive s.processor.active).dropActive_eq s.processor.parked
  have hslot : (gone.dropActive s.processor.active).dropActive s.processor.parked =
      { gone with trace := rest } := by
    rw [hparked, hactive]
  obtain ⟨last, hqueues⟩ := dropQueues_eq { gone with trace := rest }
  have hdrop : s.dropProcessor = if s.workerAlive then
      (gone.dropActive s.processor.active).dropActive s.processor.parked
    else ((gone.dropActive s.processor.active).dropActive s.processor.parked).dropQueues := rfl
  rw [hdrop, hslot, hqueues]
  by_cases hworker : s.workerAlive = true
  · exact ⟨s.requests, s.outcomes, rest, if_pos hworker, by rw [hworker]; nofun⟩
  · exact ⟨s.requests.clear, s.outcomes.clear, last, if_neg hworker, fun _ => ⟨rfl, rfl⟩⟩

theorem processorAlive_dropProcessor (s : Session α σ) : s.dropProcessor.processorAlive = false := by
  obtain ⟨requests, outcomes, trace, heq, -⟩ := s.dropProcessor_eq
  rw [heq]

theorem dropWorker_eq (halive : s.processorAlive = true) :
    s.dropWorker = { s with workerAlive := false } :=
  if_pos halive

-- A worker that goes leaves nothing in the queues if it is the last.
theorem dropWorker_cases (s : Session α σ) : ∃ requests outcomes trace,
    s.dropWorker = { s with workerAlive := false, requests, outcomes, trace } ∧
    (s.processorAlive = false → requests.items = [] ∧ outcomes.items = []) := by
  by_cases hprocessor : s.processorAlive = true
  · exact ⟨s.requests, s.outcomes, s.trace, dropWorker_eq hprocessor, by rw [hprocessor]; nofun⟩
  · obtain ⟨trace, hqueues⟩ := dropQueues_eq { s with workerAlive := false }
    exact ⟨s.requests.clear, s.outcomes.clear, trace, (if_neg hprocessor).trans hqueues,
      fun _ => ⟨rfl, rfl⟩⟩

-- Whoever goes leaves the queues as they are, or lets go of all that they hold.
theorem queues_dropQueues (s : Session α σ) :
    s.dropQueues.requests = s.requests.clear ∧ s.dropQueues.outcomes = s.outcomes.clear := by
  obtain ⟨trace, hqueues⟩ := s.dropQueues_eq
  rw [hqueues]
  exact ⟨rfl, rfl⟩

theorem queues_dropProcessor (s : Session α σ) :
    (s.dropProcessor.requests = s.requests ∧ s.dropProcessor.outcomes = s.outcomes) ∨
      (s.dropProcessor.requests = s.requests.clear ∧ s.dropProcessor.outcomes = s.outcomes.clear) := by
  let gone : Session α σ := { s with
    processorAlive := false
    processor := { s.processor with active := none, parked := none } }
  obtain ⟨trace, hactive⟩ := gone.dropActive_eq s.processor.active
  obtain ⟨rest, hparked⟩ := (gone.dropActive s.processor.active).dropActive_eq s.processor.parked
  have hdrop : s.dropProcessor = if s.workerAlive then
      (gone.dropActive s.processor.active).dropActive s.processor.parked
    else ((gone.dropActive s.processor.active).dropActive s.processor.parked).dropQueues := rfl
  rw [hdrop, hparked, hactive]
  split
  · exact .inl ⟨rfl, rfl⟩
  · exact .inr (queues_dropQueues _)

theorem queues_dropWorker (s : Session α σ) :
    (s.dropWorker.requests = s.requests ∧ s.dropWorker.outcomes = s.outcomes) ∨
      (s.dropWorker.requests = s.requests.clear ∧ s.dropWorker.outcomes = s.outcomes.clear) := by
  unfold dropWorker
  dsimp only
  split
  · exact .inl ⟨rfl, rfl⟩
  · exact .inr (queues_dropQueues _)

theorem processorAlive_dropWorker (s : Session α σ) :
    s.dropWorker.processorAlive = s.processorAlive := by
  obtain ⟨requests, outcomes, trace, heq, -⟩ := s.dropWorker_cases
  rw [heq]

theorem deliver_eq {o : LoadOutcome σ} {next : Session α σ} (h : s.deliver o = some next) :
    ∃ outcomes trace, next = { s with outcomes, trace } := by
  unfold deliver at h
  split at h
  · obtain ⟨outcomes, -, rfl⟩ := Option.map_eq_some_iff.mp h
    exact ⟨outcomes, s.trace, rfl⟩
  · obtain ⟨trace, htrace⟩ := s.dropOutcome_eq o
    rw [htrace] at h
    cases h
    exact ⟨s.outcomes, trace, rfl⟩

variable [CompiledModule σ]

-- The worker concerns itself with its queues, whoever else is there.
theorem handleNext_eq {load : α → Except LoadError σ} {next : Session α σ}
    (h : s.handleNext load = some next) : ∃ requests outcomes reports loads trace,
      next = { s with requests, outcomes, reports, loads, trace } := by
  unfold handleNext at h
  cases hitems : s.requests.items with
  | nil =>
    rw [hitems] at h
    cases h
    exact ⟨s.requests, s.outcomes, s.reports, s.loads, s.trace, rfl⟩
  | cons request rest =>
    rw [hitems] at h
    let t : Session α σ := { s with requests := { s.requests with items := rest } }
    change t.handle load request = some next at h
    cases request with
    | retire m =>
      cases h
      exact ⟨_, s.outcomes, s.reports, s.loads, _, rfl⟩
    | instantiate generation source =>
      obtain ⟨result, events, hprepare, -⟩ := prepare_cases load generation source t
      let tried : Session α σ := { t with loads := t.loads + 1, trace := events ++ t.trace }
      unfold handle at h
      dsimp only at h
      rw [hprepare] at h
      cases result with
      | ok p =>
        change tried.deliver (.loaded p) = some next at h
        obtain ⟨outcomes, trace, rfl⟩ := deliver_eq h
        exact ⟨_, outcomes, s.reports, _, trace, rfl⟩
      | error e =>
        obtain ⟨reports, hreport⟩ := tried.report_eq ⟨generation, e⟩
        change (tried.report ⟨generation, e⟩).deliver (.failed generation) = some next at h
        rw [hreport] at h
        obtain ⟨outcomes, trace, rfl⟩ := deliver_eq h
        exact ⟨_, outcomes, reports, _, trace, rfl⟩

end Session

namespace History

variable [CompiledModule σ]

/-- The history after one more move. What needs a part that is gone does nothing. -/
def move (h : History α σ) : Move α σ → History α σ
  | .turn turn => if turn.isPossible h.session then h.turn turn else h
  | .dropController =>
    if h.session.controllerAlive then { h with session := h.session.dropController } else h
  | .dropProcessor =>
    if h.session.processorAlive then { h with session := h.session.dropProcessor } else h
  | .dropWorker => if h.session.workerAlive then { h with session := h.session.dropWorker } else h

def through (h : History α σ) (moves : List (Move α σ)) : History α σ :=
  moves.foldl move h

theorem through_append (h : History α σ) (moves rest : List (Move α σ)) :
    h.through (moves ++ rest) = (h.through moves).through rest :=
  List.foldl_append

-- A turn is a quantum, a request that is handled, or the controller's business with its own queues.
theorem turn_cases (h : History α σ) (turn : Turn α σ) : (∃ channels, turn = .process channels) ∨
    (∃ load next, turn = .handle load ∧ h.session.handleNext load = some next ∧
      h.turn turn = ⟨next, h.deeds⟩) ∨
    ∃ sent control acks reports,
      h.turn turn = ⟨{ h.session with sent, control, acks, reports }, h.deeds⟩ := by
  cases turn with
  | process channels => exact .inl ⟨channels, rfl⟩
  | handle load =>
    have hturn : h.turn (.handle load) = ⟨(h.session.handleNext load).getD h.session, h.deeds⟩ := rfl
    rw [hturn]
    cases hnext : h.session.handleNext load with
    | none => exact .inr (.inr ⟨_, _, _, _, rfl⟩)
    | some next => exact .inr (.inl ⟨load, next, rfl, hnext, rfl⟩)
  | load source =>
    obtain ⟨acks, control, sent, heq⟩ := h.session.load_eq source
    exact .inr (.inr ⟨sent, control, acks, _, congrArg (History.mk · h.deeds) heq⟩)
  | tryReady =>
    obtain ⟨acks, reports, heq, -⟩ := h.session.tryReady_eq
    exact .inr (.inr ⟨_, _, acks, reports, congrArg (History.mk · h.deeds) heq⟩)
  | waitReady ackFirst microseconds =>
    obtain ⟨acks, reports, heq, -⟩ := h.session.waitReadyFor_eq ackFirst microseconds _
    exact .inr (.inr ⟨_, _, acks, reports, congrArg (History.mk · h.deeds) heq⟩)

/-- What a move makes of a session, whichever parts are there. -/
inductive Moved (s : Session α σ) : Move α σ → Session α σ → Prop
  | processed (channels : List (List Sample)) (halive : s.processorAlive = true) :
    Moved s (.turn (.process channels)) (s.process channels).2
  | handled {load : α → Except LoadError σ} {next : Session α σ} (halive : s.workerAlive = true)
    (hnext : s.handleNext load = some next) : Moved s (.turn (.handle load)) next
  | processorGone (halive : s.processorAlive = true) : Moved s .dropProcessor s.dropProcessor
  | workerGone (halive : s.workerAlive = true) : Moved s .dropWorker s.dropWorker
  /-- the controller goes, or does its business with its own queues, or nothing happens at all -/
  | aside {move : Move α σ} (controllerAlive : Bool) (sent : Nat) (control : Queue α) (acks : Queue Unit)
    (reports : Queue LoadReport)
    (hidle : ∀ load, move = .turn (.handle load) → s.workerAlive = true → s.handleNext load = none) :
    Moved s move { s with controllerAlive, sent, control, acks, reports }

theorem moved (h : History α σ) (move : Move α σ) : Moved h.session move (h.move move).session := by
  have hnothing {move : Move α σ} (hidle : ∀ load, move = .turn (.handle load) →
      h.session.workerAlive = true → h.session.handleNext load = none) :
      Moved h.session move h.session :=
    .aside h.session.controllerAlive h.session.sent h.session.control h.session.acks h.session.reports hidle
  cases move with
  | dropController =>
    rw [History.move]
    split
    · exact .aside false h.session.sent h.session.control h.session.acks h.session.reports nofun
    · exact hnothing nofun
  | dropProcessor =>
    rw [History.move]
    split
    · exact .processorGone ‹_›
    · exact hnothing nofun
  | dropWorker =>
    rw [History.move]
    split
    · exact .workerGone ‹_›
    · exact hnothing nofun
  | turn turn =>
    by_cases hpossible : turn.isPossible h.session = true
    · rw [History.move, if_pos hpossible]
      by_cases hhandle : ∃ load, turn = .handle load
      · obtain ⟨load, rfl⟩ := hhandle
        have hturn : (h.turn (.handle load)).session = (h.session.handleNext load).getD h.session := rfl
        rw [hturn]
        cases hnext : h.session.handleNext load with
        | none =>
          refine hnothing fun other hsame _ => ?_
          cases hsame
          exact hnext
        | some next => exact .handled hpossible hnext
      · rcases h.turn_cases turn with ⟨channels, rfl⟩ | ⟨load, next, rfl, -, -⟩ |
          ⟨sent, control, acks, reports, heq⟩
        · exact .processed channels hpossible
        · exact absurd ⟨load, rfl⟩ hhandle
        · rw [heq]
          refine .aside h.session.controllerAlive sent control acks reports fun load hturn _ => ?_
          exact absurd ⟨load, Move.turn.inj hturn⟩ hhandle
    · rw [History.move, if_neg hpossible]
      refine hnothing fun load hturn hworker => absurd ?_ hpossible
      cases hturn
      exact hworker

-- A worker that never waits is idle only when it has gone.
theorem workerAlive_of_idle {s : Session α σ} {move : Move α σ}
    (hidle : ∀ load, move = .turn (.handle load) → s.workerAlive = true → s.handleNext load = none)
    (hhandles : ∀ load, (s.handleNext load).isSome = true) {load : α → Except LoadError σ}
    (hmove : move = .turn (.handle load)) : s.workerAlive = false := by
  refine Bool.eq_false_iff.mpr fun hworker => ?_
  have hsome := hhandles load
  rw [hidle load hmove hworker] at hsome
  cases hsome

-- A move that leaves the processor there is a turn, or the departure of another part, of which the
-- processor takes no notice.
theorem move_cases {h : History α σ} {move : Move α σ}
    (halive : (h.move move).session.processorAlive = true) :
    h.session.processorAlive = true ∧
      ((∃ turn, move = .turn turn ∧ turn.isPossible h.session = true ∧ h.move move = h.turn turn) ∨
        ∃ controllerAlive workerAlive,
          h.move move = ⟨{ h.session with controllerAlive, workerAlive }, h.deeds⟩) := by
  cases move with
  | dropController =>
    by_cases hthere : h.session.controllerAlive = true
    · rw [History.move, if_pos hthere] at halive ⊢
      exact ⟨halive, .inr ⟨false, h.session.workerAlive, rfl⟩⟩
    · rw [History.move, if_neg hthere] at halive ⊢
      exact ⟨halive, .inr ⟨h.session.controllerAlive, h.session.workerAlive, rfl⟩⟩
  | dropProcessor =>
    by_cases hthere : h.session.processorAlive = true
    · rw [History.move, if_pos hthere] at halive
      rw [Session.processorAlive_dropProcessor] at halive
      cases halive
    · rw [History.move, if_neg hthere] at halive
      exact absurd halive hthere
  | dropWorker =>
    by_cases hthere : h.session.workerAlive = true
    · rw [History.move, if_pos hthere] at halive ⊢
      rw [Session.processorAlive_dropWorker] at halive
      exact ⟨halive, .inr ⟨h.session.controllerAlive, false, by rw [Session.dropWorker_eq halive]⟩⟩
    · rw [History.move, if_neg hthere] at halive ⊢
      exact ⟨halive, .inr ⟨h.session.controllerAlive, h.session.workerAlive, rfl⟩⟩
  | turn turn =>
    by_cases hpossible : turn.isPossible h.session = true
    · rw [History.move, if_pos hpossible] at halive ⊢
      refine ⟨?_, .inl ⟨turn, rfl, hpossible, rfl⟩⟩
      rcases h.turn_cases turn with ⟨channels, rfl⟩ | ⟨load, next, rfl, hnext, heq⟩ | ⟨_, _, _, _, heq⟩
      · exact hpossible
      · obtain ⟨_, _, _, _, _, rfl⟩ := Session.handleNext_eq hnext
        rwa [heq] at halive
      · rwa [heq] at halive
    · rw [History.move, if_neg hpossible] at halive ⊢
      exact ⟨halive, .inr ⟨h.session.controllerAlive, h.session.workerAlive, rfl⟩⟩

theorem processorAlive_of_through {h : History α σ} {moves : List (Move α σ)}
    (halive : (h.through moves).session.processorAlive = true) : h.session.processorAlive = true := by
  induction moves generalizing h with
  | nil => exact halive
  | cons move moves ih => exact (move_cases (ih halive)).1

-- What holds at first, and is kept by every move that leaves the processor there, holds as long as the
-- processor is there.
theorem through_induction {P : History α σ → Prop} {h : History α σ} (hstart : P h)
    (hmove : ∀ (k : History α σ) (move : Move α σ), P k →
      (k.move move).session.processorAlive = true → P (k.move move))
    (moves : List (Move α σ)) (halive : (h.through moves).session.processorAlive = true) :
    P (h.through moves) := by
  induction moves generalizing h with
  | nil => exact hstart
  | cons move moves ih => exact ih (hmove h move hstart (processorAlive_of_through halive)) halive

-- The worker stays through its own turns.
theorem through_handle {h : History α σ} (halive : h.session.workerAlive = true)
    (load : α → Except LoadError σ) (count : Nat) :
    h.through (List.replicate count (.turn (.handle load))) =
      h.after (List.replicate count (.handle load)) := by
  induction count generalizing h with
  | zero => rfl
  | succ count ih =>
    have hmove : h.move (.turn (.handle load)) = h.turn (.handle load) := if_pos halive
    have hstays : (h.turn (.handle load)).session.workerAlive = true := by
      rcases h.turn_cases (.handle load) with ⟨_, hturn⟩ | ⟨_, next, -, hnext, heq⟩ | ⟨_, _, _, _, heq⟩
      · cases hturn
      · obtain ⟨_, _, _, _, _, rfl⟩ := Session.handleNext_eq hnext
        rw [heq]
        exact halive
      · rw [heq]
        exact halive
    rw [List.replicate_succ, List.replicate_succ]
    exact (congrArg (through · _) hmove).trans (ih hstays)

-- A turn and an operation that ask for the same part and do the same if it is there.
theorem exists_turns_of_ite {h : History α σ} (turn : Turn α σ) {result done : Answer × Session α σ}
    (hresult : result = if turn.isPossible h.session then done else (.missing, h.session))
    (hdone : done.2 = (h.turn turn).session) :
    ∃ turns : List (Turn α σ), h.through (turns.map .turn) = h.after turns ∧
      (h.after turns).session = result.2 := by
  by_cases hpossible : turn.isPossible h.session = true
  · refine ⟨[turn], if_pos hpossible, ?_⟩
    rw [hresult, if_pos hpossible]
    exact hdone.symm
  · refine ⟨[], rfl, ?_⟩
    rw [hresult, if_neg hpossible]
    rfl

-- An operation that drops no part consists of turns, each of a part that is there.
theorem exists_turns (load : α → Except LoadError σ) (h : History α σ) {op : Operation α}
    (hkeeps : op ≠ .dropController ∧ op ≠ .dropProcessor ∧ op ≠ .dropWorker) :
    ∃ turns : List (Turn α σ), h.through (turns.map .turn) = h.after turns ∧
      (h.after turns).session = (h.session.step load op).2 := by
  have hrun {answer : Nat → Answer} (halive : h.session.workerAlive = true) :
      ∃ turns : List (Turn α σ), h.through (turns.map .turn) = h.after turns ∧
        (h.after turns).session = (Session.served answer h.session (h.session.runPending load)).2 := by
    cases hpending : h.session.runPending load with
    | none => exact ⟨[], rfl, rfl⟩
    | some result =>
      refine ⟨_, ?_, h.runPending_turns hpending⟩
      rw [List.map_replicate]
      exact through_handle halive load result.1
  cases op with
  | load source => exact exists_turns_of_ite (.load source) rfl (Session.answered_snd _ _)
  | process channels => exact exists_turns_of_ite (.process channels) rfl rfl
  | status => exact ⟨[], rfl, by rw [Session.step]; split <;> rfl⟩
  | runPending =>
    rw [Session.step]
    split
    · exact hrun ‹_›
    · exact ⟨[], rfl, rfl⟩
  | serve =>
    rw [Session.step]
    split
    · rename_i hserves
      exact hrun (Bool.and_eq_true_iff.mp hserves).1
    · exact ⟨[], rfl, rfl⟩
  | tryReady => exact exists_turns_of_ite .tryReady rfl (Session.answered_snd _ _)
  | waitReady microseconds =>
    exact exists_turns_of_ite (.waitReady (fun _ => true) microseconds) rfl (Session.answered_snd _ _)
  | dropController => exact absurd rfl hkeeps.1
  | dropProcessor => exact absurd rfl hkeeps.2.1
  | dropWorker => exact absurd rfl hkeeps.2.2

-- Every operation consists of moves: of turns, or of the departure of a part that is there.
theorem exists_moves (load : α → Except LoadError σ) (h : History α σ) (op : Operation α) :
    ∃ moves, (h.through moves).session = (h.session.step load op).2 := by
  have hgone {there : Bool} {next : History α σ} {result done : Answer × Session α σ} (move : Move α σ)
      (hmove : h.move move = if there then next else h)
      (hresult : result = if there then done else (.missing, h.session)) (hdone : done.2 = next.session) :
      ∃ moves, (h.through moves).session = result.2 := by
    refine ⟨[move], ?_⟩
    change (h.move move).session = result.2
    rw [hmove, hresult]
    split
    · exact hdone.symm
    · rfl
  have hkept (hkeeps : op ≠ .dropController ∧ op ≠ .dropProcessor ∧ op ≠ .dropWorker) :
      ∃ moves, (h.through moves).session = (h.session.step load op).2 := by
    obtain ⟨turns, hthrough, hsession⟩ := exists_turns load h hkeeps
    exact ⟨turns.map .turn, (congrArg session hthrough).trans hsession⟩
  cases op with
  | dropController => exact hgone .dropController rfl rfl rfl
  | dropProcessor => exact hgone .dropProcessor rfl rfl rfl
  | dropWorker => exact hgone .dropWorker rfl rfl rfl
  | _ => exact hkept ⟨nofun, nofun, nofun⟩

namespace Sound

variable {h : History α σ}

theorem move (hs : h.Sound h.session.outcomes.items) {move : Move α σ}
    (halive : (h.move move).session.processorAlive = true) :
    (h.move move).Sound (h.move move).session.outcomes.items := by
  obtain ⟨-, ⟨turn, -, -, hturn⟩ | ⟨controllerAlive, workerAlive, hgone⟩⟩ := move_cases halive
  · rw [hturn]
    exact (hs.turn turn).1
  · rw [hgone]
    exact ⟨hs.slot, hs.alive, hs.fresh, hs.old, hs.gone, hs.discarded⟩

theorem through (hs : h.Sound h.session.outcomes.items) (moves : List (Move α σ))
    (halive : (h.through moves).session.processorAlive = true) :
    (h.through moves).Sound (h.through moves).session.outcomes.items :=
  through_induction (P := fun k => k.Sound k.session.outcomes.items) hs
    (fun _ _ hk hmove => hk.move hmove) moves halive

end Sound

end History

end SampleStream
