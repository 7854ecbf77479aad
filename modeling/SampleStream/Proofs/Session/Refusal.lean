import SampleStream.Proofs.Session.Readiness
import SampleStream.Session.Operation

/-!
# Loads that are refused

Sending a load throws unread acknowledgments away before it is known whether the load finds room. A full queue
of loads and an unread acknowledgment do not come together, so that a load refused for want of room changes
nothing. One refused because the processor has gone may take an acknowledgment with it, and then whoever looks
for readiness is told of the departure instead (`History.refused_load`).
-/

namespace SampleStream

universe u v

variable {α : Type v} {σ : Type u}

/-- What the controller may do to find out how the latest load went. As of every wait,
the end is a time that the clock can tell. -/
inductive Check
  | look
  | wait (ackFirst : Nat → Bool) (microseconds : Nat)

/-- The answer where an acknowledgment is missing, and nobody is there to send one. -/
def Answer.hungUp : Answer → Answer
  | .ready _ => .refused .disconnected
  | answer => answer

namespace Session

variable {s : Session α σ}

def check (s : Session α σ) : Check → Answer × Session α σ
  | .look => answered .ready s.tryReady
  | .wait ackFirst microseconds => answered (fun _ => .ready true) (s.waitReady ackFirst microseconds)

/-- What the checks answer, one after the other, while nobody else does anything. -/
def checks (s : Session α σ) : List Check → List Answer
  | [] => []
  | c :: cs => (s.check c).1 :: (s.check c).2.checks cs

/-- The session without what is unread of acknowledgments. -/
def forgotten (s : Session α σ) : Session α σ :=
  { s with acks := s.acks.clear }

theorem forgotten_of_read (hnone : s.acks.items = []) : s.forgotten = s := by
  have hclear : s.acks.clear = s.acks := by
    unfold Queue.clear
    rw [← hnone]
  unfold forgotten
  rw [hclear]

/-- The same answer without an acknowledgment. -/
def withoutAck {β : Type} : Except ProtocolError β → Except ProtocolError β
  | .ok _ => .error .disconnected
  | .error e => .error e

-- Once the processor has gone, an acknowledgment is taken or its absence is final.
theorem takeAck_forgotten {β : Type} (hgone : s.processorAlive = false) (present : β)
    (absent : Except ProtocolError β) : s.forgotten.takeAck present absent =
      (withoutAck (s.takeAck present absent).1, (s.takeAck present absent).2.forgotten) := by
  have hfinal : s.forgotten.takeAck present absent = (.error .disconnected, s.forgotten) := by
    change (if s.processorAlive then absent else .error .disconnected, s.forgotten) = _
    rw [hgone]
    rfl
  rw [hfinal]
  unfold takeAck
  cases s.acks.items with
  | nil =>
    rw [hgone]
    rfl
  | cons ack rest => rfl

theorem tryReady_forgotten (hgone : s.processorAlive = false) : s.forgotten.tryReady =
    (withoutAck s.tryReady.1, s.tryReady.2.forgotten) := by
  have hsent : s.forgotten.sent = s.sent := rfl
  have hreports : s.forgotten.reports = s.reports := rfl
  unfold tryReady
  rw [hsent, hreports]
  generalize findReport s.sent s.reports.items = found
  obtain ⟨_ | error, rest⟩ := found
  · exact takeAck_forgotten (s := s.withReports rest) hgone true (.ok false)
  · rfl

-- Since nobody is there to wait for, a wait reads the same reports with and without an acknowledgment.
theorem waitReadyFor_forgotten (hgone : s.processorAlive = false) (ackFirst : Nat → Bool)
    (microseconds fuel : Nat) : s.forgotten.waitReadyFor ackFirst microseconds fuel =
      (withoutAck (s.waitReadyFor ackFirst microseconds fuel).1,
        (s.waitReadyFor ackFirst microseconds fuel).2.forgotten) := by
  induction fuel generalizing s with
  | zero => exact takeAck_forgotten hgone _ _
  | succ fuel ih =>
    have hready (t : Session α σ) (ht : t.processorAlive = false) :
        (!t.acks.items.isEmpty || !t.processorAlive) = true := by
      rw [ht]
      exact Bool.or_true _
    have hsent : s.forgotten.sent = s.sent := rfl
    have hreports : s.forgotten.reports = s.reports := rfl
    unfold waitReadyFor
    dsimp only
    rw [hready s hgone, hready s.forgotten hgone, hsent, hreports]
    cases ackFirst fuel with
    | true => exact takeAck_forgotten hgone _ _
    | false =>
      cases s.reports.items with
      | nil => exact takeAck_forgotten hgone _ _
      | cons r rest =>
        by_cases hlatest : r.generation = s.sent
        · simp only [Bool.and_false, Bool.false_eq_true, if_false, if_pos hlatest]
          rfl
        · simp only [Bool.and_false, Bool.false_eq_true, if_false, if_neg hlatest]
          exact ih (s := s.withReports rest) hgone

theorem answered_forgotten {β : Type} {answer : β → Answer} (ready : β → Bool)
    (hanswer : ∀ b, answer b = .ready (ready b)) (result : Except ProtocolError β × Session α σ) :
    answered answer (withoutAck result.1, result.2.forgotten) =
      ((answered answer result).1.hungUp, (answered answer result).2.forgotten) := by
  obtain ⟨_ | b, t⟩ := result
  · rfl
  · unfold answered
    dsimp only
    rw [hanswer]
    rfl

theorem check_forgotten (hgone : s.processorAlive = false) (c : Check) :
    s.forgotten.check c = ((s.check c).1.hungUp, (s.check c).2.forgotten) := by
  cases c with
  | look =>
    unfold check
    rw [tryReady_forgotten hgone]
    exact answered_forgotten id (fun _ => rfl) _
  | wait ackFirst microseconds =>
    unfold check waitReady
    change answered (fun _ => .ready true) (s.forgotten.waitReadyFor ackFirst microseconds _) = _
    rw [waitReadyFor_forgotten hgone]
    exact answered_forgotten (fun _ => true) (fun _ => rfl) _

theorem processorAlive_check (s : Session α σ) (c : Check) :
    (s.check c).2.processorAlive = s.processorAlive := by
  cases c with
  | look =>
    obtain ⟨acks, reports, heq, -⟩ := s.tryReady_eq
    unfold check
    rw [answered_snd, heq]
  | wait ackFirst microseconds =>
    obtain ⟨acks, reports, heq, -⟩ :=
      s.waitReadyFor_eq ackFirst microseconds (s.reports.items.length + 1)
    unfold check waitReady
    rw [answered_snd, heq]

-- What is forgotten is missed where it would have been told, and nowhere else.
theorem checks_forgotten (hgone : s.processorAlive = false) (cs : List Check) :
    s.forgotten.checks cs = (s.checks cs).map Answer.hungUp := by
  induction cs generalizing s with
  | nil => rfl
  | cons c cs ih =>
    have hstill : (s.check c).2.processorAlive = false := (s.processorAlive_check c).trans hgone
    unfold checks
    rw [check_forgotten hgone, ih hstill]
    rfl

-- A load is refused for want of room, or since nobody is there to take it on.
theorem load_refused {source : α} {error : ProtocolError} (h : (s.load source).1 = .error error) :
    (s.load source).2 = s.forgotten ∧
      (error = .full ∧ s.processorAlive = true ∧ s.control.isFull = true ∨
        error = .disconnected ∧ s.processorAlive = false) := by
  cases halive : s.processorAlive with
  | false =>
    have hload : s.load source = (.error .disconnected, s.forgotten) :=
      if_neg (Bool.eq_false_iff.mp halive)
    rw [hload] at h ⊢
    cases h
    exact ⟨rfl, .inr ⟨rfl, rfl⟩⟩
  | true =>
    unfold load Queue.push? at h ⊢
    dsimp only at h ⊢
    rw [if_pos halive] at h ⊢
    by_cases hfull : s.control.isFull = true
    · rw [if_pos hfull] at h ⊢
      cases h
      exact ⟨rfl, .inl ⟨rfl, rfl, hfull⟩⟩
    · rw [if_neg hfull] at h
      cases h

/-- What a refused load leaves of a session. -/
structure Refused (s next : Session α σ) (error : ProtocolError) : Prop where
  reason : error = .full ∧ s.processorAlive = true ∨ error = .disconnected ∧ s.processorAlive = false
  full : error = .full → next = s
  /-- What is unread of acknowledgments is thrown away, and nothing else. -/
  gone : error = .disconnected → next = s.forgotten
  read : s.acks.items = [] → next = s
  checks : ∀ cs, next.checks cs =
    if error = .full then s.checks cs else (s.checks cs).map Answer.hungUp

end Session

namespace History

variable [CompiledModule σ] {h : History α σ}

-- Loads are sent only through a queue that has room for some.
theorem Sound.room_of_sent (hs : h.Sound h.session.outcomes.items)
    (hroom : 0 < h.session.sent → 0 < h.session.control.capacity) {move : Move α σ}
    (halive : (h.move move).session.processorAlive = true) :
    0 < (h.move move).session.sent → 0 < (h.move move).session.control.capacity := by
  obtain ⟨-, ⟨turn, -, -, hturn⟩ | ⟨controllerAlive, workerAlive, hgone⟩⟩ := move_cases halive
  · rw [hturn]
    cases turn with
    | load source =>
      have hload : (h.turn (.load source)).session = (h.session.load source).2 := rfl
      rw [hload]
      rcases h.session.load_cases source with ⟨error, heq⟩ | ⟨control, hpush, heq⟩
      · rw [heq]
        exact hroom
      · have hlength := Queue.length_le_of_push? hpush
        rw [Queue.items_of_push? hpush, List.length_append, List.length_singleton] at hlength
        rw [heq]
        exact fun _ => Nat.lt_of_lt_of_le (Nat.succ_pos _) hlength
    | process channels =>
      obtain ⟨acks, trace, active, ackPending, stats, heq, -⟩ := hs.process_eq channels
      obtain ⟨requests, outcomes, trace', processor, htaken, -⟩ := hs.taken_eq
      have hprocess : h.turn (.process channels) = h.process channels := rfl
      rw [hprocess, heq, htaken]
      exact hroom
    | handle load =>
      have hhandle : (h.turn (.handle load)).session = (h.session.handleNext load).getD h.session := rfl
      rw [hhandle]
      cases hnext : h.session.handleNext load with
      | none => exact hroom
      | some next =>
        obtain ⟨requests, outcomes, reports, loads, trace, rfl⟩ := Session.handleNext_eq hnext
        exact hroom
    | tryReady =>
      obtain ⟨acks, reports, heq, -⟩ := h.session.tryReady_eq
      have hlook : (h.turn .tryReady).session = h.session.tryReady.2 := rfl
      rw [hlook, heq]
      exact hroom
    | waitReady ackFirst microseconds =>
      obtain ⟨acks, reports, heq, -⟩ :=
        h.session.waitReadyFor_eq ackFirst microseconds (h.session.reports.items.length + 1)
      have hwait : (h.turn (.waitReady ackFirst microseconds)).session =
          (h.session.waitReadyFor ackFirst microseconds (h.session.reports.items.length + 1)).2 := rfl
      rw [hwait, heq]
      exact hroom
  · rw [hgone]
    exact hroom

-- Where there is no room for another load, either the latest has not been taken on yet, which is when nothing
-- is unread, or none was ever sent.
theorem read_of_full {config : Config} {s : Session α σ} (hlink : Session.link? config = some s)
    (moves : List (Move α σ)) (halive : (History.through ⟨s, []⟩ moves).session.processorAlive = true)
    (hfull : (History.through ⟨s, []⟩ moves).session.control.isFull = true) :
    (History.through ⟨s, []⟩ moves).session.acks.items = [] := by
  by_contra hunread
  have hevents : 0 < config.eventCapacity.toNat :=
    Nat.lt_of_lt_of_le (List.length_pos_iff.mpr hunread) (within_through hlink moves).1.length
  have hnone : s.sent = 0 := by
    unfold Session.link? at hlink
    split at hlink
    · cases hlink
      rfl
    · cases hlink
  obtain ⟨hs, ha, hroom⟩ := through_induction
    (P := fun k => k.Sound k.session.outcomes.items ∧ k.Answers ∧
      (0 < k.session.sent → 0 < k.session.control.capacity)) (h := ⟨s, []⟩)
    ⟨Sound.link hlink, answers_link hlink hevents, fun hsent => absurd hnone (Nat.ne_of_gt hsent)⟩
    (fun k move ⟨hk, ha, hroom⟩ halive =>
      ⟨hk.move halive, (hk.answers_move ha halive).1, hk.room_of_sent hroom halive⟩) moves halive
  have hwaits : (History.through ⟨s, []⟩ moves).session.control.items = [] :=
    by_contra fun hwaits => hunread ((hs.answersLatest ha).thrown_away hwaits)
  -- what is unread answers for a load that was sent
  obtain ⟨id, hgave⟩ := Ledger.acknowledged_through hlink moves halive hunread
  have hhistory : ((Ledger.start s).through moves).history = History.through ⟨s, []⟩ moves :=
    Ledger.history_through (Ledger.start s) moves
  have htried : (History.through ⟨s, []⟩ moves).session.sent ∈
      ((Ledger.start s).through moves).attempts.map Attempt.generation := by
    obtain ⟨a, hattempt, hresult⟩ := List.mem_map.mp hgave
    rw [hhistory] at hresult
    exact List.mem_map.mpr ⟨a, hattempt, congrArg Prod.fst hresult⟩
  have hsent := ((Ledger.balanced_through hlink moves halive).bounds _
    (((Ledger.start s).through moves).tried_sublist.subset htried)).1
  have hcapacity := hroom hsent
  unfold Queue.isFull at hfull
  rw [hwaits, List.length_nil, decide_eq_true_eq] at hfull
  omega

/-- Whatever has happened in a session, and whichever parts are there: a load that is refused leaves the
controller's count, the messages and the reports as they are. One refused for want of room leaves everything
so; one refused because the processor has gone throws away what is unread of acknowledgments, and where one
would have been told the checks for readiness say that the processor has gone. -/
theorem refused_load {config : Config} {s : Session α σ} (hlink : Session.link? config = some s)
    (moves : List (Move α σ)) (source : α) {error : ProtocolError}
    (hrefused : ((History.through ⟨s, []⟩ moves).session.load source).1 = .error error) :
    (History.through ⟨s, []⟩ moves).session.Refused
      ((History.through ⟨s, []⟩ moves).session.load source).2 error := by
  have hread := read_of_full hlink moves
  generalize (History.through ⟨s, []⟩ moves).session = t at hrefused hread ⊢
  obtain ⟨hnext, ⟨rfl, halive, hfull⟩ | ⟨rfl, hgone⟩⟩ := Session.load_refused hrefused
  · have hsame := t.forgotten_of_read (hread halive hfull)
    rw [hnext, hsame]
    exact ⟨.inl ⟨rfl, halive⟩, fun _ => rfl, nofun, fun _ => rfl, fun _ => (if_pos rfl).symm⟩
  · rw [hnext]
    refine ⟨.inr ⟨rfl, hgone⟩, nofun, fun _ => rfl, Session.forgotten_of_read, fun cs => ?_⟩
    rw [if_neg (by decide)]
    exact Session.checks_forgotten hgone cs

/-- A second load finds the queue full while the first is still to be taken on, and is as if it had never been
tried. A third finds that the processor has gone, after the first was acknowledged. -/
theorem refused_load_twice :
    let load : Unit → Except LoadError CannedModule := fun _ => .ok ⟨[], .ok 0, .ok ⟨0⟩, []⟩
    let s : Session Unit CannedModule := {
      quantum := 1, scratchBytes := 4, control := .empty 1, requests := .empty 2, outcomes := .empty 2
      acks := .empty 1, reports := .empty 1 }
    let sent : List (Move Unit CannedModule) := [.turn (.load ())]
    let gone := sent ++ [.turn (.process []), .turn (.handle load), .turn (.process []), .dropProcessor]
    let waiting := (History.through ⟨s, []⟩ sent).session
    let left := (History.through ⟨s, []⟩ gone).session
    Session.link? {
      quantumSize := 1, controlCapacity := 1, loaderCapacity := 2, eventCapacity := 1 } = some s ∧
    (waiting.load ()).1 = .error .full ∧ waiting.Refused (waiting.load ()).2 .full ∧
    (left.load ()).1 = .error .disconnected ∧ left.Refused (left.load ()).2 .disconnected ∧
    left.acks.items = [()] := by
  intro load s sent gone waiting left
  have hlink : Session.link? {
      quantumSize := 1, controlCapacity := 1, loaderCapacity := 2, eventCapacity := 1 } = some s := rfl
  have hfull : (waiting.load ()).1 = .error .full := by decide +kernel
  have hgone : (left.load ()).1 = .error .disconnected := by decide +kernel
  exact ⟨hlink, hfull, refused_load hlink sent () hfull, hgone, refused_load hlink gone () hgone,
    by decide +kernel⟩

/-- A load that is refused may be noticed: the acknowledgment of the first load is unread when the processor
goes, and a second load is refused. Without it readiness is told, and after it the departure. -/
theorem refused_load_noticed :
    let load : Unit → Except LoadError CannedModule := fun _ => .ok ⟨[], .ok 0, .ok ⟨0⟩, []⟩
    let s : Session Unit CannedModule := {
      quantum := 2, scratchBytes := 8, control := .empty 16, requests := .empty 16, outcomes := .empty 16
      acks := .empty 16, reports := .empty 16 }
    let moves : List (Move Unit CannedModule) := [.turn (.load ()), .turn (.process []),
      .turn (.handle load), .turn (.process []), .dropProcessor]
    let t := (History.through ⟨s, []⟩ moves).session
    Session.link? { quantumSize := 2 } = some s ∧
    (t.load ()).1 = .error .disconnected ∧
    t.acks.items = [()] ∧ (t.load ()).2.acks.items = [] ∧
    t.checks [.look] = [.ready true] ∧ (t.load ()).2.checks [.look] = [.refused .disconnected] ∧
    t.checks [.wait (fun _ => true) 5] = [.ready true] ∧
    (t.load ()).2.checks [.wait (fun _ => true) 5] = [.refused .disconnected] := by
  intro load s moves t
  exact ⟨rfl, by decide +kernel, by decide +kernel, by decide +kernel, by decide +kernel, by decide +kernel,
    by decide +kernel, by decide +kernel⟩

end History

end SampleStream
