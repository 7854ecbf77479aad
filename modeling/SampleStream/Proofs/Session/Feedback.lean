import Mathlib.Data.List.Induction
import SampleStream.Proofs.Session.Acknowledgment
import SampleStream.Proofs.Session.Rest

/-!
# What the controller hears

Two queues lead to the controller: the processor acknowledges adoptions, and the worker reports failures.
`Feedback` says what a move does to them. A load is tried once, so that none is both acknowledged and reported
as failed, whether the processor is there or not (`Ledger.Apart`).
-/

namespace SampleStream

universe u v w

variable {α : Type v} {σ : Type u}

namespace Queue

variable {β : Type w} {q r t : Queue β}

/-- The queue has this much room and keeps within it. -/
structure Within (q : Queue β) (room : Nat) : Prop where
  capacity : q.capacity = room
  length : q.items.length ≤ room

theorem Left.trans (hqr : q.Left r) (hrt : r.Left t) : q.Left t where
  capacity := hrt.capacity.trans hqr.capacity
  items := hrt.items.trans hqr.items

theorem Within.of_left {room : Nat} (hq : q.Within room) (hleft : q.Left r) : r.Within room where
  capacity := hleft.capacity.trans hq.capacity
  length := Nat.le_trans hleft.items.length_le hq.length

theorem Within.of_push {room : Nat} {b : β} (hq : q.Within room) (hpush : q.push? b = some r) :
    r.Within room := by
  have hcapacity : r.capacity = room := (capacity_of_push? hpush).trans hq.capacity
  exact ⟨hcapacity, hcapacity ▸ length_le_of_push? hpush⟩

end Queue

/-- The turn is the controller's. -/
def Turn.isControllers : Turn α σ → Bool
  | .load _ | .tryReady | .waitReady _ _ => true
  | .process _ | .handle _ => false

namespace Session

variable {s : Session α σ}

theorem findReport_eq (sent : Nat) (rs : List LoadReport) :
    (findReport sent rs).1 = (rs.find? (·.generation = sent)).map LoadReport.error ∧
      (findReport sent rs).2 <:+ rs := by
  induction rs with
  | nil => exact ⟨rfl, List.suffix_refl _⟩
  | cons r rs ih =>
    unfold findReport
    by_cases hlatest : r.generation = sent
    · rw [if_pos hlatest, List.find?_cons_of_pos (by simpa using hlatest)]
      exact ⟨rfl, List.suffix_cons r rs⟩
    · rw [if_neg hlatest, List.find?_cons_of_neg (by simpa using hlatest)]
      exact ⟨ih.1, ih.2.trans (List.suffix_cons r rs)⟩

theorem reports_takeAck {β : Type} (present : β) (absent : Except ProtocolError β) (s : Session α σ) :
    (s.takeAck present absent).2.reports = s.reports := by
  obtain ⟨acks, heq, -⟩ := s.takeAck_eq present absent
  rw [heq]

-- Whoever looks for readiness reads reports from the front.
theorem left_tryReady (s : Session α σ) : s.reports.Left s.tryReady.2.reports := by
  have hsuffix := (findReport_eq s.sent s.reports.items).2
  unfold tryReady
  generalize findReport s.sent s.reports.items = found at hsuffix ⊢
  obtain ⟨_ | error, rest⟩ := found
  · dsimp only
    rw [reports_takeAck]
    exact ⟨rfl, hsuffix⟩
  · exact ⟨rfl, hsuffix⟩

theorem left_waitReadyFor (ackFirst : Nat → Bool) (microseconds fuel : Nat) (s : Session α σ) :
    s.reports.Left (s.waitReadyFor ackFirst microseconds fuel).2.reports := by
  induction fuel generalizing s with
  | zero =>
    unfold waitReadyFor
    rw [reports_takeAck]
    exact .refl _
  | succ fuel ih =>
    unfold waitReadyFor
    dsimp only
    split
    · rw [reports_takeAck]
      exact .refl _
    · split
      · rename_i r rest hitems
        have hrest : s.reports.Left (s.withReports rest).reports :=
          ⟨rfl, by rw [hitems]; exact List.suffix_cons r rest⟩
        split
        · exact hrest
        · exact hrest.trans (ih (s.withReports rest))
      · rw [reports_takeAck]
        exact .refl _

-- A report finds room and somebody to read it, or is lost.
theorem reports_report (r : LoadReport) (s : Session α σ) : (s.report r).reports =
    if s.controllerAlive then (s.reports.push? r).getD s.reports else s.reports := by
  unfold report
  split
  · cases s.reports.push? r <;> rfl
  · rfl

variable [CompiledModule σ] {load : α → Except LoadError σ}

/-- The report that the worker makes when it handles the request at the front of its queue: a load that
fails. -/
def failing (load : α → Except LoadError σ) (s : Session α σ) : Option LoadReport :=
  match s.requests.items with
  | .instantiate generation source :: rest =>
    match ({ s with requests := { s.requests with items := rest } }.prepare load generation source).1 with
    | .error error => some ⟨generation, error⟩
    | .ok _ => none
  | _ => none

-- It is an attempt that comes to nothing.
theorem attempt_of_failing {r : LoadReport} (h : s.failing load = some r) : ∃ source rest,
    s.requests.items = .instantiate r.generation source :: rest ∧
      s.attempt load = [⟨r.generation, source, none⟩] := by
  unfold failing at h
  unfold attempt
  cases hitems : s.requests.items with
  | nil =>
    rw [hitems] at h
    cases h
  | cons request rest =>
    rw [hitems] at h
    cases request with
    | retire m => cases h
    | instantiate generation source =>
      dsimp only at h ⊢
      generalize (prepare load generation source { s with requests := { s.requests with items := rest } }).1 =
        result at h ⊢
      cases result with
      | ok p => cases h
      | error error =>
        cases h
        exact ⟨source, rest, rfl, rfl⟩

omit [CompiledModule σ] in
theorem reports_deliver {o : LoadOutcome σ} {next : Session α σ} (h : s.deliver o = some next) :
    next.reports = s.reports := by
  obtain ⟨outcomes, trace, rfl⟩ := deliver_eq h
  rfl

-- A load that fails is reported, and handling a request does nothing else to the reports.
theorem reports_handleNext {next : Session α σ} (h : s.handleNext load = some next) :
    next.reports = match s.failing load with
      | some r => (s.report r).reports
      | none => s.reports := by
  unfold handleNext at h
  unfold failing
  cases hitems : s.requests.items with
  | nil =>
    rw [hitems] at h
    cases h
    rfl
  | cons request rest =>
    rw [hitems] at h
    cases request with
    | retire m =>
      cases h
      rfl
    | instantiate generation source =>
      let popped : Session α σ := { s with requests := { s.requests with items := rest } }
      obtain ⟨result, events, hprepare, -⟩ := prepare_cases load generation source popped
      change popped.handle load (.instantiate generation source) = some next at h
      unfold handle at h
      dsimp only at h ⊢
      rw [hprepare] at h ⊢
      cases result with
      | ok p =>
        have hreports := reports_deliver h
        exact hreports
      | error error =>
        -- neither the requests nor the trace make a difference to a report
        have hreports := reports_deliver h
        rw [reports_report] at hreports
        dsimp only
        rw [reports_report]
        exact hreports

/-- What a move does to what the controller reads, and to the number of the latest load. -/
inductive Feedback (s t : Session α σ) : Move α σ → Prop
  /-- The worker reports a load that failed, -/
  | reported {load : α → Except LoadError σ} {r : LoadReport} (halive : s.workerAlive = true)
    (hfails : s.failing load = some r) (hpush : s.reports.push? r = some t.reports)
    (hacks : t.acks = s.acks) (hsent : t.sent = s.sent) : Feedback s t (.turn (.handle load))
  /-- the processor acknowledges, -/
  | acknowledged {channels : List (List Sample)} (halive : s.processorAlive = true)
    (hpush : s.acks.push? () = some t.acks) (hreports : t.reports = s.reports) (hsent : t.sent = s.sent) :
    Feedback s t (.turn (.process channels))
  /-- the controller reads, or sends a load and throws away what is unread, -/
  | read {turn : Turn α σ} (hturn : turn.isControllers = true) (hacks : s.acks.Left t.acks)
    (hreports : s.reports.Left t.reports) (hsent : t.sent = s.sent ∨ t.acks.items = []) :
    Feedback s t (.turn turn)
  /-- or nothing is heard. -/
  | nothing {move : Move α σ} (hacks : t.acks = s.acks) (hreports : t.reports = s.reports)
    (hsent : t.sent = s.sent) : Feedback s t move

end Session

namespace History

variable [CompiledModule σ] {h : History α σ}

open Session (Feedback)

-- A quantum acknowledges once at most, and makes no report.
theorem Sound.feedback_process (hs : h.Sound h.session.outcomes.items) (channels : List (List Sample)) :
    Feedback h.session (h.process channels).session (.turn (.process channels)) := by
  obtain ⟨requests, outcomes, trace, processor, htaken, -⟩ := hs.taken_eq
  have hsession : (h.process channels).session = (h.session.process channels).2 := rfl
  rw [hsession]
  cases hs.plays channels with
  | nothing hstate hprocess hsteps hdeeds =>
    rw [hprocess, htaken]
    exact .nothing rfl rfl rfl
  | module g a hstate hactive hlast hprocess hsteps hdeeds =>
    rw [hprocess, htaken]
    unfold Session.acknowledge
    split
    · split
      · split
        · exact .acknowledged hs.alive ‹_› rfl rfl
        · exact .nothing rfl rfl rfl
      · exact .nothing rfl rfl rfl
    · exact .nothing rfl rfl rfl

theorem feedback_handle (h : History α σ) {load : α → Except LoadError σ}
    (hworker : h.session.workerAlive = true) :
    Feedback h.session (h.turn (.handle load)).session (.turn (.handle load)) := by
  have hturn : (h.turn (.handle load)).session = (h.session.handleNext load).getD h.session := rfl
  rw [hturn]
  cases hnext : h.session.handleNext load with
  | none => exact .nothing rfl rfl rfl
  | some next =>
    have hreports := Session.reports_handleNext hnext
    obtain ⟨requests, outcomes, reports, loads, trace, rfl⟩ := Session.handleNext_eq hnext
    cases hfails : h.session.failing load with
    | none =>
      rw [hfails] at hreports
      exact .nothing rfl hreports rfl
    | some r =>
      rw [hfails] at hreports
      dsimp only at hreports
      rw [Session.reports_report] at hreports
      split at hreports
      · cases hpush : h.session.reports.push? r with
        | none =>
          rw [hpush] at hreports
          exact .nothing rfl hreports rfl
        | some later =>
          rw [hpush] at hreports
          exact .reported hworker hfails (hpush.trans (congrArg some hreports.symm)) rfl rfl
      · exact .nothing rfl hreports rfl

-- The controller takes from the front of both queues, or throws all acknowledgments away.
theorem feedback_controllers (h : History α σ) {turn : Turn α σ} (hturn : turn.isControllers = true) :
    Feedback h.session (h.turn turn).session (.turn turn) := by
  cases turn with
  | process channels => cases hturn
  | handle load => cases hturn
  | load source =>
    have hload : (h.turn (.load source)).session = (h.session.load source).2 := rfl
    rw [hload]
    rcases h.session.load_cases source with ⟨error, heq⟩ | ⟨control, -, heq⟩
    · rw [heq]
      exact .read rfl ⟨rfl, List.nil_suffix⟩ (.refl _) (.inl rfl)
    · rw [heq]
      exact .read rfl ⟨rfl, List.nil_suffix⟩ (.refl _) (.inr rfl)
  | tryReady =>
    have hlook : (h.turn .tryReady).session = h.session.tryReady.2 := rfl
    have hreports := h.session.left_tryReady
    obtain ⟨acks, reports, heq, hleft⟩ := h.session.tryReady_eq
    rw [hlook]
    rw [heq] at hreports ⊢
    exact .read rfl hleft hreports (.inl rfl)
  | waitReady ackFirst microseconds =>
    have hwait : (h.turn (.waitReady ackFirst microseconds)).session =
        (h.session.waitReadyFor ackFirst microseconds (h.session.reports.items.length + 1)).2 := rfl
    have hreports := h.session.left_waitReadyFor ackFirst microseconds (h.session.reports.items.length + 1)
    obtain ⟨acks, reports, heq, hleft⟩ := h.session.waitReadyFor_eq ackFirst microseconds
      (h.session.reports.items.length + 1)
    rw [hwait]
    rw [heq] at hreports ⊢
    exact .read rfl hleft hreports (.inl rfl)

theorem feedback (hs : h.session.processorAlive = true → h.Sound h.session.outcomes.items) (move : Move α σ) :
    Feedback h.session (h.move move).session move := by
  cases move with
  | dropController =>
    rw [History.move]
    split <;> exact .nothing rfl rfl rfl
  | dropProcessor =>
    rw [History.move]
    split
    · obtain ⟨requests, outcomes, trace, heq, -⟩ := h.session.dropProcessor_eq
      rw [heq]
      exact .nothing rfl rfl rfl
    · exact .nothing rfl rfl rfl
  | dropWorker =>
    rw [History.move]
    split
    · obtain ⟨requests, outcomes, trace, heq, -⟩ := h.session.dropWorker_cases
      rw [heq]
      exact .nothing rfl rfl rfl
    · exact .nothing rfl rfl rfl
  | turn turn =>
    by_cases hpossible : turn.isPossible h.session = true
    · rw [History.move, if_pos hpossible]
      cases turn with
      | process channels => exact (hs hpossible).feedback_process channels
      | handle load => exact h.feedback_handle hpossible
      | load source => exact h.feedback_controllers rfl
      | tryReady => exact h.feedback_controllers rfl
      | waitReady ackFirst microseconds => exact h.feedback_controllers rfl
    · rw [History.move, if_neg hpossible]
      exact .nothing rfl rfl rfl

-- Both queues keep within the room that they were made with.
theorem within_through {config : Config} {s : Session α σ} (hlink : Session.link? config = some s)
    (moves : List (Move α σ)) :
    (History.through ⟨s, []⟩ moves).session.acks.Within config.eventCapacity.toNat ∧
      (History.through ⟨s, []⟩ moves).session.reports.Within config.eventCapacity.toNat := by
  induction moves using List.reverseRecOn with
  | nil =>
    change s.acks.Within _ ∧ s.reports.Within _
    unfold Session.link? at hlink
    split at hlink
    · cases hlink
      exact ⟨⟨rfl, Nat.zero_le _⟩, ⟨rfl, Nat.zero_le _⟩⟩
    · cases hlink
  | append_singleton moves move ih =>
    rw [through_append]
    have hfeedback := feedback (fun halive => (Sound.link hlink).through moves halive) move
    generalize (History.through ⟨s, []⟩ moves) = h at ih hfeedback ⊢
    change (h.move move).session.acks.Within _ ∧ (h.move move).session.reports.Within _
    cases hfeedback with
    | reported halive hfails hpush hacks hsent => exact ⟨hacks ▸ ih.1, ih.2.of_push hpush⟩
    | acknowledged halive hpush hreports hsent => exact ⟨ih.1.of_push hpush, hreports ▸ ih.2⟩
    | read hturn hacks hreports hsent => exact ⟨ih.1.of_left hacks, ih.2.of_left hreports⟩
    | nothing hacks hreports hsent => exact ⟨hacks ▸ ih.1, hreports ▸ ih.2⟩

end History

-- The attempt is that of the load at the front.
theorem Session.load_attempt [CompiledModule σ] (load : α → Except LoadError σ) (s : Session α σ) :
    (s.attempt load).map Attempt.load = Request.instantiations (s.requests.items.take 1) := by
  unfold Session.attempt
  cases s.requests.items with
  | nil => rfl
  | cons request rest => cases request <;> rfl

theorem Request.instantiations_split (rs : List (Request α σ)) :
    instantiations (rs.take 1) ++ instantiations rs.tail = instantiations rs := by
  rw [← instantiations_append, ← List.drop_one, List.take_append_drop]

namespace Ledger

variable [CompiledModule σ]

theorem attempts_move (l : Ledger α σ) (move : Move α σ) : (l.move move).attempts = l.attempts ++
    match move with
    | .turn (.handle load) =>
      if l.history.session.workerAlive then l.history.session.attempt load else []
    | _ => [] := by
  cases move with
  | turn turn =>
    unfold Ledger.move
    dsimp only
    cases turn with
    | handle load =>
      change (if l.history.session.workerAlive then l.turn (.handle load) else l).attempts = _
      split
      · rfl
      · exact (List.append_nil _).symm
    | load source =>
      unfold Ledger.turn
      split
      · dsimp only
        split <;> exact (List.append_nil _).symm
      · exact (List.append_nil _).symm
    | _ => split <;> exact (List.append_nil _).symm
  | _ => exact (List.append_nil _).symm

theorem result_mem_move {l : Ledger α σ} {result : Nat × Option Nat} (move : Move α σ)
    (hmem : result ∈ l.attempts.map Attempt.result) : result ∈ (l.move move).attempts.map Attempt.result := by
  rw [attempts_move, List.map_append]
  exact List.mem_append_left _ hmem

-- Without a quantum nothing is forwarded.
theorem forwarded_move (l : Ledger α σ) {move : Move α σ}
    (hhandles : ∀ load, (l.history.session.handleNext load).isSome = true)
    (hquantum : ∀ channels, move = .turn (.process channels) → l.history.session.processorAlive = false) :
    (l.move move).forwarded.Sublist l.forwarded := by
  have hmoved := l.history.moved move
  have hqueues {t : Session α σ} (hrequests : t.requests = l.history.session.requests ∨
      t.requests = l.history.session.requests.clear) :
      (l.attempts.map Attempt.load ++ Request.instantiations t.requests.items).Sublist l.forwarded := by
    refine (List.Sublist.refl _).append ?_
    rcases hrequests with hsame | hclear
    · rw [hsame]
    · rw [hclear]
      exact List.nil_sublist _
  unfold forwarded at hqueues ⊢
  rw [history_move, attempts_move]
  generalize (l.history.move move).session = next at hmoved ⊢
  cases hmoved with
  | processed channels halive => exact absurd halive (Bool.eq_false_iff.mp (hquantum channels rfl))
  | handled halive hnext =>
    -- the attempt was the first of the requests
    dsimp only
    rw [if_pos halive, List.map_append, Session.load_attempt, (Session.serves_of_handleNext hnext).requests,
      List.append_assoc, Request.instantiations_split]
  | processorGone halive =>
    rw [List.append_nil]
    exact hqueues (l.history.session.queues_dropProcessor.imp And.left And.left)
  | workerGone halive =>
    rw [List.append_nil]
    exact hqueues (l.history.session.queues_dropWorker.imp And.left And.left)
  | aside controllerAlive sent control acks reports hidle =>
    have hnone : (match move with
        | .turn (.handle load) => if l.history.session.workerAlive then l.history.session.attempt load else []
        | _ => []) = [] := by
      split
      · exact if_neg (Bool.eq_false_iff.mp (History.workerAlive_of_idle hidle hhandles rfl))
      · rfl
    rw [hnone, List.append_nil]

/-- What the controller reads agrees with what the worker has tried. -/
structure Apart (l : Ledger α σ) : Prop where
  /-- Loads are tried in order and once, before those that are with the worker. -/
  once : (l.forwarded.map Prod.fst).Pairwise (· < ·)
  reported : ∀ r ∈ l.history.session.reports.items, (r.generation, none) ∈ l.attempts.map Attempt.result
  acknowledged : l.history.session.acks.items ≠ [] → ∃ id, l.LastGave id

namespace Apart

variable {l : Ledger α σ}

omit [CompiledModule σ] in
-- A load is tried once, so that the latest load is not both acknowledged and reported.
theorem unreported (ha : l.Apart) (hunread : l.history.session.acks.items ≠ []) :
    ∀ r ∈ l.history.session.reports.items, r.generation ≠ l.history.session.sent := by
  intro r hr hlatest
  obtain ⟨id, hgave⟩ := ha.acknowledged hunread
  have hfailed := ha.reported r hr
  rw [hlatest] at hfailed
  cases l.result_unique ha.once hgave hfailed

-- What is reported has just been tried.
theorem reported_move (ha : l.Apart) {move : Move α σ}
    (hfeedback : Session.Feedback l.history.session (l.history.move move).session move) :
    ∀ r ∈ (l.history.move move).session.reports.items,
      (r.generation, none) ∈ (l.move move).attempts.map Attempt.result := by
  intro r hr
  have hold (hr : r ∈ l.history.session.reports.items) :
      (r.generation, none) ∈ (l.move move).attempts.map Attempt.result :=
    result_mem_move move (ha.reported r hr)
  cases hfeedback with
  | @reported load made halive hfails hpush hacks hsent =>
    rw [Queue.items_of_push? hpush, List.mem_append, List.mem_singleton] at hr
    rcases hr with hr | rfl
    · exact hold hr
    · obtain ⟨source, rest, -, hattempt⟩ := Session.attempt_of_failing hfails
      rw [attempts_move]
      dsimp only
      rw [if_pos halive, hattempt, List.map_append]
      exact List.mem_append_right _ (List.mem_singleton_self _)
  | acknowledged halive hpush hreports hsent => exact hold (hreports ▸ hr)
  | read hturn hacks hreports hsent => exact hold (hreports.items.subset hr)
  | nothing hacks hreports hsent => exact hold (hreports ▸ hr)

-- Without a quantum nothing is acknowledged.
theorem acknowledged_move (ha : l.Apart) {move : Move α σ}
    (hfeedback : Session.Feedback l.history.session (l.history.move move).session move)
    (hquantum : ∀ channels, move = .turn (.process channels) → l.history.session.processorAlive = false)
    (hunread : (l.history.move move).session.acks.items ≠ []) : ∃ id, (l.move move).LastGave id := by
  have hkept (hsent : (l.history.move move).session.sent = l.history.session.sent)
      (hbefore : l.history.session.acks.items ≠ []) : ∃ id, (l.move move).LastGave id := by
    obtain ⟨id, hgave⟩ := ha.acknowledged hbefore
    refine ⟨id, ?_⟩
    unfold LastGave
    rw [history_move, hsent]
    exact result_mem_move move hgave
  cases hfeedback with
  | reported halive hfails hpush hacks hsent => exact hkept hsent (hacks ▸ hunread)
  | acknowledged halive hpush hreports hsent => exact absurd halive (Bool.eq_false_iff.mp (hquantum _ rfl))
  | read hturn hacks hreports hsent =>
    rcases hsent with hsent | hnone
    · refine hkept hsent fun hnone => hunread ?_
      have hsuffix := hacks.items
      rw [hnone] at hsuffix
      exact List.suffix_nil.mp hsuffix
    · exact absurd hnone hunread
  | nothing hacks hreports hsent => exact hkept hsent (hacks ▸ hunread)

-- A processor that has gone takes no quantum any more; while it is there, the ledger and the
-- acknowledgments agree anyhow.
theorem move (ha : l.Apart) {move : Move α σ}
    (hs : l.history.session.processorAlive = true → l.history.Sound l.history.session.outcomes.items)
    (hhandles : ∀ load, (l.history.session.handleNext load).isSome = true)
    (halive : (l.history.move move).session.processorAlive = true →
      ((l.move move).forwarded.map Prod.fst).Pairwise (· < ·) ∧
        ((l.history.move move).session.acks.items ≠ [] → ∃ id, (l.move move).LastGave id)) :
    (l.move move).Apart := by
  have hfeedback := History.feedback hs move
  have hreported := ha.reported_move hfeedback
  by_cases hthere : (l.history.move move).session.processorAlive = true
  · obtain ⟨honce, hacknowledged⟩ := halive hthere
    exact ⟨honce, by rw [history_move]; exact hreported, by rw [history_move]; exact hacknowledged⟩
  · have hquantum : ∀ channels, move = .turn (.process channels) →
        l.history.session.processorAlive = false := by
      rintro channels rfl
      refine Bool.eq_false_iff.mpr fun hbefore => hthere ?_
      have hmove : l.history.move (.turn (.process channels)) = l.history.process channels := if_pos hbefore
      rw [hmove]
      exact ((hs hbefore).process channels).1.alive
    exact ⟨ha.once.sublist ((l.forwarded_move hhandles hquantum).map Prod.fst),
      by rw [history_move]; exact hreported,
      by rw [history_move]; exact ha.acknowledged_move hfeedback hquantum⟩

end Apart

-- While the processor is there, what is unread answers for the latest load.
theorem acknowledged_through {config : Config} {s : Session α σ} (hlink : Session.link? config = some s)
    (moves : List (Move α σ)) (halive : (History.through ⟨s, []⟩ moves).session.processorAlive = true)
    (hunread : (History.through ⟨s, []⟩ moves).session.acks.items ≠ []) :
    ∃ id, ((start s).through moves).LastGave id := by
  have hhistory : ((start s).through moves).history = History.through ⟨s, []⟩ moves :=
    history_through (start s) moves
  have hroom : 0 < config.eventCapacity.toNat :=
    Nat.lt_of_lt_of_le (List.length_pos_iff.mpr hunread) (History.within_through hlink moves).1.length
  obtain ⟨hs, ha⟩ := History.through_induction
    (P := fun k => k.Sound k.session.outcomes.items ∧ k.Answers) (h := ⟨s, []⟩)
    ⟨History.Sound.link hlink, History.answers_link hlink hroom⟩
    (fun k move ⟨hk, ha⟩ halive => ⟨hk.move halive, (hk.answers_move ha halive).1⟩) moves halive
  obtain ⟨-, a, -, hlast⟩ := (hs.answersLatest ha).unread hunread
  have hbalanced := balanced_through hlink moves halive
  have hresult : ((History.through ⟨s, []⟩ moves).session.sent, some a.module.id) ∈
      Deed.results (History.through ⟨s, []⟩ moves).deeds :=
    List.mem_filterMap.mpr ⟨_, Deed.adopted_mem_of_last hlast, rfl⟩
  refine ⟨a.module.id, ?_⟩
  unfold LastGave
  rw [hbalanced.answered, hhistory]
  exact List.mem_append_left _ (List.mem_reverse.mpr hresult)

/-- Whatever happens in a session, whichever parts are there, no load is both acknowledged and reported. -/
theorem apart_through {config : Config} {s : Session α σ} (hlink : Session.link? config = some s)
    (moves : List (Move α σ)) : ((start s).through moves).Apart := by
  induction moves using List.reverseRecOn with
  | nil =>
    unfold Session.link? at hlink
    split at hlink
    · cases hlink
      exact ⟨.nil, nofun, fun hunread => absurd rfl hunread⟩
    · cases hlink
  | append_singleton moves move ih =>
    have hbefore : ((start s).through moves).history = History.through ⟨s, []⟩ moves :=
      history_through (start s) moves
    have hs : (History.through ⟨s, []⟩ moves).session.processorAlive = true →
        (History.through ⟨s, []⟩ moves).Sound (History.through ⟨s, []⟩ moves).session.outcomes.items :=
      (History.Sound.link hlink).through moves
    have hhandles := History.handles_through hlink moves
    have hafter : (History.through ⟨s, []⟩ moves).move move = History.through ⟨s, []⟩ (moves ++ [move]) :=
      (History.through_append _ moves [move]).symm
    have hnext : ((start s).through moves).move move = (start s).through (moves ++ [move]) :=
      ((start s).through_append moves [move]).symm
    refine hnext ▸ ih.move (by rw [hbefore]; exact hs) (by rw [hbefore]; exact hhandles) ?_
    rw [hbefore, hafter, hnext]
    exact fun halive => ⟨(balanced_through hlink _ halive).order, acknowledged_through hlink _ halive⟩

end Ledger

end SampleStream
