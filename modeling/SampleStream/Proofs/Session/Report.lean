import SampleStream.Proofs.Session.Readiness

/-!
# Reports of failures

The failure of the latest load is told to whoever looks for readiness next, provided that its report found
room. Reports of earlier loads are read by ready checks only, sending a load leaves them where they are, and
as many as the queue holds take the place of the one that matters (`failure_reported`).
-/

namespace SampleStream

universe u v

variable {α : Type v} {σ : Type u}

namespace Session

variable {s : Session α σ}

/-- Whoever looks for readiness, or waits for it, is told of this failure. A wait may also find that the
processor has gone. -/
structure Tells (s : Session α σ) (failure : ProtocolError) : Prop where
  looked : s.tryReady.1 = .error failure
  waited : ∀ microseconds answer, s.Waits microseconds answer →
    answer = .error failure ∨ s.processorAlive = false ∧ answer = .error .disconnected

/-- Whoever looks for readiness is told that the load is still on its way, and a wait runs out of time. -/
structure TellsNothing (s : Session α σ) : Prop where
  looked : s.tryReady.1 = if s.processorAlive then .ok false else .error .disconnected
  waited : ∀ microseconds answer, s.Waits microseconds answer →
    answer = .error (if s.processorAlive then .timeout microseconds else .disconnected)

theorem tells_of_latestFailure {error : LoadError} (hnone : s.acks.items = [])
    (hfailure : s.latestFailure = some error) : s.Tells (.loadFailed s.sent error) := by
  have hlooked : s.tryReady.1 = .error (.loadFailed s.sent error) := by
    rw [tryReady_answer, hfailure]
  refine ⟨hlooked, fun microseconds answer h => ?_⟩
  have hanswer := h.eq_waited fun hunread => absurd hnone hunread
  rw [hlooked] at hanswer
  exact hanswer

theorem tellsNothing_of_silence (hnone : s.acks.items = []) (hfailure : s.latestFailure = none) :
    s.TellsNothing := by
  have hlooked : s.tryReady.1 = if s.processorAlive then .ok false else .error .disconnected := by
    rw [tryReady_answer, hfailure]
    dsimp only
    unfold takeAck
    rw [hnone]
  refine ⟨hlooked, fun microseconds answer h => ?_⟩
  have hanswer := h.eq_waited fun hunread => absurd hnone hunread
  rw [hlooked] at hanswer
  cases halive : s.processorAlive with
  | true =>
    rw [halive] at hanswer
    exact hanswer.resolve_right fun hgone => by cases hgone.1
  | false =>
    rw [halive] at hanswer
    exact hanswer.elim id And.right

-- A report that finds room is the last, and one that does not is lost.
theorem items_reports_report {room : Nat} (hreports : s.reports.Within room) (hthere : s.controllerAlive = true)
    (r : LoadReport) : (s.report r).reports.items =
      s.reports.items ++ if s.reports.items.length < room then [r] else [] := by
  rw [reports_report, if_pos hthere, ← hreports.capacity]
  split
  · rw [Queue.push?_of_lt ‹_›]
    rfl
  · rename_i hfull
    have hpush : s.reports.push? r = none := if_pos (by simpa [Queue.isFull] using hfull)
    rw [hpush, List.append_nil]
    rfl

end Session

namespace Ledger

variable [CompiledModule σ] {l : Ledger α σ}

omit [CompiledModule σ] in
-- What has been tried came before what is with the worker.
theorem Apart.tried_lt (ha : l.Apart) {result : Nat × Option Nat}
    (hresult : result ∈ l.attempts.map Attempt.result) {g : Nat}
    (hg : g ∈ Request.loads l.history.session.requests.items) : result.1 < g := by
  have honce := ha.once
  unfold forwarded at honce
  rw [List.map_append, ← Request.loads_eq_map, List.map_map] at honce
  obtain ⟨a, hmem, rfl⟩ := List.mem_map.mp hresult
  exact (List.pairwise_append.mp honce).2.2 a.generation (List.mem_map_of_mem hmem) g hg

/-- The latest load has failed, and these of its reports are unread. -/
structure Over (l : Ledger α σ) (generation : Nat) (reports : List LoadReport) : Prop where
  sent : l.history.session.sent = generation
  failed : (generation, none) ∈ l.attempts.map Attempt.result
  unread : l.history.session.reports.items.filter (·.generation = generation) = reports

namespace Over

variable {generation : Nat} {reports : List LoadReport}

-- The load is not tried again, so that nobody else's turn adds to its reports.
theorem move (ho : l.Over generation reports) (ha : l.Apart) {move : Move α σ}
    (hfeedback : Session.Feedback l.history.session (l.history.move move).session move)
    (hothers : ∀ turn, move = .turn turn → turn.isControllers = false) :
    (l.move move).Over generation reports := by
  have hfailed := result_mem_move move ho.failed
  have hsame (hreports : (l.history.move move).session.reports = l.history.session.reports)
      (hsent : (l.history.move move).session.sent = l.history.session.sent) :
      (l.move move).Over generation reports :=
    ⟨by rw [history_move, hsent]; exact ho.sent, hfailed, by rw [history_move, hreports]; exact ho.unread⟩
  cases hfeedback with
  | @reported load r halive hfails hpush hacks hsent =>
    obtain ⟨source, rest, hitems, -⟩ := Session.attempt_of_failing hfails
    have hlater : generation < r.generation :=
      ha.tried_lt ho.failed (by rw [hitems]; exact List.mem_cons_self)
    refine ⟨by rw [history_move, hsent]; exact ho.sent, hfailed, ?_⟩
    rw [history_move, Queue.items_of_push? hpush, List.filter_append, ho.unread,
      List.filter_cons_of_neg (by simpa using Nat.ne_of_gt hlater), List.filter_nil, List.append_nil]
  | acknowledged halive hpush hreports hsent => exact hsame hreports hsent
  | read hturn hacks hreports hsent =>
    rw [hothers _ rfl] at hturn
    cases hturn
  | nothing hacks hreports hsent => exact hsame hreports hsent

omit [CompiledModule σ] in
-- A load that has failed is not acknowledged.
theorem acks_eq_nil (ho : l.Over generation reports) (ha : l.Apart) : l.history.session.acks.items = [] := by
  by_contra hunread
  obtain ⟨id, hgave⟩ := ha.acknowledged hunread
  unfold LastGave at hgave
  rw [ho.sent] at hgave
  cases l.result_unique ha.once hgave ho.failed

end Over

theorem over_through {config : Config} {s : Session α σ} (hlink : Session.link? config = some s)
    (before : List (Move α σ)) {generation : Nat} {reports : List LoadReport}
    (ho : ((start s).through before).Over generation reports) (later : List (Move α σ))
    (hlater : ∀ turn, .turn turn ∈ later → turn.isControllers = false) :
    ((start s).through (before ++ later)).Over generation reports := by
  induction later using List.reverseRecOn with
  | nil =>
    rw [List.append_nil]
    exact ho
  | append_singleton later move ih =>
    have hapart := apart_through hlink (before ++ later)
    have hfeedback := History.feedback ((History.Sound.link hlink).through (before ++ later)) move
    have hhistory : ((start s).through (before ++ later)).history = History.through ⟨s, []⟩ (before ++ later) :=
      history_through (start s) (before ++ later)
    rw [← hhistory] at hfeedback
    rw [← List.append_assoc, through_append]
    refine (ih fun turn hturn => hlater turn (List.mem_append_left _ hturn)).move hapart hfeedback ?_
    rintro turn rfl
    exact hlater turn (List.mem_append_right _ (List.mem_singleton_self _))

-- A load that fails when it is the latest has none but its own report, if that finds room.
theorem over_handle {config : Config} {s : Session α σ} (hlink : Session.link? config = some s)
    (before : List (Move α σ)) {load : α → Except LoadError σ} {r : LoadReport}
    (hcontroller : (History.through ⟨s, []⟩ before).session.controllerAlive = true)
    (hworker : (History.through ⟨s, []⟩ before).session.workerAlive = true)
    (hfails : (History.through ⟨s, []⟩ before).session.failing load = some r)
    (hlatest : r.generation = (History.through ⟨s, []⟩ before).session.sent) :
    (∀ stale ∈ (History.through ⟨s, []⟩ before).session.reports.items, stale.generation < r.generation) ∧
      ((start s).through (before ++ [.turn (.handle load)])).Over r.generation
        (if (History.through ⟨s, []⟩ before).session.reports.items.length < config.eventCapacity.toNat
          then [r] else []) := by
  have hapart := apart_through hlink before
  have hwithin := (History.within_through hlink before).2
  obtain ⟨next, hnext⟩ := Option.isSome_iff_exists.mp (History.handles_through hlink before load)
  have hhistory : ((start s).through before).history = History.through ⟨s, []⟩ before :=
    history_through (start s) before
  rw [through_append]
  rw [← hhistory] at hcontroller hworker hfails hlatest hwithin hnext ⊢
  generalize (start s).through before = l at *
  change _ ∧ (l.move (.turn (.handle load))).Over _ _
  obtain ⟨source, rest, hitems, hattempt⟩ := Session.attempt_of_failing hfails
  -- whatever is unread is of loads that were tried before
  have hstale : ∀ stale ∈ l.history.session.reports.items, stale.generation < r.generation :=
    fun stale hmem => hapart.tried_lt (hapart.reported stale hmem) (by rw [hitems]; exact List.mem_cons_self)
  have hhandled : (l.move (.turn (.handle load))).history = ⟨next, l.history.deeds⟩ := by
    have hmove : l.history.move (.turn (.handle load)) = l.history.turn (.handle load) := if_pos hworker
    rw [history_move, hmove, History.turn, hnext]
    rfl
  have hreports := Session.reports_handleNext hnext
  rw [hfails] at hreports
  refine ⟨hstale, ?_, ?_, ?_⟩
  · obtain ⟨_, _, _, _, _, rfl⟩ := Session.handleNext_eq hnext
    rw [hhandled]
    exact hlatest.symm
  · rw [attempts_move]
    dsimp only
    rw [if_pos hworker, hattempt, List.map_append]
    exact List.mem_append_right _ (List.mem_singleton_self _)
  · have hnone : l.history.session.reports.items.filter (·.generation = r.generation) = [] :=
      List.filter_eq_nil_iff.mpr fun stale hmem => by simpa using Nat.ne_of_lt (hstale stale hmem)
    rw [hhandled]
    dsimp only at hreports ⊢
    rw [hreports, Session.items_reports_report hwithin hcontroller, List.filter_append, hnone, List.nil_append]
    split
    · exact List.filter_cons_of_pos (by simp)
    · rfl

end Ledger

namespace History

variable [CompiledModule σ]

/-- When the latest load fails, the reports that are still unread are of earlier loads. If they leave room, the
failure is told to whoever looks for readiness next, whatever the other parts do in between; if they do not,
it is told to nobody. -/
theorem failure_reported {config : Config} {s : Session α σ} (hlink : Session.link? config = some s)
    (before : List (Move α σ)) {load : α → Except LoadError σ} {r : LoadReport}
    (hcontroller : (History.through ⟨s, []⟩ before).session.controllerAlive = true)
    (hworker : (History.through ⟨s, []⟩ before).session.workerAlive = true)
    (hfails : (History.through ⟨s, []⟩ before).session.failing load = some r)
    (hlatest : r.generation = (History.through ⟨s, []⟩ before).session.sent) (later : List (Move α σ))
    (hlater : ∀ turn, .turn turn ∈ later → turn.isControllers = false) :
    let unread := (History.through ⟨s, []⟩ before).session.reports.items
    let t := (History.through ⟨s, []⟩ (before ++ .turn (.handle load) :: later)).session
    (∀ stale ∈ unread, stale.generation < r.generation) ∧ unread.length ≤ config.eventCapacity.toNat ∧
      (unread.length < config.eventCapacity.toNat → t.Tells (.loadFailed r.generation r.error)) ∧
      (unread.length = config.eventCapacity.toNat → t.TellsNothing) := by
  intro unread t
  obtain ⟨hstale, hover⟩ := Ledger.over_handle hlink before hcontroller hworker hfails hlatest
  have hover := Ledger.over_through hlink _ hover later hlater
  have hapart := Ledger.apart_through hlink (before ++ [.turn (.handle load)] ++ later)
  have hhistory : ((Ledger.start s).through (before ++ [.turn (.handle load)] ++ later)).history.session = t := by
    rw [Ledger.history_through, List.append_assoc]
    rfl
  have hnone := hover.acks_eq_nil hapart
  have hsent := hover.sent
  have hunread := hover.unread
  rw [hhistory] at hnone hsent hunread
  have hfailure := t.latestFailure_eq_head?
  rw [hsent, hunread] at hfailure
  refine ⟨hstale, (within_through hlink before).2.length, fun hroom => ?_, fun hfull => ?_⟩
  · rw [if_pos hroom] at hfailure
    rw [← hsent]
    exact Session.tells_of_latestFailure hnone hfailure
  · rw [if_neg (Nat.not_lt.mpr (Nat.le_of_eq hfull.symm))] at hfailure
    exact Session.tellsNothing_of_silence hnone hfailure

/-- With room for one report, the failure of the first load is told if it is asked for in time. The report of
the second load finds the first still unread, and is lost. -/
theorem failure_reported_lost :
    let fail : String → Except LoadError CannedModule := fun text => .error (.malformed text)
    let config : Config := { quantumSize := 2, eventCapacity := 1 }
    let s : Session String CannedModule := {
      quantum := 2, scratchBytes := 8, control := .empty config.controlCapacity.toNat
      requests := .empty config.loaderCapacity.toNat, outcomes := .empty config.loaderCapacity.toNat
      acks := .empty 1, reports := .empty 1 }
    let first : List (Move String CannedModule) := [.turn (.load "a"), .turn (.process [])]
    let second := first ++ [.turn (.handle fail), .turn (.load "b"), .turn (.process [])]
    Session.link? config = some s ∧
    (History.through ⟨s, []⟩ (first ++ [.turn (.handle fail)])).session.Tells
      (.loadFailed 1 (.malformed "a")) ∧
    (History.through ⟨s, []⟩ second).session.failing fail = some ⟨2, .malformed "b"⟩ ∧
    (History.through ⟨s, []⟩ second).session.sent = 2 ∧
    (History.through ⟨s, []⟩ (second ++ [.turn (.handle fail)])).session.TellsNothing ∧
    (History.through ⟨s, []⟩ (second ++ [.turn (.handle fail)])).session.tryReady.1 = .ok false := by
  intro fail config s first second
  have hlink : Session.link? config = some s := rfl
  have hfails : (History.through ⟨s, []⟩ first).session.failing fail = some ⟨1, .malformed "a"⟩ := by
    decide +kernel
  have hfailsagain : (History.through ⟨s, []⟩ second).session.failing fail = some ⟨2, .malformed "b"⟩ := by
    decide +kernel
  obtain ⟨-, -, htold, -⟩ :=
    failure_reported hlink first (by decide +kernel) (by decide +kernel) hfails (by decide +kernel) [] nofun
  obtain ⟨-, -, -, hlost⟩ := failure_reported hlink second (by decide +kernel) (by decide +kernel) hfailsagain
    (by decide +kernel) [] nofun
  exact ⟨hlink, htold (by decide +kernel), hfailsagain, by decide +kernel, hlost (by decide +kernel),
    by decide +kernel⟩

end History

end SampleStream
