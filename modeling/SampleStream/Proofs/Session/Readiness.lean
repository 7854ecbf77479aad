import SampleStream.Proofs.Session.Feedback

/-!
# Readiness

Looking for readiness at once and waiting for it read the same two queues in different orders. Waiting takes
whatever it finds, and `Waits` says what it may come to. Since no load is both acknowledged and reported as
failed, the order makes no difference, and both have one answer (`Agrees`).
-/

namespace SampleStream

universe u v

variable {α : Type v} {σ : Type u}

namespace Session

variable {s : Session α σ}

/-- Why the latest load failed, if a report says so. -/
def latestFailure (s : Session α σ) : Option LoadError :=
  (s.reports.items.find? (·.generation = s.sent)).map LoadReport.error

-- Only reports of the latest load are of interest.
theorem latestFailure_eq_head? (s : Session α σ) : s.latestFailure =
    (s.reports.items.filter (·.generation = s.sent)).head?.map LoadReport.error := by
  rw [List.head?_filter]
  rfl

theorem latestFailure_cons {r : LoadReport} {rest : List LoadReport} (hitems : s.reports.items = r :: rest) :
    s.latestFailure =
      if r.generation = s.sent then some r.error else (s.withReports rest).latestFailure := by
  unfold latestFailure
  rw [hitems]
  split
  · rw [List.find?_cons_of_pos (by simpa using ‹_›)]
    rfl
  · rw [List.find?_cons_of_neg (by simpa using ‹_›)]
    rfl

theorem latestFailure_eq_none_iff :
    s.latestFailure = none ↔ ∀ r ∈ s.reports.items, r.generation ≠ s.sent := by
  unfold latestFailure
  rw [Option.map_eq_none_iff, List.find?_eq_none]
  simp only [decide_eq_true_eq]

-- The reports make no difference to the acknowledgments.
theorem takeAck_withReports {β : Type} (present : β) (absent : Except ProtocolError β)
    (reports : List LoadReport) (s : Session α σ) :
    ((s.withReports reports).takeAck present absent).1 = (s.takeAck present absent).1 := by
  unfold takeAck
  rw [show (s.withReports reports).acks = s.acks from rfl]
  cases s.acks.items <;> rfl

theorem tryReady_answer (s : Session α σ) : s.tryReady.1 =
    match s.latestFailure with
    | some error => .error (.loadFailed s.sent error)
    | none => (s.takeAck true (.ok false)).1 := by
  have hfound := (findReport_eq s.sent s.reports.items).1
  unfold tryReady latestFailure
  rw [← hfound]
  generalize findReport s.sent s.reports.items = found
  obtain ⟨_ | error, rest⟩ := found
  · exact takeAck_withReports true (.ok false) rest s
  · rfl

/-- What waiting may come to while nobody else does anything. It takes what it finds, in any order: an
acknowledgment, that none can come any more, or the next report. Only when there is nothing to take does the
time run out. -/
inductive Waits (microseconds : Nat) : Session α σ → Except ProtocolError Unit → Prop
  | acknowledged {s : Session α σ} (hunread : s.acks.items ≠ []) : Waits microseconds s (.ok ())
  | hungUp {s : Session α σ} (hnone : s.acks.items = []) (hgone : s.processorAlive = false) :
    Waits microseconds s (.error .disconnected)
  | failed {s : Session α σ} {r : LoadReport} {rest : List LoadReport}
    (hitems : s.reports.items = r :: rest) (hlatest : r.generation = s.sent) :
    Waits microseconds s (.error (.loadFailed s.sent r.error))
  | passed {s : Session α σ} {r : LoadReport} {rest : List LoadReport} {answer : Except ProtocolError Unit}
    (hitems : s.reports.items = r :: rest) (hstale : r.generation ≠ s.sent)
    (hrest : Waits microseconds (s.withReports rest) answer) : Waits microseconds s answer
  | elapsed {s : Session α σ} (hacks : s.acks.items = []) (hreports : s.reports.items = [])
    (halive : s.processorAlive = true) : Waits microseconds s (.error (.timeout microseconds))

theorem waits_takeAck {microseconds : Nat}
    (htaken : s.reports.items = [] ∨ s.acks.items ≠ [] ∨ s.processorAlive = false) :
    s.Waits microseconds (s.takeAck () (.error (.timeout microseconds))).1 := by
  unfold takeAck
  cases hacks : s.acks.items with
  | cons ack rest => exact .acknowledged (by rw [hacks]; exact List.cons_ne_nil ack rest)
  | nil =>
    dsimp only
    by_cases halive : s.processorAlive = true
    · rw [if_pos halive]
      refine .elapsed hacks (htaken.resolve_right ?_) halive
      rintro (hunread | hgone)
      · exact hunread hacks
      · exact ne_true_of_eq_false hgone halive
    · rw [if_neg halive]
      exact .hungUp hacks (Bool.eq_false_iff.mpr halive)

-- Whichever is taken first at each turn, the wait follows these rules.
theorem waits_waitReadyFor {ackFirst : Nat → Bool} {microseconds fuel : Nat}
    (hfuel : s.reports.items.length < fuel) :
    s.Waits microseconds (s.waitReadyFor ackFirst microseconds fuel).1 := by
  induction fuel generalizing s with
  | zero => exact absurd hfuel (Nat.not_lt_zero _)
  | succ fuel ih =>
    unfold waitReadyFor
    dsimp only
    split
    · rename_i hfirst
      refine waits_takeAck (.inr ?_)
      simp only [Bool.and_eq_true, Bool.or_eq_true, Bool.not_eq_true', List.isEmpty_eq_false_iff] at hfirst
      exact hfirst.1
    · cases hitems : s.reports.items with
      | nil => exact waits_takeAck (.inl hitems)
      | cons r rest =>
        dsimp only
        split
        · exact .failed hitems ‹_›
        · refine .passed hitems ‹_› (ih (s := s.withReports rest) ?_)
          rw [hitems, List.length_cons] at hfuel
          exact Nat.lt_of_succ_lt_succ hfuel

theorem waits_waitReady (ackFirst : Nat → Bool) (microseconds : Nat) (s : Session α σ) :
    s.Waits microseconds (s.waitReady ackFirst microseconds).1 :=
  waits_waitReadyFor (Nat.lt_succ_self _)

/-- What waiting comes to where looking at once gives this answer. -/
def waited (microseconds : Nat) : Except ProtocolError Bool → Except ProtocolError Unit
  | .ok true => .ok ()
  | .ok false => .error (.timeout microseconds)
  | .error e => .error e

-- While no load is both acknowledged and reported, the order makes no difference as long as the processor is
-- there. Once it has gone, the wait may end with that.
theorem Waits.eq_waited {microseconds : Nat} {answer : Except ProtocolError Unit}
    (h : s.Waits microseconds answer) (hapart : s.acks.items ≠ [] → s.latestFailure = none) :
    answer = waited microseconds s.tryReady.1 ∨
      s.processorAlive = false ∧ answer = .error .disconnected := by
  rw [tryReady_answer]
  induction h with
  | @acknowledged s hunread =>
    left
    rw [hapart hunread]
    unfold takeAck
    cases hacks : s.acks.items with
    | nil => exact absurd hacks hunread
    | cons => rfl
  | hungUp hnone hgone => exact .inr ⟨hgone, rfl⟩
  | @failed s r rest hitems hlatest =>
    left
    rw [latestFailure_cons hitems, if_pos hlatest]
    rfl
  | @passed s r rest answer hitems hstale hrest ih =>
    have hsame : (s.withReports rest).latestFailure = s.latestFailure := by
      rw [latestFailure_cons hitems, if_neg hstale]
    have hrest := ih (by rw [hsame]; exact hapart)
    rw [hsame, takeAck_withReports] at hrest
    exact hrest
  | @elapsed s hacks hreports halive =>
    left
    have hnone : s.latestFailure = none := by
      rw [latestFailure_eq_none_iff, hreports]
      nofun
    rw [hnone]
    unfold takeAck
    rw [hacks]
    dsimp only
    rw [if_pos halive]
    rfl

-- So a wait comes to one thing.
theorem waits_iff (halive : s.processorAlive = true) (hapart : s.acks.items ≠ [] → s.latestFailure = none)
    {microseconds : Nat} {answer : Except ProtocolError Unit} :
    s.Waits microseconds answer ↔ answer = waited microseconds s.tryReady.1 := by
  have hone {answer : Except ProtocolError Unit} (h : s.Waits microseconds answer) :
      answer = waited microseconds s.tryReady.1 :=
    (h.eq_waited hapart).resolve_right fun hgone => ne_true_of_eq_false hgone.1 halive
  refine ⟨hone, ?_⟩
  rintro rfl
  have hwaits := s.waits_waitReady (fun _ => true) microseconds
  rw [← hone hwaits]
  exact hwaits

theorem tryReady_cases (halive : s.processorAlive = true) :
    s.tryReady.1 = .ok true ∨ s.tryReady.1 = .ok false ∨
      ∃ error, s.tryReady.1 = .error (.loadFailed s.sent error) := by
  rw [tryReady_answer]
  cases s.latestFailure with
  | some error => exact .inr (.inr ⟨error, rfl⟩)
  | none =>
    dsimp only
    unfold takeAck
    cases s.acks.items with
    | cons => exact .inl rfl
    | nil => exact .inr (.inl (if_pos halive))

/-- Waiting and looking at once say the same, each in its own words. -/
structure SameAnswer (microseconds : Nat) (looked : Except ProtocolError Bool)
    (answer : Except ProtocolError Unit) : Prop where
  ready : answer = .ok () ↔ looked = .ok true
  failed : ∀ generation error,
    answer = .error (.loadFailed generation error) ↔ looked = .error (.loadFailed generation error)
  timeout : answer = .error (.timeout microseconds) ↔ looked = .ok false

theorem sameAnswer_waited (halive : s.processorAlive = true) (microseconds : Nat) :
    SameAnswer microseconds s.tryReady.1 (waited microseconds s.tryReady.1) := by
  obtain hlooked | hlooked | ⟨error, hlooked⟩ := tryReady_cases halive <;> rw [hlooked] <;>
    constructor <;> simp [waited]

/-- Looking for readiness and waiting for it agree. -/
structure Agrees (s : Session α σ) : Prop where
  /-- The latest load is not both acknowledged and reported as failed. -/
  apart : s.acks.items ≠ [] → ∀ r ∈ s.reports.items, r.generation ≠ s.sent
  /-- It is acknowledged, still to be answered for, or has failed. -/
  looks : s.tryReady.1 = .ok true ∨ s.tryReady.1 = .ok false ∨
    ∃ error, s.tryReady.1 = .error (.loadFailed s.sent error)
  /-- Whatever a wait takes first, it comes to the same, -/
  waits : ∀ microseconds answer, s.Waits microseconds answer → SameAnswer microseconds s.tryReady.1 answer
  once : ∀ microseconds answer other, s.Waits microseconds answer → s.Waits microseconds other →
    other = answer
  /-- and so does a wait with any preference. -/
  waitReady : ∀ ackFirst microseconds,
    SameAnswer microseconds s.tryReady.1 (s.waitReady ackFirst microseconds).1
  /-- Reports of earlier loads may come, go or change places. -/
  stale : ∀ reports : List LoadReport,
    reports.filter (·.generation = s.sent) = s.reports.items.filter (·.generation = s.sent) →
    (s.withReports reports).tryReady.1 = s.tryReady.1 ∧ ∀ microseconds answer,
      (s.withReports reports).Waits microseconds answer ↔ s.Waits microseconds answer

-- Two sessions with the same reports of the latest load say the same.
theorem latestFailure_withReports {reports : List LoadReport}
    (h : reports.filter (·.generation = s.sent) = s.reports.items.filter (·.generation = s.sent)) :
    (s.withReports reports).latestFailure = s.latestFailure := by
  rw [latestFailure_eq_head?, latestFailure_eq_head?]
  exact congrArg (fun rs => rs.head?.map LoadReport.error) h

theorem agrees_of_apart (halive : s.processorAlive = true)
    (hapart : s.acks.items ≠ [] → ∀ r ∈ s.reports.items, r.generation ≠ s.sent) : s.Agrees := by
  have hnone : s.acks.items ≠ [] → s.latestFailure = none :=
    fun hunread => latestFailure_eq_none_iff.mpr (hapart hunread)
  refine ⟨hapart, tryReady_cases halive, ?_, ?_, ?_, ?_⟩
  · intro microseconds answer h
    rw [(waits_iff halive hnone).mp h]
    exact sameAnswer_waited halive microseconds
  · intro microseconds answer other h hother
    exact ((waits_iff halive hnone).mp hother).trans ((waits_iff halive hnone).mp h).symm
  · intro ackFirst microseconds
    rw [(waits_iff halive hnone).mp (s.waits_waitReady ackFirst microseconds)]
    exact sameAnswer_waited halive microseconds
  · intro reports hsame
    have hfailure := latestFailure_withReports hsame
    have hlooked : (s.withReports reports).tryReady.1 = s.tryReady.1 := by
      rw [tryReady_answer, tryReady_answer, hfailure, takeAck_withReports]
      rfl
    have hkept : (s.withReports reports).acks.items ≠ [] → (s.withReports reports).latestFailure = none :=
      fun hunread => hfailure.trans (hnone hunread)
    refine ⟨hlooked, fun microseconds answer => ?_⟩
    rw [waits_iff (s := s.withReports reports) halive hkept, waits_iff halive hnone, hlooked]

end Session

namespace History

variable [CompiledModule σ]

/-- Whatever happens in a session, as long as its processor is there: looking for readiness and waiting for it
agree, and what a wait takes first makes no difference to its answer. -/
theorem readiness_agrees {config : Config} {s : Session α σ} (hlink : Session.link? config = some s)
    (moves : List (Move α σ)) (halive : (History.through ⟨s, []⟩ moves).session.processorAlive = true) :
    (History.through ⟨s, []⟩ moves).session.Agrees := by
  have hapart := (Ledger.apart_through hlink moves).unreported
  have hhistory : ((Ledger.start s).through moves).history = History.through ⟨s, []⟩ moves :=
    Ledger.history_through (Ledger.start s) moves
  rw [hhistory] at hapart
  exact Session.agrees_of_apart halive hapart

/-- The first load has failed and is reported, and the second is acknowledged; neither has been read, and the
worker has gone. -/
theorem readiness_agrees_stale :
    let load : Unit → Except LoadError CannedModule := fun _ => .ok ⟨[], .ok 0, .ok ⟨0⟩, []⟩
    let fail : Unit → Except LoadError CannedModule := fun _ => .error (.malformed "empty")
    let s : Session Unit CannedModule := {
      quantum := 1, scratchBytes := 4, control := .empty 2, requests := .empty 2, outcomes := .empty 2
      acks := .empty 1, reports := .empty 1 }
    let moves : List (Move Unit CannedModule) := [.turn (.load ()), .turn (.process []),
      .turn (.handle fail), .turn (.load ()), .turn (.process []), .turn (.handle load), .dropWorker,
      .turn (.process [])]
    let t := (History.through ⟨s, []⟩ moves).session
    Session.link? {
      quantumSize := 1, controlCapacity := 2, loaderCapacity := 2, eventCapacity := 1 } = some s ∧
    t.processorAlive = true ∧ t.Agrees ∧ t.acks.items = [()] ∧
    t.reports.items = [⟨1, .malformed "empty"⟩] ∧ t.tryReady.1 = .ok true ∧
    (t.waitReady (fun _ => true) 5).1 = .ok () ∧ (t.waitReady (fun _ => false) 5).1 = .ok () := by
  intro load fail s moves t
  have hlink : Session.link? {
      quantumSize := 1, controlCapacity := 2, loaderCapacity := 2, eventCapacity := 1 } = some s := rfl
  have halive : t.processorAlive = true := by decide +kernel
  have hagrees := readiness_agrees hlink moves halive
  have hlooked : t.tryReady.1 = .ok true := by decide +kernel
  exact ⟨hlink, halive, hagrees, by decide +kernel, by decide +kernel, hlooked,
    (hagrees.waitReady _ _).ready.mpr hlooked, (hagrees.waitReady _ _).ready.mpr hlooked⟩

end History

end SampleStream
