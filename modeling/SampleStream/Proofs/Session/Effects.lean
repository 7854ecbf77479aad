import SampleStream.Session.Controller
import SampleStream.Session.Processor
import SampleStream.Session.Worker

/-!
# What the parts of a session do

One statement for each operation, which says all that it changes. Invariants are proved from these
statements and open no operation. A module that was given up is gone for good (`Gone`): it is on its way to
be dropped by the worker, or has been dropped.
-/

namespace SampleStream

universe u v

variable {α : Type v} {σ : Type u}

/-- The slot with this module in the active place, and none parked. -/
def Processor.resumed (p : Processor σ) (held : Option (Active σ)) : Processor σ :=
  { p with active := held, parked := none, state := if held.isSome then .ready else .unloaded }

/-- The slot that has begun a load: what was active is parked. -/
def Processor.begun (p : Processor σ) : Processor σ :=
  { p with
    state := .loading, active := none, parked := p.active.or p.parked, ackPending := false
    generation := p.generation + 1 }

/-- The slot whose load was refused: what was held before is active. -/
def Processor.denied (p : Processor σ) : Processor σ :=
  { p with
    ackPending := false, generation := p.generation + 1
    stats := { p.stats with droppedLoads := p.stats.droppedLoads + 1 } }.resumed
      (p.active.or p.parked)

/-- The slot with a new module. -/
def Processor.adopting (p : Processor σ) (a : Active σ) : Processor σ :=
  { p with state := .ready, active := some a, parked := none, ackPending := true }

/-- One step of an active module: what it brings into every channel, none when anything fails, and the
module after it. -/
def Active.play [CompiledModule σ] (a : Active σ) (quantum : Nat) (channels : List (List Sample)) :
    Option (List (List Sample)) × Active σ :=
  let (ending, state) := CompiledModule.step a.module.state a.current quantum a.scratch
  let left (current : Handle) : Active σ := { a with module := { a.module with state }, current }
  match ending with
  | .done next =>
    ((channels.mapM (Session.fillChannel (CompiledModule.memory state) a.scratch quantum)).toOption,
      left next)
  | _ => (none, left a.current)

theorem Active.play_id [CompiledModule σ] (a : Active σ) (quantum : Nat)
    (channels : List (List Sample)) : (a.play quantum channels).2.module.id = a.module.id := by
  unfold Active.play
  dsimp only
  split <;> rfl

/-- The module with this number is in the slot, active or parked. -/
def Processor.Holds (p : Processor σ) (id : Nat) : Prop :=
  ∃ a, (p.active = some a ∨ p.parked = some a) ∧ a.module.id = id

theorem Processor.holds_of_or {p : Processor σ} {a : Active σ} (h : p.active.or p.parked = some a) :
    p.Holds a.module.id := by
  rw [Option.or_eq_some_iff] at h
  exact ⟨a, h.imp_right And.right, rfl⟩

theorem Processor.holds_of_begun {p : Processor σ} {id : Nat} (h : p.begun.Holds id) : p.Holds id := by
  obtain ⟨a, hactive | hparked, rfl⟩ := h
  · cases hactive
  · exact holds_of_or hparked

theorem Processor.holds_of_denied {p : Processor σ} {id : Nat} (h : p.denied.Holds id) : p.Holds id := by
  obtain ⟨a, hactive | hparked, rfl⟩ := h
  · exact holds_of_or hactive
  · cases hparked

theorem Processor.holds_of_resumed {p : Processor σ} {id : Nat}
    (h : (p.resumed p.parked).Holds id) : p.Holds id := by
  obtain ⟨a, hactive | hparked, rfl⟩ := h
  · exact ⟨a, .inr hactive, rfl⟩
  · cases hparked

theorem Processor.holds_of_adopting {p : Processor σ} {a : Active σ} {id : Nat}
    (h : (p.adopting a).Holds id) : id = a.module.id := by
  obtain ⟨b, hactive | hparked, rfl⟩ := h
  · cases hactive
    rfl
  · cases hparked

/-- What is left of a queue when items were taken from its front. -/
structure Queue.Left {β : Type u} (q rest : Queue β) : Prop where
  capacity : rest.capacity = q.capacity
  items : rest.items <:+ q.items

theorem Queue.Left.refl {β : Type u} (q : Queue β) : q.Left q :=
  ⟨rfl, List.suffix_refl q.items⟩

/-- The module that is stepped. -/
def Event.stepped? : Event → Option Nat
  | .stepped id _ _ _ => some id
  | _ => none

namespace Session

variable {s : Session α σ}

/-- The modules that were stepped, the last step first. -/
def steps (s : Session α σ) : List Nat :=
  s.trace.filterMap Event.stepped?

/-- The module has been handed over to be dropped, or is dropped. -/
def Gone (s : Session α σ) (id : Nat) : Prop :=
  (∃ m, Request.retire m ∈ s.requests.items ∧ m.id = id) ∨ Event.dropped id ∈ s.trace

theorem request?_eq_some {r : Request α σ} {next : Session α σ} (h : s.request? r = some next) :
    ∃ requests, s.requests.push? r = some requests ∧ next = { s with requests } := by
  unfold request? at h
  split at h
  · obtain ⟨requests, hpush, rfl⟩ := Option.map_eq_some_iff.mp h
    exact ⟨requests, hpush, rfl⟩
  · cases h

theorem workerAlive_of_request? {r : Request α σ} {next : Session α σ} (h : s.request? r = some next) :
    s.workerAlive = true := by
  unfold request? at h
  split at h
  · rename_i hworker
    exact hworker
  · cases h

-- Without the worker nobody takes requests.
theorem request?_of_gone (hgone : s.workerAlive = false) (r : Request α σ) : s.request? r = none :=
  if_neg (Bool.eq_false_iff.mp hgone)

-- A module that is retired is gone, and nothing else happens.
theorem retire_eq (m : Loaded σ) (s : Session α σ) : ∃ requests trace,
    s.retire m = { s with requests, trace } ∧ (s.retire m).steps = s.steps ∧
    ∀ id, (s.retire m).Gone id ↔ s.Gone id ∨ id = m.id := by
  unfold retire
  cases hr : s.request? (.retire m) with
  | some next =>
    obtain ⟨requests, hpush, rfl⟩ := request?_eq_some hr
    refine ⟨requests, s.trace, rfl, rfl, fun id => ?_⟩
    -- the queue takes the module as its last request
    have hitems := Queue.items_of_push? hpush
    constructor
    · rintro (⟨k, hk, rfl⟩ | hd)
      · rw [hitems, List.mem_append, List.mem_singleton] at hk
        rcases hk with hk | hk
        · exact .inl (.inl ⟨k, hk, rfl⟩)
        · cases hk
          exact .inr rfl
      · exact .inl (.inr hd)
    · rintro ((⟨k, hk, rfl⟩ | hd) | rfl)
      · exact .inl ⟨k, by rw [hitems]; exact List.mem_append_left _ hk, rfl⟩
      · exact .inr hd
      · exact .inl ⟨m, by rw [hitems]; exact List.mem_append_right _ (List.mem_singleton_self _), rfl⟩
  | none =>
    -- the queue is full or nobody serves it, and the module is dropped here
    refine ⟨s.requests, .dropped m.id :: s.trace, rfl, rfl, fun id => ?_⟩
    change (_ ∨ Event.dropped id ∈ Event.dropped m.id :: s.trace) ↔ _
    rw [List.mem_cons, Event.dropped.injEq, ← or_assoc, or_right_comm]
    rfl

-- Falling back to the parked module, with no active one to be dropped.
theorem restoreParked_eq (hactive : s.processor.active = none) :
    s.restoreParked = { s with processor := s.processor.resumed s.processor.parked } := by
  unfold restoreParked
  cases hparked : s.processor.parked with
  | some a => simp [install, dropActive, hactive, Processor.resumed]
  | none => simp [hactive, hparked, Processor.resumed]

-- A load on its way to the worker is no module.
theorem gone_push_instantiate {generation : Nat} {source : α} {requests : Queue (Request α σ)}
    (hpush : s.requests.push? (.instantiate generation source) = some requests) (p : Processor σ)
    (id : Nat) : ({ s with requests, processor := p } : Session α σ).Gone id ↔ s.Gone id := by
  unfold Gone
  dsimp only
  simp only [Queue.items_of_push? hpush, List.mem_append, List.mem_singleton, reduceCtorEq, or_false]

-- A retired module that is dropped was gone before.
theorem gone_retired {m : Loaded σ} {rest : List (Request α σ)} {t : Session α σ}
    (hitems : s.requests.items = .retire m :: rest) (hrequests : t.requests.items = rest)
    (htrace : t.trace = .dropped m.id :: s.trace) (id : Nat) : t.Gone id ↔ s.Gone id := by
  unfold Gone
  rw [hitems, hrequests, htrace]
  simp only [List.mem_cons, Request.retire.injEq, Event.dropped.injEq]
  constructor
  · rintro (⟨k, hk, rfl⟩ | rfl | hid)
    · exact .inl ⟨k, .inr hk, rfl⟩
    · exact .inl ⟨m, .inl rfl, rfl⟩
    · exact .inr hid
  · rintro (⟨k, rfl | hk, rfl⟩ | hid)
    · exact .inr (.inl rfl)
    · exact .inl ⟨k, hk, rfl⟩
    · exact .inr (.inr hid)

-- A load that was tried leaves gone what it has dropped.
theorem gone_tried {generation : Nat} {source : α} {rest : List (Request α σ)} {t : Session α σ}
    {events : List Event} (hitems : s.requests.items = .instantiate generation source :: rest)
    (hrequests : t.requests.items = rest) (htrace : t.trace = events ++ s.trace) (id : Nat) :
    t.Gone id ↔ s.Gone id ∨ Event.dropped id ∈ events := by
  unfold Gone
  rw [hitems, hrequests, htrace, List.mem_append]
  simp only [List.mem_cons, reduceCtorEq, false_or]
  rw [or_comm (b := Event.dropped id ∈ s.trace), or_assoc]

-- A step gives no module up.
theorem gone_stepped {t : Session α σ} {a : Active σ} {quantum : Nat}
    (hrequests : t.requests = s.requests)
    (htrace : t.trace = .stepped a.module.id a.current quantum a.scratch :: s.trace) (id : Nat) :
    t.Gone id ↔ s.Gone id := by
  unfold Gone
  rw [hrequests, htrace]
  simp only [List.mem_cons, reduceCtorEq, false_or]

-- A load that is taken on is forwarded if the worker is there and its queue has room for it.
theorem receive_eq_request (source : α) (hslot : s.processor.active = none ∨ s.processor.parked = none) :
    s.receive source = match s.request? (.instantiate (s.processor.generation + 1) source) with
      | some next => { next with processor := s.processor.begun }
      | none => { s with processor := s.processor.denied } := by
  -- parking retires nothing, since only one of the two places is taken
  have hpark : ({ s with processor := { s.processor with generation := s.processor.generation + 1 } }).park
      = { s with processor := { s.processor with
          active := none, parked := s.processor.active.or s.processor.parked
          generation := s.processor.generation + 1 } } := by
    unfold park
    cases hactive : s.processor.active with
    | none => simp [hactive]
    | some a =>
      have hparked : s.processor.parked = none := hslot.resolve_left (by simp [hactive])
      simp [hparked]
  unfold receive
  rw [hpark]
  unfold request?
  dsimp only
  by_cases hworker : s.workerAlive = true
  · rw [if_pos hworker, if_pos hworker]
    cases s.requests.push? (.instantiate (s.processor.generation + 1) source) with
    | none => exact restoreParked_eq rfl
    | some requests => rfl
  · rw [if_neg hworker, if_neg hworker]
    exact restoreParked_eq rfl

-- So it is forwarded, or refused and counted.
theorem receive_cases (source : α) (hslot : s.processor.active = none ∨ s.processor.parked = none) :
    (∃ requests, s.requests.push? (.instantiate (s.processor.generation + 1) source) = some requests ∧
      s.receive source = { s with requests, processor := s.processor.begun }) ∨
    s.receive source = { s with processor := s.processor.denied } := by
  rw [receive_eq_request source hslot]
  cases hr : s.request? (.instantiate (s.processor.generation + 1) source) with
  | none => exact .inr rfl
  | some next =>
    obtain ⟨requests, hpush, rfl⟩ := request?_eq_some hr
    exact .inl ⟨requests, hpush, rfl⟩

/-- The outcome is that of the latest load, which is still waited for. -/
def Current (s : Session α σ) (o : LoadOutcome σ) : Prop :=
  o.generation = s.processor.generation ∧ s.processor.state = .loading

instance (s : Session α σ) (o : LoadOutcome σ) : Decidable (s.Current o) :=
  inferInstanceAs (Decidable (_ ∧ _))

-- The module of the latest load becomes active; the parked one is given up.
theorem adopt_loaded_current {p : Prepared σ} (hcurrent : s.Current (.loaded p))
    (hactive : s.processor.active = none) : ∃ requests trace,
    s.adopt (.loaded p) = { s with requests, trace, processor := s.processor.adopting p.activate } ∧
    (s.adopt (.loaded p)).steps = s.steps ∧
    ∀ id, (s.adopt (.loaded p)).Gone id ↔
      s.Gone id ∨ ∃ a, s.processor.parked = some a ∧ id = a.module.id := by
  have hadopt : s.adopt (.loaded p) =
      { s.retireParked.install p.activate with
        processor := { (s.retireParked.install p.activate).processor with ackPending := true } } :=
    if_pos hcurrent
  rw [hadopt]
  unfold retireParked
  cases hparked : s.processor.parked with
  | none =>
    refine ⟨s.requests, s.trace, ?_, ?_, fun id => ?_⟩
    · simp [install, dropActive, hactive, Processor.adopting, hparked]
    · simp [install, dropActive, hactive, steps]
    · simp only [install, dropActive, hactive, reduceCtorEq, false_and, exists_false, or_false]
      rfl
  | some a =>
    dsimp only
    obtain ⟨requests, trace, heq, hsteps, hgone⟩ :=
      retire_eq a.module { s with processor := { s.processor with parked := none } }
    rw [heq] at hsteps hgone ⊢
    refine ⟨requests, trace, ?_, ?_, fun id => ?_⟩
    · simp [install, dropActive, hactive, Processor.adopting]
    · simp only [install, dropActive, hactive]
      exact hsteps
    · have hsame := hgone id
      simp only [install, dropActive, hactive, Option.some.injEq, exists_eq_left']
      exact hsame

-- The module of an earlier load is given up.
theorem adopt_loaded_late {p : Prepared σ} (hlate : ¬s.Current (.loaded p)) :
    s.adopt (.loaded p) = s.retire p.module :=
  if_neg hlate

theorem adopt_failed_current {generation : Nat} (hcurrent : s.Current (.failed generation))
    (hactive : s.processor.active = none) : s.adopt (.failed generation) =
      { s with processor := s.processor.resumed s.processor.parked } :=
  (if_pos hcurrent).trans (restoreParked_eq hactive)

theorem adopt_failed_late {generation : Nat} (hlate : ¬s.Current (.failed generation)) :
    s.adopt (.failed generation) = s :=
  if_neg hlate

theorem acknowledge_eq (s : Session α σ) : ∃ acks ackPending,
    s.acknowledge = { s with acks, processor := { s.processor with ackPending } } := by
  unfold acknowledge
  split
  · split
    · split
      · exact ⟨_, _, rfl⟩
      · exact ⟨s.acks, s.processor.ackPending, rfl⟩
    · exact ⟨s.acks, _, rfl⟩
  · exact ⟨s.acks, s.processor.ackPending, rfl⟩

theorem report_eq (r : LoadReport) (s : Session α σ) :
    ∃ reports, s.report r = { s with reports } := by
  unfold report
  split
  · split
    · exact ⟨_, rfl⟩
    · exact ⟨s.reports, rfl⟩
  · exact ⟨s.reports, rfl⟩

theorem deliver_eq_some {o : LoadOutcome σ} {next : Session α σ} (halive : s.processorAlive = true)
    (h : s.deliver o = some next) : ∃ outcomes, s.outcomes.push? o = some outcomes ∧
      next = { s with outcomes } := by
  unfold deliver at h
  rw [if_pos halive] at h
  obtain ⟨outcomes, hpush, rfl⟩ := Option.map_eq_some_iff.mp h
  exact ⟨outcomes, hpush, rfl⟩

/-- The session before the messages of a quantum are looked at. -/
def counted (s : Session α σ) : Session α σ :=
  s.count fun c => { c with quanta := c.quanta + 1 }

-- A load is refused, or is sent under the next number. Either way the acknowledgments of earlier ones are
-- thrown away.
theorem load_cases (source : α) (s : Session α σ) :
    (∃ error, s.load source = (.error error, { s with acks := s.acks.clear })) ∨
      ∃ control, s.control.push? source = some control ∧
        s.load source =
          (.ok (s.sent + 1), { s with acks := s.acks.clear, control, sent := s.sent + 1 }) := by
  unfold load
  dsimp only
  split
  · split
    · exact .inr ⟨_, ‹_›, rfl⟩
    · exact .inl ⟨_, rfl⟩
  · exact .inl ⟨_, rfl⟩

-- Sending a load concerns the controller's queues only.
theorem load_eq (source : α) (s : Session α σ) : ∃ acks control sent,
    (s.load source).2 = { s with acks, control, sent } := by
  rcases s.load_cases source with ⟨error, heq⟩ | ⟨control, -, heq⟩
  · exact ⟨_, s.control, s.sent, congrArg Prod.snd heq⟩
  · exact ⟨_, control, _, congrArg Prod.snd heq⟩

theorem takeAck_eq {β : Type} (present : β) (absent : Except ProtocolError β) (s : Session α σ) :
    ∃ acks, (s.takeAck present absent).2 = { s with acks } ∧ s.acks.Left acks := by
  unfold takeAck
  split
  · rename_i first rest hitems
    exact ⟨_, rfl, rfl, by rw [hitems]; exact List.suffix_cons first rest⟩
  · exact ⟨s.acks, rfl, .refl s.acks⟩

-- Looking for readiness takes acknowledgments and reports, and nothing else.
theorem tryReady_eq (s : Session α σ) :
    ∃ acks reports, s.tryReady.2 = { s with acks, reports } ∧ s.acks.Left acks := by
  unfold tryReady
  split
  · exact ⟨s.acks, _, rfl, .refl s.acks⟩
  · rename_i rest _
    obtain ⟨acks, hack, hleft⟩ := (s.withReports rest).takeAck_eq true (.ok false)
    exact ⟨acks, _, hack, hleft⟩

theorem waitReadyFor_eq (ackFirst : Nat → Bool) (microseconds fuel : Nat) (s : Session α σ) :
    ∃ acks reports, (s.waitReadyFor ackFirst microseconds fuel).2 = { s with acks, reports } ∧
      s.acks.Left acks := by
  have hack (s : Session α σ) : ∃ acks reports,
      (s.takeAck () (.error (.timeout microseconds))).2 = { s with acks, reports } ∧
        s.acks.Left acks := by
    obtain ⟨acks, hack, hleft⟩ := s.takeAck_eq () (.error (.timeout microseconds))
    exact ⟨acks, s.reports, hack, hleft⟩
  induction fuel generalizing s with
  | zero => exact hack s
  | succ fuel ih =>
    unfold waitReadyFor
    dsimp only
    split
    · exact hack s
    · split
      · rename_i r rest _
        split
        · exact ⟨s.acks, _, rfl, .refl s.acks⟩
        · obtain ⟨acks, reports, hwait, hleft⟩ := ih (s.withReports rest)
          exact ⟨acks, reports, hwait, hleft⟩
      · exact hack s

section Modules

variable [CompiledModule σ]

/-- The session after a module was played in it. -/
def afterPlaying (s : Session α σ) (a : Active σ) (channels : List (List Sample)) : Session α σ :=
  let played := a.play s.quantum channels
  let stats := { s.processor.stats with
    failed := s.processor.stats.failed + if played.1.isSome then 0 else 1 }
  { s with
    trace := .stepped a.module.id a.current s.quantum a.scratch :: s.trace
    processor := { s.processor with active := some played.2, stats } }

theorem render_eq_play {a : Active σ} (hactive : s.processor.active = some a)
    (channels : List (List Sample)) : s.render channels =
      ((a.play s.quantum channels).1, { s with
        trace := .stepped a.module.id a.current s.quantum a.scratch :: s.trace
        processor := { s.processor with active := some (a.play s.quantum channels).2 } }) := by
  unfold render Active.play
  rw [hactive]
  dsimp only [note]
  generalize CompiledModule.step a.module.state a.current s.quantum a.scratch = result
  obtain ⟨ending, state⟩ := result
  cases ending <;> rfl

-- In a quantum in which a module is ready, that module is played, and nothing else happens then.
theorem process_eq_afterPlaying {a : Active σ}
    (hstate : s.counted.drain.processor.state = .ready)
    (hactive : s.counted.drain.processor.active = some a) (channels : List (List Sample)) :
    s.process channels = ((a.play s.counted.drain.quantum channels).1.getD (silence channels),
      s.counted.drain.acknowledge.afterPlaying a channels) := by
  -- acknowledging leaves the module and the size of a quantum as they are
  obtain ⟨acks, ackPending, hack⟩ := s.counted.drain.acknowledge_eq
  have hquantum : s.counted.drain.acknowledge.quantum = s.counted.drain.quantum := by rw [hack]
  have hrender := render_eq_play (s := s.counted.drain.acknowledge) (by rw [hack]; exact hactive) channels
  have hcounted : (s.count fun c => { c with quanta := c.quanta + 1 }) = s.counted := rfl
  unfold process
  rw [hcounted]
  dsimp only
  rw [if_pos hstate, hrender, afterPlaying, ← hquantum]
  generalize a.play s.counted.drain.acknowledge.quantum channels = played
  obtain ⟨filled, next⟩ := played
  cases filled <;> rfl

/-- The session after a quantum without a module. -/
def afterSilence (s : Session α σ) : Session α σ :=
  s.count fun c => { c with silent := c.silent + 1 }

theorem process_eq_afterSilence (hstate : s.counted.drain.processor.state ≠ .ready)
    (channels : List (List Sample)) :
    s.process channels = (silence channels, s.counted.drain.afterSilence) :=
  if_neg hstate

-- A load that the worker tries: the module has the next number, and what is done with modules is done
-- with that one. It is dropped only if it is not handed out.
theorem prepare_cases (load : α → Except LoadError σ) (generation : Nat) (source : α)
    (s : Session α σ) : ∃ result events,
    s.prepare load generation source =
      (result, { s with loads := s.loads + 1, trace := events ++ s.trace }) ∧
    (∀ e ∈ events, e.module = s.loads + 1 ∧ e.stepped? = none) ∧
    ∀ p, result = .ok p → p.generation = generation ∧ p.module.id = s.loads + 1 ∧
      ∀ id, Event.dropped id ∉ events := by
  unfold prepare
  dsimp only
  split
  · exact ⟨_, [], rfl, by simp, nofun⟩
  · dsimp only [note]
    split
    · refine ⟨_, [.dropped (s.loads + 1), .alloc (s.loads + 1) s.scratchBytes], rfl, ?_, nofun⟩
      simp [Event.module, Event.stepped?]
    · split
      · refine ⟨_, [.dropped (s.loads + 1), .entered (s.loads + 1),
          .alloc (s.loads + 1) s.scratchBytes], rfl, ?_, nofun⟩
        simp [Event.module, Event.stepped?]
      · refine ⟨_, [.entered (s.loads + 1), .alloc (s.loads + 1) s.scratchBytes], rfl, ?_, ?_⟩
        · simp [Event.module, Event.stepped?]
        · rintro p ⟨⟩
          simp

-- A load that has been handled has its outcome at the end of the queue. The module that comes of it has
-- the next number; it is dropped only if it does not come.
theorem handle_instantiate {load : α → Except LoadError σ} {generation : Nat} {source : α}
    {next : Session α σ} (halive : s.processorAlive = true)
    (h : s.handle load (.instantiate generation source) = some next) :
    ∃ o outcomes reports events, s.outcomes.push? o = some outcomes ∧ o.generation = generation ∧
      next = { s with outcomes, reports, loads := s.loads + 1, trace := events ++ s.trace } ∧
      (∀ e ∈ events, e.module = s.loads + 1 ∧ e.stepped? = none) ∧
      ∀ p, o = .loaded p → p.module.id = s.loads + 1 ∧ ∀ id, Event.dropped id ∉ events := by
  obtain ⟨result, events, hprepare, hevents, hok⟩ := prepare_cases load generation source s
  let tried : Session α σ := { s with loads := s.loads + 1, trace := events ++ s.trace }
  have halive' : tried.processorAlive = true := halive
  unfold handle at h
  dsimp only at h
  rw [hprepare] at h
  cases result with
  | ok p =>
    change tried.deliver (.loaded p) = some next at h
    obtain ⟨outcomes, hpush, rfl⟩ := deliver_eq_some halive' h
    obtain ⟨hgeneration, hid, hdropped⟩ := hok p rfl
    refine ⟨.loaded p, outcomes, s.reports, events, hpush, hgeneration, rfl, hevents, ?_⟩
    rintro q ⟨⟩
    exact ⟨hid, hdropped⟩
  | error e =>
    change (tried.report ⟨generation, e⟩).deliver (.failed generation) = some next at h
    obtain ⟨reports, hreport⟩ := tried.report_eq ⟨generation, e⟩
    rw [hreport] at h
    obtain ⟨outcomes, hpush, rfl⟩ := deliver_eq_some (s := { tried with reports }) halive' h
    exact ⟨.failed generation, outcomes, reports, events, hpush, rfl, rfl, hevents, nofun⟩

/-- What has become of the request at the front. -/
inductive Handled (s next : Session α σ) : Prop
  | nothing (hitems : s.requests.items = []) (hnext : next = s)
  | dropped (m : Loaded σ) (rest : List (Request α σ)) (hitems : s.requests.items = .retire m :: rest)
    (hnext : next =
      ({ s with requests := { s.requests with items := rest } } : Session α σ).dropModule m)
  | tried (generation : Nat) (source : α) (rest : List (Request α σ)) (o : LoadOutcome σ)
    (outcomes : Queue (LoadOutcome σ)) (reports : Queue LoadReport) (events : List Event)
    (hitems : s.requests.items = .instantiate generation source :: rest)
    (hpush : s.outcomes.push? o = some outcomes) (hgeneration : o.generation = generation)
    (hnext : next = { s with
      requests := { s.requests with items := rest }, outcomes, reports, loads := s.loads + 1
      trace := events ++ s.trace })
    (hevents : ∀ e ∈ events, e.module = s.loads + 1 ∧ e.stepped? = none)
    (hloaded : ∀ p, o = .loaded p → p.module.id = s.loads + 1 ∧ ∀ id, Event.dropped id ∉ events)

theorem handled_of_handleNext {load : α → Except LoadError σ} {next : Session α σ}
    (halive : s.processorAlive = true) (h : s.handleNext load = some next) : s.Handled next := by
  unfold handleNext at h
  cases hitems : s.requests.items with
  | nil =>
    rw [hitems] at h
    cases h
    exact .nothing hitems rfl
  | cons request rest =>
    rw [hitems] at h
    cases request with
    | retire m =>
      cases h
      exact .dropped m rest hitems rfl
    | instantiate generation source =>
      obtain ⟨o, outcomes, reports, events, hpush, hgeneration, rfl, hevents, hloaded⟩ :=
        handle_instantiate (by exact halive) h
      exact .tried generation source rest o outcomes reports events hitems hpush hgeneration rfl hevents
        hloaded

end Modules

end Session

end SampleStream
