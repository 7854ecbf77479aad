import SampleStream.Module.Canned
import SampleStream.Proofs.Session.Underway

/-!
# Room for outcomes

A worker that has made a module waits while the queue of outcomes is full. It never does: what is underway
between two turns fits into that queue, since a quantum empties it and hands the worker no more loads than
its queue of requests takes, which has the same room.
-/

namespace SampleStream

universe u v

variable {α : Type v} {σ : Type u}

theorem Queue.capacity_of_push? {β : Type u} {q r : Queue β} {b : β} (h : q.push? b = some r) :
    r.capacity = q.capacity := by
  unfold Queue.push? at h
  split at h
  · cases h
  · cases h
    rfl

theorem Queue.push?_of_lt {β : Type u} {q : Queue β} (h : q.items.length < q.capacity) (b : β) :
    q.push? b = some { q with items := q.items ++ [b] } :=
  if_neg (by simpa [Queue.isFull] using h)

/-- The queues between the processor and the worker have the same room, and requests keep within it. -/
structure Roomy (s : Session α σ) : Prop where
  alike : s.outcomes.capacity = s.requests.capacity
  held : s.requests.items.length ≤ s.requests.capacity

/-- So does what is underway: all of it fits into the queue of outcomes. -/
structure Backlog (s : Session α σ) : Prop extends Roomy s where
  fits : (s.tags s.outcomes.items).length ≤ s.outcomes.capacity

namespace Roomy

variable {s : Session α σ}

theorem congr (hr : Roomy s) {t : Session α σ} (hrequests : t.requests = s.requests)
    (houtcomes : t.outcomes.capacity = s.outcomes.capacity) : Roomy t where
  alike := by rw [houtcomes, hrequests]; exact hr.alike
  held := by rw [hrequests]; exact hr.held

theorem of_push {r : Request α σ} (hr : Roomy s) {t : Session α σ}
    (hpush : s.requests.push? r = some t.requests)
    (houtcomes : t.outcomes.capacity = s.outcomes.capacity) : Roomy t where
  alike := by rw [houtcomes, Queue.capacity_of_push? hpush]; exact hr.alike
  held := Queue.length_le_of_push? hpush

theorem receive (hr : Roomy s) (hslot : s.processor.active = none ∨ s.processor.parked = none)
    (source : α) : Roomy (s.receive source) := by
  rcases Session.receive_cases source hslot with ⟨requests, hpush, heq⟩ | heq
  · rw [heq]
    exact hr.of_push hpush rfl
  · rw [heq]
    exact hr.congr rfl rfl

theorem adopt (hr : Roomy s) (hslot : s.processor.state = .loading → s.processor.active = none)
    (o : LoadOutcome σ) : Roomy (s.adopt o) := by
  obtain ⟨requests, trace, processor, heq, -⟩ := Session.adopt_eq hslot o
  have houtcomes : (s.adopt o).outcomes.capacity = s.outcomes.capacity := by rw [heq]
  rcases s.requests_adopt o with hsame | ⟨m, -, hpush⟩
  · exact hr.congr hsame houtcomes
  · exact hr.of_push hpush houtcomes

-- With no outcomes waiting, what is underway is among the requests.
theorem backlog (hr : Roomy s) (hnone : s.outcomes.items = []) : Backlog s where
  toRoomy := hr
  fits := by
    have hle : (Request.loads s.requests.items).length ≤ s.requests.items.length :=
      List.length_filterMap_le _ _
    unfold Session.tags
    rw [hnone, hr.alike]
    exact Nat.le_trans hle hr.held

end Roomy

-- A session is as backlogged as another with the same queues.
theorem Backlog.congr {s t : Session α σ} (hb : Backlog s) (hrequests : t.requests = s.requests)
    (houtcomes : t.outcomes = s.outcomes) : Backlog t where
  toRoomy := hb.toRoomy.congr hrequests (by rw [houtcomes])
  fits := by
    unfold Session.tags
    rw [hrequests, houtcomes]
    exact hb.fits

section Modules

variable [CompiledModule σ]

-- A request that is handled leaves room behind, and its outcome was underway before.
theorem Backlog.handle {s next : Session α σ} (hb : Backlog s) (halive : s.processorAlive = true)
    {load : α → Except LoadError σ} (h : s.handleNext load = some next) : Backlog next := by
  have htags := Session.tags_handleNext halive h
  have hkept : next.outcomes.capacity = s.outcomes.capacity ∧
      next.requests.capacity = s.requests.capacity ∧
      next.requests.items.length ≤ s.requests.items.length := by
    cases Session.handled_of_handleNext halive h with
    | nothing hitems hnext =>
      rw [hnext]
      exact ⟨rfl, rfl, Nat.le_refl _⟩
    | dropped m rest hitems hnext =>
      rw [hnext, hitems]
      exact ⟨rfl, rfl, Nat.le_succ _⟩
    | tried generation source rest o outcomes reports events hitems hpush hgeneration hnext =>
      rw [hnext, hitems]
      exact ⟨Queue.capacity_of_push? hpush, rfl, Nat.le_succ _⟩
  obtain ⟨houtcomes, hrequests, hlength⟩ := hkept
  exact {
    alike := by rw [houtcomes, hrequests]; exact hb.alike
    held := by rw [hrequests]; exact Nat.le_trans hlength hb.held
    fits := by rw [htags, houtcomes]; exact hb.fits }

namespace Session

variable {s : Session α σ}

omit [CompiledModule σ] in
theorem deliver_isSome {o : LoadOutcome σ}
    (hroom : s.processorAlive = true → s.outcomes.items.length < s.outcomes.capacity) :
    (s.deliver o).isSome = true := by
  unfold deliver
  split
  · rename_i halive
    rw [Queue.push?_of_lt (hroom halive)]
    rfl
  · rfl

-- The worker waits for nobody: with the processor there is room, and without it none is needed.
theorem handleNext_isSome (hb : s.processorAlive = true → Backlog s) (load : α → Except LoadError σ) :
    (s.handleNext load).isSome = true := by
  unfold handleNext
  cases hitems : s.requests.items with
  | nil => rfl
  | cons request rest =>
    cases request with
    | retire m => rfl
    | instantiate generation source =>
      let popped : Session α σ := { s with requests := { s.requests with items := rest } }
      obtain ⟨result, events, hprepare, -⟩ := prepare_cases load generation source popped
      -- the load at the front is underway, so that its outcome has a place
      have hroom : s.processorAlive = true → s.outcomes.items.length < s.outcomes.capacity := by
        intro halive
        have hfits := (hb halive).fits
        unfold tags at hfits
        rw [hitems, Request.loads_instantiate, List.length_append, List.length_map,
          List.length_cons] at hfits
        omega
      change (popped.handle load (.instantiate generation source)).isSome = true
      unfold handle
      dsimp only
      rw [hprepare]
      cases result with
      | ok p => exact deliver_isSome hroom
      | error e =>
        let tried : Session α σ := { popped with loads := s.loads + 1, trace := events ++ s.trace }
        obtain ⟨reports, hreport⟩ := tried.report_eq ⟨generation, e⟩
        change ((tried.report ⟨generation, e⟩).deliver (.failed generation)).isSome = true
        rw [hreport]
        exact deliver_isSome hroom

omit [CompiledModule σ] in
-- An outcome takes a place in its queue, or is dropped when nobody is there to take it on.
theorem deliver_outcomes {o : LoadOutcome σ} {next : Session α σ} (h : s.deliver o = some next) :
    next.requests = s.requests ∧ next.processorAlive = s.processorAlive ∧
      next.outcomes.capacity = s.outcomes.capacity ∧
      next.outcomes.items = if s.processorAlive then s.outcomes.items ++ [o] else s.outcomes.items := by
  unfold deliver at h
  by_cases halive : s.processorAlive = true
  · rw [if_pos halive] at h ⊢
    obtain ⟨outcomes, hpush, rfl⟩ := Option.map_eq_some_iff.mp h
    exact ⟨rfl, rfl, Queue.capacity_of_push? hpush, Queue.items_of_push? hpush⟩
  · rw [if_neg halive] at h ⊢
    obtain ⟨trace, htrace⟩ := s.dropOutcome_eq o
    rw [htrace] at h
    cases h
    exact ⟨rfl, rfl, rfl, rfl⟩

/-- What the request at the front comes to: it leaves the queue, and a load has its outcome. -/
structure Serves (s next : Session α σ) : Prop where
  requests : next.requests = { s.requests with items := s.requests.items.tail }
  processorAlive : next.processorAlive = s.processorAlive
  capacity : next.outcomes.capacity = s.outcomes.capacity
  outcomes : ∃ os : List (LoadOutcome σ),
    os.map LoadOutcome.generation = Request.loads (s.requests.items.take 1) ∧
      next.outcomes.items = if s.processorAlive then s.outcomes.items ++ os else s.outcomes.items

theorem serves_of_handleNext {load : α → Except LoadError σ} {next : Session α σ}
    (h : s.handleNext load = some next) : s.Serves next := by
  unfold handleNext at h
  cases hitems : s.requests.items with
  | nil =>
    rw [hitems] at h
    cases h
    refine ⟨?_, rfl, rfl, [], ?_, ?_⟩
    · rw [hitems, List.tail_nil, ← hitems]
    · rw [hitems]
      rfl
    · rw [List.append_nil, ite_self]
  | cons request rest =>
    rw [hitems] at h
    let popped : Session α σ := { s with requests := { s.requests with items := rest } }
    have htail : popped.requests = { s.requests with items := s.requests.items.tail } := by
      rw [hitems]
      rfl
    change popped.handle load request = some next at h
    cases request with
    | retire m =>
      cases h
      refine ⟨htail, rfl, rfl, [], by rw [hitems]; rfl, ?_⟩
      rw [List.append_nil, ite_self]
      rfl
    | instantiate generation source =>
      obtain ⟨result, events, hprepare, -, hok⟩ := prepare_cases load generation source popped
      let tried : Session α σ := { popped with loads := s.loads + 1, trace := events ++ s.trace }
      -- whatever comes of the load, one outcome of its number is delivered
      have hserves (o : LoadOutcome σ) (reports : Queue LoadReport) (hgeneration : o.generation = generation)
          (hdeliver : ({ tried with reports } : Session α σ).deliver o = some next) : s.Serves next := by
        obtain ⟨hrequests, halive, hcapacity, houtcomes⟩ := deliver_outcomes hdeliver
        refine ⟨hrequests.trans htail, halive, hcapacity, [o], ?_, houtcomes⟩
        rw [hitems, List.map_singleton, hgeneration]
        rfl
      unfold handle at h
      dsimp only at h
      rw [hprepare] at h
      cases result with
      | ok p => exact hserves (.loaded p) s.reports (hok p rfl).1 h
      | error e =>
        obtain ⟨reports, hreport⟩ := tried.report_eq ⟨generation, e⟩
        change (tried.report ⟨generation, e⟩).deliver (.failed generation) = some next at h
        rw [hreport] at h
        exact hserves (.failed generation) reports rfl h

omit [CompiledModule σ] in
theorem Serves.loads_eq {s next : Session α σ} (h : s.Serves next) :
    Request.loads s.requests.items =
      Request.loads (s.requests.items.take 1) ++ Request.loads next.requests.items := by
  rw [h.requests, ← Request.loads_append, ← List.drop_one, List.take_append_drop]

/-- All that is underway, whoever is there, keeps within this room, and so do the outcomes. -/
structure Prompt (s : Session α σ) (room : Nat) : Prop where
  capacity : s.outcomes.capacity = room
  fits : (s.tags s.outcomes.items).length ≤ room
  backlog : s.processorAlive = true → Backlog s

namespace Prompt

variable {room : Nat}

omit [CompiledModule σ] in
-- Fewer things are underway when requests or outcomes have gone.
theorem of_sublist (hp : s.Prompt room) {t : Session α σ}
    (hcapacity : t.outcomes.capacity = s.outcomes.capacity)
    (houtcomes : t.outcomes.items.Sublist s.outcomes.items)
    (hloads : (Request.loads t.requests.items).Sublist (Request.loads s.requests.items))
    (hbacklog : t.processorAlive = true → Backlog t) : t.Prompt room where
  capacity := hcapacity.trans hp.capacity
  fits := Nat.le_trans ((houtcomes.map LoadOutcome.generation).append hloads).length_le hp.fits
  backlog := hbacklog

omit [CompiledModule σ] in
-- So they are when both queues are as before, or have been let go of.
theorem of_queues (hp : s.Prompt room) {t : Session α σ}
    (hqueues : (t.requests = s.requests ∧ t.outcomes = s.outcomes) ∨
      (t.requests = s.requests.clear ∧ t.outcomes = s.outcomes.clear))
    (hbacklog : t.processorAlive = true → Backlog t) : t.Prompt room := by
  rcases hqueues with ⟨hrequests, houtcomes⟩ | ⟨hrequests, houtcomes⟩
  · exact hp.of_sublist (congrArg Queue.capacity houtcomes) (houtcomes ▸ List.Sublist.refl _)
      (hrequests ▸ List.Sublist.refl _) hbacklog
  · exact hp.of_sublist (by rw [houtcomes]; rfl) (by rw [houtcomes]; exact List.nil_sublist _)
      (by rw [hrequests]; exact List.nil_sublist _) hbacklog

-- A load that is handled makes way for its outcome.
theorem handleNext (hp : s.Prompt room) {load : α → Except LoadError σ} {next : Session α σ}
    (h : s.handleNext load = some next) : next.Prompt room := by
  have hserves := serves_of_handleNext h
  by_cases halive : s.processorAlive = true
  · have hbacklog := (hp.backlog halive).handle halive h
    have hcapacity := hserves.capacity.trans hp.capacity
    exact ⟨hcapacity, hcapacity ▸ hbacklog.fits, fun _ => hbacklog⟩
  · obtain ⟨os, -, houtcomes⟩ := hserves.outcomes
    rw [if_neg halive] at houtcomes
    refine hp.of_sublist hserves.capacity (houtcomes ▸ List.Sublist.refl _) ?_ fun hnext => ?_
    · rw [hserves.loads_eq]
      exact List.sublist_append_right _ _
    · exact absurd (hserves.processorAlive ▸ hnext) halive

-- One request after another is handled, as many as there are turns for.
theorem runs (hp : s.Prompt room) (load : α → Except LoadError σ) (turns : List Nat) :
    ∃ next, turns.foldlM (fun s _ => s.handleNext load) s = some next ∧
      next.requests.items = s.requests.items.drop turns.length := by
  induction turns generalizing s with
  | nil => exact ⟨s, rfl, rfl⟩
  | cons turn turns ih =>
    obtain ⟨next, hnext⟩ := Option.isSome_iff_exists.mp (handleNext_isSome hp.backlog load)
    obtain ⟨last, hlast, hrest⟩ := ih (hp.handleNext hnext)
    refine ⟨last, ?_, ?_⟩
    · rw [List.foldlM_cons, hnext]
      exact hlast
    · rw [hrest, (serves_of_handleNext hnext).requests, List.length_cons, ← List.drop_one, List.drop_drop,
        Nat.add_comm]

end Prompt

/-- The worker finds room for whatever comes of its requests. -/
structure NeverWaits (s : Session α σ) (room : Nat) : Prop where
  /-- The loads that the worker has still to try and the outcomes that wait, together. -/
  underway : (Request.loads s.requests.items).length + s.outcomes.items.length ≤ room
  capacity : s.outcomes.capacity = room
  /-- When the worker takes a load, its outcome has a place, or nobody is there to take it on. -/
  place : ∀ generation source rest, s.requests.items = .instantiate generation source :: rest →
    s.processorAlive = true → s.outcomes.items.length < s.outcomes.capacity
  /-- Whatever the loader does, the request at the front is handled, -/
  handles : ∀ load, ∃ next, s.handleNext load = some next ∧ s.Serves next
  /-- and so are all that are queued, which then are done with. -/
  runs : ∀ load, ∃ next, s.runPending load = some (s.requests.items.length, next) ∧
    next.requests.items = []

end Session

namespace History

variable {h : History α σ}

theorem Sound.backlog_process (hs : h.Sound h.session.outcomes.items) (hb : Backlog h.session)
    (channels : List (List Sample)) : Backlog (h.process channels).session := by
  have htaken : Roomy h.taken.session :=
    hs.taken_induction (P := fun k _ _ => Roomy k.session) (hb.toRoomy.congr rfl rfl)
      (fun _ source _ _ hk hr => hr.receive hk.slot.exclusive source)
      (fun _ _ hr => hr.congr rfl rfl)
      (fun _ o _ hk hr => hr.adopt hk.slot.active_eq_none o)
  obtain ⟨acks, trace, active, ackPending, stats, heq, -⟩ := hs.process_eq channels
  rw [heq]
  exact (htaken.backlog hs.taken_outcomes).congr rfl rfl

theorem Sound.backlog_move (hs : h.Sound h.session.outcomes.items) (hb : Backlog h.session)
    {move : Move α σ} (halive : (h.move move).session.processorAlive = true) :
    Backlog (h.move move).session := by
  obtain ⟨-, ⟨turn, -, -, hturn⟩ | ⟨controllerAlive, workerAlive, hgone⟩⟩ := move_cases halive
  · rw [hturn]
    rcases h.turn_cases turn with ⟨channels, rfl⟩ | ⟨load, next, rfl, hnext, heq⟩ |
      ⟨sent, control, acks, reports, heq⟩
    · exact hs.backlog_process hb channels
    · rw [heq]
      exact hb.handle hs.alive hnext
    · rw [heq]
      exact hb.congr rfl rfl
  · rw [hgone]
    exact hb.congr rfl rfl

omit [CompiledModule σ] in
theorem backlog_link {config : Config} {s : Session α σ} (hlink : Session.link? config = some s) :
    Backlog s := by
  unfold Session.link? at hlink
  split at hlink
  · cases hlink
    exact ⟨⟨rfl, Nat.zero_le _⟩, Nat.zero_le _⟩
  · cases hlink

-- Whatever happens in a session, its worker never waits.
theorem handles_through {config : Config} {s : Session α σ} (hlink : Session.link? config = some s)
    (moves : List (Move α σ)) (load : α → Except LoadError σ) :
    ((History.through ⟨s, []⟩ moves).session.handleNext load).isSome = true := by
  refine Session.handleNext_isSome (fun halive => ?_) load
  exact (through_induction (P := fun k => k.Sound k.session.outcomes.items ∧ Backlog k.session)
    ⟨Sound.link hlink, backlog_link hlink⟩
    (fun k move ⟨hk, hb⟩ halive => ⟨hk.move halive, hk.backlog_move hb halive⟩) moves halive).2

theorem Sound.capacity_process (hs : h.Sound h.session.outcomes.items) (channels : List (List Sample)) :
    (h.process channels).session.outcomes.capacity = h.session.outcomes.capacity := by
  have htaken : h.taken.session.outcomes.capacity = h.session.outcomes.capacity := by
    refine hs.taken_induction
      (P := fun k _ _ => k.session.outcomes.capacity = h.session.outcomes.capacity) rfl ?_ ?_ ?_
    · intro k source sources waiting hk hsame
      obtain ⟨requests, processor, heq, -⟩ := Session.receive_eq hk.slot.exclusive source
      change (k.session.receive source).outcomes.capacity = _
      rw [heq]
      exact hsame
    · exact fun _ _ hsame => hsame
    · intro k o os hk hsame
      obtain ⟨requests, trace, processor, heq, -⟩ := Session.adopt_eq hk.slot.active_eq_none o
      change (k.session.adopt o).outcomes.capacity = _
      rw [heq]
      exact hsame
  obtain ⟨acks, trace, active, ackPending, stats, heq, -⟩ := hs.process_eq channels
  rw [heq]
  exact htaken

-- Whichever parts are there, no move makes more underway than there is room for.
theorem prompt_move {room : Nat}
    (hs : h.session.processorAlive = true → h.Sound h.session.outcomes.items)
    (hp : h.session.Prompt room) (move : Move α σ) : (h.move move).session.Prompt room := by
  have hbacklog : (h.move move).session.processorAlive = true → Backlog (h.move move).session :=
    fun halive => (hs (move_cases halive).1).backlog_move (hp.backlog (move_cases halive).1) halive
  have hmoved := h.moved move
  generalize (h.move move).session = next at hmoved hbacklog ⊢
  cases hmoved with
  | processed channels halive =>
    have hcapacity := ((hs halive).capacity_process channels).trans hp.capacity
    have hnext := (hs halive).backlog_process (hp.backlog halive) channels
    exact ⟨hcapacity, hcapacity ▸ hnext.fits, fun _ => hnext⟩
  | handled halive hnext => exact hp.handleNext hnext
  | processorGone halive => exact hp.of_queues h.session.queues_dropProcessor hbacklog
  | workerGone halive => exact hp.of_queues h.session.queues_dropWorker hbacklog
  | aside controllerAlive sent control acks reports hidle =>
    exact hp.of_sublist rfl (.refl _) (.refl _) hbacklog

omit [CompiledModule σ] in
theorem prompt_link {config : Config} {s : Session α σ} (hlink : Session.link? config = some s) :
    s.Prompt config.loaderCapacity.toNat := by
  have hbacklog := backlog_link hlink
  unfold Session.link? at hlink
  split at hlink
  · cases hlink
    exact ⟨rfl, Nat.zero_le _, fun _ => hbacklog⟩
  · cases hlink

theorem prompt_through {config : Config} {s : Session α σ} (hlink : Session.link? config = some s)
    (moves : List (Move α σ)) :
    (History.through ⟨s, []⟩ moves).session.Prompt config.loaderCapacity.toNat := by
  have hstart : (⟨s, []⟩ : History α σ).Sound s.outcomes.items := Sound.link hlink
  -- the induction is on the moves, with any history that is sound as long as its processor is there
  have hall : ∀ h : History α σ, (h.session.processorAlive = true → h.Sound h.session.outcomes.items) →
      h.session.Prompt config.loaderCapacity.toNat →
      (h.through moves).session.Prompt config.loaderCapacity.toNat := by
    induction moves with
    | nil => exact fun _ _ hp => hp
    | cons move moves ih =>
      intro h hs hp
      exact ih _ (fun halive => (hs (move_cases halive).1).move halive) (prompt_move hs hp move)
  exact hall _ (fun _ => hstart) (prompt_link hlink)

/-- Whatever happens in a session, whichever parts are there: the worker never waits. -/
theorem worker_never_waits {config : Config} {s : Session α σ} (hlink : Session.link? config = some s)
    (moves : List (Move α σ)) :
    (History.through ⟨s, []⟩ moves).session.NeverWaits config.loaderCapacity.toNat := by
  have hp := prompt_through hlink moves
  generalize (History.through ⟨s, []⟩ moves).session = t at hp
  have hunderway : (Request.loads t.requests.items).length + t.outcomes.items.length ≤
      config.loaderCapacity.toNat := by
    have hfits := hp.fits
    unfold Session.tags at hfits
    rw [List.length_append, List.length_map] at hfits
    omega
  refine ⟨hunderway, hp.capacity, ?_, fun load => ?_, fun load => ?_⟩
  · intro generation source rest hitems _
    -- the load at the front is counted with what is underway
    rw [hitems, Request.loads_instantiate, List.length_cons] at hunderway
    rw [hp.capacity]
    omega
  · obtain ⟨next, hnext⟩ := Option.isSome_iff_exists.mp (Session.handleNext_isSome hp.backlog load)
    exact ⟨next, hnext, Session.serves_of_handleNext hnext⟩
  · obtain ⟨next, hnext, hrest⟩ := hp.runs load (List.range t.requests.items.length)
    refine ⟨next, ?_, ?_⟩
    · unfold Session.runPending
      dsimp only
      rw [hnext]
      rfl
    · rw [hrest, List.length_range, List.drop_length]

/-- Two loads are underway, one as a request and one as an outcome, and the queue of outcomes has one place
left. -/
theorem worker_never_waits_tight :
    let load : Unit → Except LoadError CannedModule := fun _ => .ok ⟨[], .ok 0, .ok ⟨0⟩, []⟩
    let s : Session Unit CannedModule := {
      quantum := 1, scratchBytes := 4, control := .empty 2, requests := .empty 2, outcomes := .empty 2
      acks := .empty 1, reports := .empty 1 }
    let moves : List (Move Unit CannedModule) := [.turn (.load ()), .turn (.load ()),
      .turn (.process []), .turn (.handle load)]
    let t := (History.through ⟨s, []⟩ moves).session
    Session.link? {
      quantumSize := 1, controlCapacity := 2, loaderCapacity := 2, eventCapacity := 1 } = some s ∧
    t.NeverWaits 2 ∧ Request.loads t.requests.items = [2] ∧ t.outcomes.items.length = 1 := by
  intro load s moves t
  have hlink : Session.link? {
      quantumSize := 1, controlCapacity := 2, loaderCapacity := 2, eventCapacity := 1 } = some s := rfl
  exact ⟨hlink, worker_never_waits hlink moves, by decide +kernel, by decide +kernel⟩

end History

end Modules

end SampleStream
