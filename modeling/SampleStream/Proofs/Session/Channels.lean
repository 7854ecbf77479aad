import SampleStream.Proofs.Session.Output

/-!
# Channels make no difference

A quantum settles all that is to be settled before it looks at its channels: what has arrived is taken on, the
adoption is acknowledged, and the continuation has moved on. The channels decide what is rendered and whether
the quantum counts as failed. Nobody reads that count (`Session.Blind`), so that two runs with other channels
go on alike (`History.channels_indifferent`).
-/

namespace SampleStream

universe u v w

variable {α : Type v} {σ : Type u}

namespace Session

variable {s : Session α σ} {n : Nat}

/-- The session with another number of quanta that failed. -/
def withFailed (failed : Nat) (s : Session α σ) : Session α σ :=
  s.count fun c => { c with failed }

@[simp] theorem withFailed_quantum : (s.withFailed n).quantum = s.quantum := rfl

@[simp] theorem withFailed_scratchBytes : (s.withFailed n).scratchBytes = s.scratchBytes := rfl

@[simp] theorem withFailed_controllerAlive : (s.withFailed n).controllerAlive = s.controllerAlive := rfl

@[simp] theorem withFailed_processorAlive : (s.withFailed n).processorAlive = s.processorAlive := rfl

@[simp] theorem withFailed_workerAlive : (s.withFailed n).workerAlive = s.workerAlive := rfl

@[simp] theorem withFailed_sent : (s.withFailed n).sent = s.sent := rfl

@[simp] theorem withFailed_state : (s.withFailed n).processor.state = s.processor.state := rfl

@[simp] theorem withFailed_active : (s.withFailed n).processor.active = s.processor.active := rfl

@[simp] theorem withFailed_parked : (s.withFailed n).processor.parked = s.processor.parked := rfl

@[simp] theorem withFailed_ackPending : (s.withFailed n).processor.ackPending = s.processor.ackPending := rfl

@[simp] theorem withFailed_control : (s.withFailed n).control = s.control := rfl

@[simp] theorem withFailed_requests : (s.withFailed n).requests = s.requests := rfl

@[simp] theorem withFailed_outcomes : (s.withFailed n).outcomes = s.outcomes := rfl

@[simp] theorem withFailed_acks : (s.withFailed n).acks = s.acks := rfl

@[simp] theorem withFailed_reports : (s.withFailed n).reports = s.reports := rfl

@[simp] theorem withFailed_loads : (s.withFailed n).loads = s.loads := rfl

/-- Whatever is done takes no notice of how many quanta failed, and leaves their number. -/
def Blind (f : Session α σ → Session α σ) : Prop :=
  ∀ n s, f (s.withFailed n) = (f s).withFailed n

theorem Blind.comp {f g : Session α σ → Session α σ} (hf : Blind f) (hg : Blind g) :
    Blind fun s => g (f s) := fun n s => by
  change g (f (s.withFailed n)) = _
  rw [hf, hg]

theorem Blind.foldl {β : Type w} {f : Session α σ → β → Session α σ} (hf : ∀ b, Blind (f · b))
    (bs : List β) : Blind fun s => bs.foldl f s := by
  induction bs with
  | nil => exact fun _ _ => rfl
  | cons b bs ih => exact (hf b).comp ih

theorem blind_dropActive (slot : Option (Active σ)) :
    Blind (dropActive slot : Session α σ → Session α σ) := by
  cases slot <;> exact fun _ _ => rfl

theorem blind_dropOutcome (o : LoadOutcome σ) : Blind fun s : Session α σ => s.dropOutcome o := by
  cases o <;> exact fun _ _ => rfl

theorem blind_dropRequest (r : Request α σ) : Blind fun s : Session α σ => s.dropRequest r := by
  cases r <;> exact fun _ _ => rfl

theorem request?_withFailed (r : Request α σ) :
    (s.withFailed n).request? r = (s.request? r).map (withFailed n) := by
  unfold request?
  rw [withFailed_workerAlive, withFailed_requests]
  split
  · cases s.requests.push? r <;> rfl
  · rfl

theorem blind_retire (m : Loaded σ) : Blind (retire m : Session α σ → Session α σ) := by
  intro n s
  unfold retire
  rw [request?_withFailed]
  cases s.request? (.retire m) <;> rfl

theorem blind_install (a : Active σ) : Blind (install a : Session α σ → Session α σ) := by
  intro n s
  unfold install
  rw [withFailed_active]
  cases s.processor.active <;> rfl

theorem blind_restoreParked : Blind (restoreParked : Session α σ → Session α σ) := by
  intro n s
  unfold restoreParked
  rw [withFailed_parked]
  cases s.processor.parked with
  | none => rfl
  | some a => exact blind_install a n { s with processor := { s.processor with parked := none } }

theorem blind_retireParked : Blind (retireParked : Session α σ → Session α σ) := by
  intro n s
  unfold retireParked
  rw [withFailed_parked]
  cases s.processor.parked with
  | none => rfl
  | some a => exact blind_retire a.module n { s with processor := { s.processor with parked := none } }

theorem blind_park : Blind (park : Session α σ → Session α σ) := by
  intro n s
  unfold park
  rw [withFailed_active, withFailed_parked]
  cases s.processor.active with
  | none => rfl
  | some a =>
    cases s.processor.parked with
    | none => rfl
    | some b =>
      exact blind_retire b.module n
        { s with processor := { s.processor with active := none, parked := some a } }

/-- The session that has parked its module for the next load. -/
def awaiting (s : Session α σ) : Session α σ :=
  let s := { s with processor := { s.processor with generation := s.processor.generation + 1 } }.park
  { s with processor := { s.processor with state := .loading, ackPending := false } }

theorem blind_awaiting : Blind (awaiting : Session α σ → Session α σ) := by
  intro n s
  have hpark := blind_park n
    { s with processor := { s.processor with generation := s.processor.generation + 1 } }
  exact congrArg
    (fun t => { t with processor := { t.processor with state := .loading, ackPending := false } }) hpark

-- A load whose request finds no room is counted, and the parked module goes on.
theorem receive_eq_awaiting (s : Session α σ) (source : α) : s.receive source =
    (s.awaiting.request? (.instantiate s.awaiting.processor.generation source)).getD
      (s.awaiting.count fun c => { c with droppedLoads := c.droppedLoads + 1 }).restoreParked := by
  let dropped := (s.awaiting.count fun c => { c with droppedLoads := c.droppedLoads + 1 }).restoreParked
  unfold receive
  dsimp only
  split
  next next hnext => exact (congrArg (Option.getD · dropped) hnext).symm
  next hnone => exact (congrArg (Option.getD · dropped) hnone).symm

theorem blind_receive (source : α) : Blind fun s : Session α σ => s.receive source := by
  intro n s
  dsimp only
  rw [receive_eq_awaiting, receive_eq_awaiting, blind_awaiting, request?_withFailed]
  generalize s.awaiting = t
  change ((t.request? (.instantiate t.processor.generation source)).map (withFailed n)).getD _ = _
  cases t.request? (.instantiate t.processor.generation source) with
  | some next => rfl
  | none => exact blind_restoreParked n (t.count fun c => { c with droppedLoads := c.droppedLoads + 1 })

theorem blind_adopt (o : LoadOutcome σ) : Blind fun s : Session α σ => s.adopt o := by
  intro n s
  have hsame : (s.withFailed n).Current o ↔ s.Current o := Iff.rfl
  dsimp only
  by_cases hcurrent : s.Current o
  · cases o with
    | loaded p =>
      have hadopt {t : Session α σ} (ht : t.Current (.loaded p)) : t.adopt (.loaded p) =
          { t.retireParked.install p.activate with
            processor := { (t.retireParked.install p.activate).processor with ackPending := true } } :=
        if_pos ht
      rw [hadopt hcurrent, hadopt (hsame.mpr hcurrent), blind_retireParked, blind_install]
      rfl
    | failed generation =>
      have hadopt {t : Session α σ} (ht : t.Current (.failed generation)) :
          t.adopt (.failed generation) = t.restoreParked := if_pos ht
      rw [hadopt hcurrent, hadopt (hsame.mpr hcurrent), blind_restoreParked]
  · cases o with
    | loaded p =>
      rw [adopt_loaded_late hcurrent, adopt_loaded_late (hsame.not.mpr hcurrent), blind_retire]
    | failed generation =>
      rw [adopt_failed_late hcurrent, adopt_failed_late (hsame.not.mpr hcurrent)]

-- All that has arrived is taken on.
theorem blind_drain : Blind (drain : Session α σ → Session α σ) := by
  intro n s
  have hreceive := Blind.foldl (fun source : α => blind_receive source) s.control.items n
    { s with control := s.control.clear }
  have hadopt := fun t : Session α σ => Blind.foldl (fun o : LoadOutcome σ => blind_adopt o)
    t.outcomes.items n { t with outcomes := t.outcomes.clear }
  unfold drain
  exact (congrArg (fun t : Session α σ => t.outcomes.items.foldl adopt { t with outcomes := t.outcomes.clear })
    hreceive).trans (hadopt _)

theorem blind_acknowledge : Blind (acknowledge : Session α σ → Session α σ) := by
  intro n s
  unfold acknowledge
  rw [withFailed_ackPending, withFailed_controllerAlive, withFailed_acks]
  split
  · dsimp only
    split
    · cases s.acks.push? () <;> rfl
    · rfl
  · rfl

theorem blind_dropQueues : Blind (dropQueues : Session α σ → Session α σ) := by
  intro n s
  have hrequests := Blind.foldl (fun r : Request α σ => blind_dropRequest r) s.requests.items n
    { s with requests := s.requests.clear, outcomes := s.outcomes.clear }
  have houtcomes := Blind.foldl (fun o : LoadOutcome σ => blind_dropOutcome (α := α) o) s.outcomes.items n
  unfold dropQueues
  exact (congrArg (fun t : Session α σ => s.outcomes.items.foldl dropOutcome t) hrequests).trans (houtcomes _)

theorem blind_dropWorker : Blind (dropWorker : Session α σ → Session α σ) := by
  intro n s
  unfold dropWorker
  rw [withFailed_processorAlive]
  dsimp only
  split
  · rfl
  · exact blind_dropQueues n { s with workerAlive := false }

theorem blind_dropProcessor : Blind (dropProcessor : Session α σ → Session α σ) := by
  intro n s
  let gone : Session α σ := { s with
    processorAlive := false
    processor := { s.processor with active := none, parked := none } }
  have hslot := (blind_dropActive s.processor.active).comp (blind_dropActive s.processor.parked) n gone
  have hqueues := ((blind_dropActive s.processor.active).comp (blind_dropActive s.processor.parked)).comp
    blind_dropQueues n gone
  have hdrop : s.dropProcessor = if s.workerAlive then
      (gone.dropActive s.processor.active).dropActive s.processor.parked
    else ((gone.dropActive s.processor.active).dropActive s.processor.parked).dropQueues := rfl
  rw [hdrop]
  by_cases hworker : s.workerAlive = true
  · rw [if_pos hworker]
    exact (if_pos hworker).trans hslot
  · rw [if_neg hworker]
    exact (if_neg hworker).trans hqueues

theorem load_withFailed (source : α) (s : Session α σ) (n : Nat) :
    (s.withFailed n).load source = (s.load source).map id (withFailed n) := by
  unfold load
  rw [withFailed_processorAlive, withFailed_control]
  dsimp only
  split
  · cases s.control.push? source <;> rfl
  · rfl

theorem takeAck_withFailed {β : Type} (present : β) (absent : Except ProtocolError β) (s : Session α σ)
    (n : Nat) : (s.withFailed n).takeAck present absent =
      (s.takeAck present absent).map id (withFailed n) := by
  unfold takeAck
  rw [withFailed_acks]
  cases s.acks.items <;> rfl

theorem tryReady_withFailed (s : Session α σ) (n : Nat) :
    (s.withFailed n).tryReady = s.tryReady.map id (withFailed n) := by
  unfold tryReady
  rw [withFailed_sent, withFailed_reports]
  generalize findReport s.sent s.reports.items = found
  obtain ⟨_ | error, rest⟩ := found
  · exact takeAck_withFailed true (.ok false) (s.withReports rest) n
  · rfl

theorem waitReadyFor_withFailed (ackFirst : Nat → Bool) (microseconds fuel : Nat) (s : Session α σ)
    (n : Nat) : (s.withFailed n).waitReadyFor ackFirst microseconds fuel =
      (s.waitReadyFor ackFirst microseconds fuel).map id (withFailed n) := by
  induction fuel generalizing s with
  | zero => exact takeAck_withFailed _ _ s n
  | succ fuel ih =>
    unfold waitReadyFor
    rw [withFailed_sent, withFailed_reports, withFailed_acks, withFailed_processorAlive]
    dsimp only
    split
    · exact takeAck_withFailed _ _ s n
    · cases s.reports.items with
      | nil => exact takeAck_withFailed _ _ s n
      | cons r rest =>
        dsimp only
        split
        · rfl
        · exact ih (s.withReports rest)

variable [CompiledModule σ]

theorem prepare_withFailed (load : α → Except LoadError σ) (generation : Nat) (source : α)
    (s : Session α σ) (n : Nat) : (s.withFailed n).prepare load generation source =
      (s.prepare load generation source).map id (withFailed n) := by
  unfold prepare
  rw [withFailed_loads]
  dsimp only [note]
  cases load source with
  | error e => rfl
  | ok state =>
    dsimp only
    rw [withFailed_scratchBytes]
    obtain ⟨_ | scratch, next⟩ := CompiledModule.alloc state s.scratchBytes
    · rfl
    · dsimp only
      obtain ⟨_ | entry, last⟩ := CompiledModule.entry next <;> rfl

omit [CompiledModule σ] in
theorem blind_report (r : LoadReport) : Blind (report r : Session α σ → Session α σ) := by
  intro n s
  unfold report
  rw [withFailed_controllerAlive, withFailed_reports]
  split
  · cases s.reports.push? r <;> rfl
  · rfl

omit [CompiledModule σ] in
theorem deliver_withFailed (o : LoadOutcome σ) (s : Session α σ) (n : Nat) :
    (s.withFailed n).deliver o = (s.deliver o).map (withFailed n) := by
  unfold deliver
  rw [withFailed_processorAlive, withFailed_outcomes]
  split
  · cases s.outcomes.push? o <;> rfl
  · exact congrArg some (blind_dropOutcome o n s)

theorem handle_withFailed (load : α → Except LoadError σ) (r : Request α σ) (s : Session α σ) (n : Nat) :
    (s.withFailed n).handle load r = (s.handle load r).map (withFailed n) := by
  cases r with
  | retire m => rfl
  | instantiate generation source =>
    unfold handle
    dsimp only
    rw [prepare_withFailed]
    obtain ⟨error | p, next⟩ := s.prepare load generation source
    · change ((next.withFailed n).report ⟨generation, error⟩).deliver (.failed generation) = _
      rw [blind_report]
      exact deliver_withFailed _ _ n
    · exact deliver_withFailed _ next n

theorem handleNext_withFailed (load : α → Except LoadError σ) (s : Session α σ) (n : Nat) :
    (s.withFailed n).handleNext load = (s.handleNext load).map (withFailed n) := by
  unfold handleNext
  rw [withFailed_requests]
  cases s.requests.items with
  | nil => rfl
  | cons r rest =>
    exact handle_withFailed load r { s with requests := { s.requests with items := rest } } n

-- A step does not look at the channels.
theorem snd_render (channels others : List (List Sample)) (s : Session α σ) :
    (s.render others).2 = (s.render channels).2 := by
  unfold render
  cases s.processor.active with
  | none => rfl
  | some a =>
    dsimp only [note]
    obtain ⟨ending, state⟩ := CompiledModule.step a.module.state a.current s.quantum a.scratch
    cases ending <;> rfl

theorem render_withFailed (channels : List (List Sample)) (s : Session α σ) (n : Nat) :
    (s.withFailed n).render channels = (s.render channels).map id (withFailed n) := by
  unfold render
  rw [withFailed_active]
  cases s.processor.active with
  | none => rfl
  | some a =>
    dsimp only [note]
    rw [withFailed_quantum]
    obtain ⟨ending, state⟩ := CompiledModule.step a.module.state a.current s.quantum a.scratch
    cases ending <;> rfl

/-- The same session, but for how many quanta failed. -/
def Alike (s t : Session α σ) : Prop :=
  t = s.withFailed t.processor.stats.failed

omit [CompiledModule σ] in
theorem Alike.trans {t u : Session α σ} (hst : s.Alike t) (htu : t.Alike u) : s.Alike u := by
  unfold Alike at hst htu ⊢
  rw [hst] at htu
  exact htu

theorem process_eq_render (channels : List (List Sample)) (s : Session α σ) : s.process channels =
    if s.counted.drain.processor.state = .ready then
      match s.counted.drain.acknowledge.render channels with
      | (some filled, t) => (filled, t)
      | (none, t) => (silence channels, t.count fun c => { c with failed := c.failed + 1 })
    else (silence channels, s.counted.drain.afterSilence) :=
  rfl

-- Quanta that failed before make no difference to this one.
theorem process_withFailed (channels : List (List Sample)) (s : Session α σ) (n : Nat) :
    ((s.withFailed n).process channels).1 = (s.process channels).1 ∧
      (s.process channels).2.Alike ((s.withFailed n).process channels).2 := by
  have htaken : (s.withFailed n).counted.drain = s.counted.drain.withFailed n := blind_drain n s.counted
  rw [process_eq_render, process_eq_render, htaken, blind_acknowledge, render_withFailed, withFailed_state]
  split
  · obtain ⟨_ | filled, t⟩ := s.counted.drain.acknowledge.render channels <;> exact ⟨rfl, rfl⟩
  · exact ⟨rfl, rfl⟩

-- Whether it counts as failed is all that the channels decide.
theorem process_alike (channels others : List (List Sample)) (s : Session α σ) :
    (s.process channels).2.Alike (s.process others).2 := by
  have hrender := snd_render channels others s.counted.drain.acknowledge
  rw [process_eq_render, process_eq_render]
  split
  · generalize s.counted.drain.acknowledge.render channels = result at hrender ⊢
    generalize s.counted.drain.acknowledge.render others = other at hrender ⊢
    obtain ⟨_ | _, t⟩ := result <;> obtain ⟨_ | _, u⟩ := other <;> cases hrender <;> rfl
  · rfl

/-- What a move answers. -/
def answer (s : Session α σ) : Move α σ → Answer
  | .turn turn =>
    if turn.isPossible s then
      match turn with
      | .load source => (answered .sent (s.load source)).1
      | .process channels => .rendered (s.process channels).1
      | .handle load => if (s.handleNext load).isSome then .done else .stuck
      | .tryReady => (answered .ready s.tryReady).1
      | .waitReady ackFirst microseconds =>
        (answered (fun _ => .ready true) (s.waitReady ackFirst microseconds)).1
    else .missing
  | .dropController => if s.controllerAlive then .done else .missing
  | .dropProcessor => if s.processorAlive then .done else .missing
  | .dropWorker => if s.workerAlive then .done else .missing

omit [CompiledModule σ] in
theorem isPossible_withFailed (turn : Turn α σ) (s : Session α σ) (n : Nat) :
    turn.isPossible (s.withFailed n) = turn.isPossible s := by
  cases turn <;> rfl

omit [CompiledModule σ] in
theorem fst_answered {β : Type} (answer : β → Answer) {f : Session α σ → Session α σ}
    (result : Except ProtocolError β × Session α σ) :
    (answered answer (result.map id f)).1 = (answered answer result).1 := by
  obtain ⟨_ | _, _⟩ := result <;> rfl

-- No answer but that of a quantum depends on quanta that failed, and that of a quantum is what it renders.
theorem answer_withFailed (move : Move α σ) (s : Session α σ) (n : Nat) :
    (s.withFailed n).answer move = s.answer move := by
  cases move with
  | turn turn =>
    unfold answer
    dsimp only
    rw [isPossible_withFailed]
    split
    · cases turn with
      | load source =>
        dsimp only
        rw [load_withFailed, fst_answered]
      | process channels =>
        dsimp only
        rw [(process_withFailed channels s n).1]
      | handle load =>
        dsimp only
        rw [handleNext_withFailed, Option.isSome_map]
      | tryReady =>
        dsimp only
        rw [tryReady_withFailed, fst_answered]
      | waitReady ackFirst microseconds =>
        have hwait := waitReadyFor_withFailed ackFirst microseconds (s.reports.items.length + 1) s n
        exact (congrArg (fun r => (answered (fun _ => Answer.ready true) r).1) hwait).trans (fst_answered _ _)
    · rfl
  | _ => rfl

end Session

/-- The moves differ at most in the channels of a quantum, and these as is allowed. -/
inductive Move.Like (allowed : List (List Sample) → List (List Sample) → Prop) : Move α σ → Move α σ → Prop
  | process {channels others : List (List Sample)} (h : allowed channels others) :
    Like allowed (.turn (.process channels)) (.turn (.process others))
  | same (move : Move α σ) : Like allowed move move

namespace History

variable [CompiledModule σ] {h k : History α σ}

open Session (Alike)

-- The same move leaves like sessions alike,
theorem alike_same (hsame : h.session.Alike k.session) (move : Move α σ) :
    (h.move move).session.Alike (k.move move).session := by
  obtain ⟨s, deeds⟩ := h
  obtain ⟨t, other⟩ := k
  obtain ⟨n, rfl⟩ : ∃ n, t = s.withFailed n := ⟨_, hsame⟩
  cases move with
  | turn turn =>
    unfold History.move
    dsimp only
    rw [Session.isPossible_withFailed]
    split
    · cases turn with
      | load source =>
        have hload := congrArg Prod.snd (Session.load_withFailed source s n)
        change (s.load source).2.Alike ((s.withFailed n).load source).2
        rw [hload]
        rfl
      | process channels => exact (Session.process_withFailed channels s n).2
      | handle load =>
        change ((s.handleNext load).getD s).Alike (((s.withFailed n).handleNext load).getD (s.withFailed n))
        rw [Session.handleNext_withFailed]
        cases s.handleNext load <;> rfl
      | tryReady =>
        have hlook := congrArg Prod.snd (Session.tryReady_withFailed s n)
        change s.tryReady.2.Alike (s.withFailed n).tryReady.2
        rw [hlook]
        rfl
      | waitReady ackFirst microseconds =>
        have hwait := congrArg Prod.snd
          (Session.waitReadyFor_withFailed ackFirst microseconds (s.reports.items.length + 1) s n)
        change (s.waitReadyFor ackFirst microseconds (s.reports.items.length + 1)).2.Alike
          ((s.withFailed n).waitReadyFor ackFirst microseconds (s.reports.items.length + 1)).2
        rw [hwait]
        rfl
    · rfl
  | dropController =>
    unfold History.move
    dsimp only
    rw [Session.withFailed_controllerAlive]
    split <;> rfl
  | dropProcessor =>
    unfold History.move
    dsimp only
    rw [Session.withFailed_processorAlive, Session.blind_dropProcessor]
    split <;> rfl
  | dropWorker =>
    unfold History.move
    dsimp only
    rw [Session.withFailed_workerAlive, Session.blind_dropWorker]
    split <;> rfl

-- and so do quanta with other channels.
theorem alike_move {allowed : List (List Sample) → List (List Sample) → Prop}
    (hsame : h.session.Alike k.session) {move other : Move α σ} (hlike : move.Like allowed other) :
    (h.move move).session.Alike (k.move other).session := by
  cases hlike with
  | same move => exact alike_same hsame move
  | @process channels others hallowed =>
    refine Session.Alike.trans ?_ (alike_same hsame (.turn (.process others)))
    by_cases halive : h.session.processorAlive = true
    · have hprocess (channels : List (List Sample)) :
          h.move (.turn (.process channels)) = h.process channels := if_pos halive
      rw [hprocess, hprocess]
      exact Session.process_alike channels others h.session
    · have hidle (channels : List (List Sample)) : h.move (.turn (.process channels)) = h := if_neg halive
      rw [hidle, hidle]
      rfl

theorem alike_through {allowed : List (List Sample) → List (List Sample) → Prop}
    (hsame : h.session.Alike k.session) {moves others : List (Move α σ)}
    (hlike : List.Forall₂ (Move.Like allowed) moves others) :
    (h.through moves).session.Alike (k.through others).session := by
  induction hlike generalizing h k with
  | nil => exact hsame
  | cons hmove _ ih => exact ih (alike_move hsame hmove)

/-- The channels have the same lengths. -/
def SameLengths (channels others : List (List Sample)) : Prop :=
  others.map List.length = channels.map List.length

theorem through_of_sameLengths {moves others : List (Move α σ)}
    (hlike : List.Forall₂ (Move.Like SameLengths) moves others) : h.through others = h.through moves := by
  induction hlike generalizing h with
  | nil => rfl
  | @cons move other moves others hmove _ ih =>
    have hfirst : h.move other = h.move move := by
      cases hmove with
      | same => rfl
      | @process channels others hlengths =>
        have hprocess : h.process others = h.process channels := by
          unfold History.process
          rw [Session.process_congr h.session hlengths]
        exact congrArg (fun k => if h.session.processorAlive then k else h) hprocess
    change (h.move other).through others = (h.move move).through moves
    rw [hfirst]
    exact ih

/-- The sessions of two runs that differ in the channels of their quanta at most. -/
structure Indifferent (s t : Session α σ) : Prop where
  /-- All calls of modules, the slot, the queues and the counters are the same, but for the number of quanta
  that failed. -/
  alike : s.Alike t
  /-- Every part answers the same, whatever it does next; only a quantum may render something else, -/
  answers : ∀ move, t.answer move = s.answer move
  /-- and that only if its channels have other lengths. -/
  outputs : ∀ channels others, SameLengths channels others → (t.process others).1 = (s.process channels).1

/-- Whatever channels the quanta of a session are given, how many and how long: at every point the same calls
have been made, everything is answered the same, and the session goes on the same. Only what is rendered may
differ, and how many quanta failed; and nothing differs when only the samples do that the channels held
before. -/
theorem channels_indifferent (s : Session α σ) {moves others : List (Move α σ)}
    (hlike : List.Forall₂ (Move.Like fun _ _ => True) moves others) :
    (∀ n, Indifferent (History.through ⟨s, []⟩ (moves.take n)).session
      (History.through ⟨s, []⟩ (others.take n)).session) ∧
    (List.Forall₂ (Move.Like SameLengths) moves others →
      History.through ⟨s, []⟩ others = History.through ⟨s, []⟩ moves) := by
  refine ⟨fun n => ?_, through_of_sameLengths⟩
  have halike := alike_through (h := ⟨s, []⟩) (k := ⟨s, []⟩) rfl (List.forall₂_take n hlike)
  refine ⟨halike, fun move => ?_, fun channels others hlengths => ?_⟩
  · rw [halike]
    exact Session.answer_withFailed move _ _
  · rw [Session.process_congr _ hlengths, halike]
    exact (Session.process_withFailed channels _ _).1

/-- The memory of the module holds one sample. A quantum with a channel of two fails, and one with a channel of
one does not; the module is called alike, and the continuation moves on in both. -/
theorem channels_indifferent_failing :
    let load : Unit → Except LoadError CannedModule := fun _ =>
      .ok ⟨[0, 0, 0, 0], .ok 0, .ok ⟨0⟩, [⟨none, .done (some ⟨1⟩)⟩]⟩
    let s : Session Unit CannedModule := {
      quantum := 2, scratchBytes := 8, control := .empty 2, requests := .empty 2, outcomes := .empty 2
      acks := .empty 1, reports := .empty 1 }
    let moves : List (Move Unit CannedModule) := [.turn (.load ()), .turn (.process [[⟨7⟩]]),
      .turn (.handle load), .turn (.process [[⟨7⟩], []])]
    let others : List (Move Unit CannedModule) := [.turn (.load ()), .turn (.process []),
      .turn (.handle load), .turn (.process [[⟨1⟩, ⟨2⟩]])]
    let t := (History.through ⟨s, []⟩ moves).session
    let u := (History.through ⟨s, []⟩ others).session
    List.Forall₂ (Move.Like fun _ _ => True) moves others ∧ Indifferent t u ∧
    t.processor.stats.failed = 0 ∧ u.processor.stats.failed = 1 ∧
    u.log = [.alloc 1 8, .entered 1, .stepped 1 ⟨0⟩ 2 0] ∧
    u.processor.active.map (·.current) = some ⟨1⟩ := by
  intro load s moves others t u
  have hlike : List.Forall₂ (Move.Like fun _ _ => True) moves others :=
    .cons (.same _) (.cons (.process trivial) (.cons (.same _) (.cons (.process trivial) .nil)))
  exact ⟨hlike, (channels_indifferent s hlike).1 4, by decide +kernel, by decide +kernel, by decide +kernel,
    by decide +kernel⟩

end History

end SampleStream
