import SampleStream.Proofs.Module.Seamless
import SampleStream.Proofs.Session.Backlog
import SampleStream.Proofs.Session.Playback

/-!
# The size of quanta is not heard

A recording of a session keeps what the quanta give out that step one module. If the module plays a seamless
stream, they are the next calls of its playback (`Continues`), and so the tape is that of a single call, for as
many frames as all of the quanta have: nothing of the quanta is left in it (`quantum_size_inaudible`).
-/

namespace SampleStream

universe u v w x y

variable {τ : Type u} [NativeStream τ]

/-- The outputs are those of the next calls of the playback, in any channels. -/
def Playback.Continues (p : Playback τ) : List (List (List Sample)) → Prop
  | [] => True
  | output :: outputs =>
    (∃ channels : List (List Sample), output = channels.map p.next.heard) ∧ p.next.Continues outputs

/-- One channel of all outputs, as far as the quanta reach. -/
def tape (quantum channel : Nat) (outputs : List (List (List Sample))) : List Sample :=
  outputs.flatMap fun output => (output[channel]?.getD []).take quantum

/-- The channel is there in every output, and a quantum has room in it. -/
def HasRoom (quantum channel : Nat) (outputs : List (List (List Sample))) : Prop :=
  ∀ output ∈ outputs, ∃ samples, output[channel]? = some samples ∧ quantum ≤ samples.length

instance (quantum channel : Nat) (outputs : List (List (List Sample))) :
    Decidable (HasRoom quantum channel outputs) :=
  inferInstanceAs (Decidable (∀ output ∈ outputs, ∃ samples, output[channel]? = some samples ∧ _))

omit [NativeStream τ] in
theorem Playback.length_heard (p : Playback τ) (channel : List Sample) :
    (p.heard channel).length = channel.length := by
  unfold heard
  rw [List.length_append, List.length_take, List.length_replicate]
  omega

omit [NativeStream τ] in
theorem Playback.take_heard (p : Playback τ) {channel : List Sample}
    (hroom : p.buffer.length ≤ channel.length) : (p.heard channel).take p.buffer.length = p.buffer := by
  unfold heard
  rw [List.take_of_length_le hroom, List.take_left]

-- With room for all samples of the quanta, the tape has just these.
theorem Playback.Continues.tape_eq {p : Playback τ} {channel : Nat} {outputs : List (List (List Sample))}
    (h : p.Continues outputs) (hroom : HasRoom p.buffer.length channel outputs) :
    tape p.buffer.length channel outputs = p.recorded outputs.length := by
  induction outputs generalizing p with
  | nil => rfl
  | cons output outputs ih =>
    obtain ⟨⟨channels, rfl⟩, hrest⟩ := h
    rw [← p.length_next] at hroom
    obtain ⟨samples, hsamples, hlength⟩ := hroom _ List.mem_cons_self
    obtain ⟨given, -, rfl⟩ := Option.map_eq_some_iff.mp (List.getElem?_map.symm.trans hsamples)
    rw [p.next.length_heard] at hlength
    have hrest := ih hrest fun output houtput => hroom output (List.mem_cons_of_mem _ houtput)
    rw [p.length_next] at hrest
    unfold tape at hrest ⊢
    rw [List.flatMap_cons, hsamples, hrest, Option.getD_some, ← p.length_next, p.next.take_heard hlength]
    rfl

namespace History

variable {α : Type v} {σ : Type w} [CompiledModule σ] {h : History α σ} {id : Nat}

/-- What a move gives out, if it is a quantum that steps the module. -/
def renderedBy (id : Nat) (h : History α σ) : Move α σ → List (List (List Sample))
  | .turn (.process channels) =>
    if h.session.processorAlive ∧ id ∈ (h.process channels).session.stepsSince h.session then
      [(h.session.process channels).1]
    else []
  | _ => []

/-- What the quanta of a run give out that step the module, in order. -/
def rendered (id : Nat) (h : History α σ) : List (Move α σ) → List (List (List Sample))
  | [] => []
  | move :: moves => h.renderedBy id move ++ (h.move move).rendered id moves

-- Without its processor a session renders nothing.
theorem rendered_of_gone (hgone : h.session.processorAlive ≠ true) (moves : List (Move α σ)) :
    h.rendered id moves = [] := by
  induction moves generalizing h with
  | nil => rfl
  | cons move moves ih =>
    have hnext : (h.move move).session.processorAlive ≠ true := fun halive => hgone (move_cases halive).1
    have hfirst : h.renderedBy id move = [] := by
      unfold renderedBy
      split
      · exact if_neg fun hsteps => hgone hsteps.1
      · rfl
    rw [rendered, hfirst, ih hnext]
    rfl

-- A move that is no quantum steps nothing.
theorem steps_of_move {move : Move α σ} (hmove : ∀ channels, move ≠ .turn (.process channels))
    (halive : (h.move move).session.processorAlive = true) :
    (h.move move).session.steps = h.session.steps := by
  obtain ⟨hthere, ⟨turn, rfl, -, hturn⟩ | ⟨controllerAlive, workerAlive, hgone⟩⟩ := move_cases halive
  · rw [hturn]
    rcases h.turn_cases turn with ⟨channels, rfl⟩ | ⟨load, next, rfl, hnext, heq⟩ |
      ⟨sent, control, acks, reports, heq⟩
    · exact absurd rfl (hmove channels)
    · rw [heq]
      exact Session.steps_handleNext hthere hnext
    · rw [heq]
      rfl
  · rw [hgone]
    rfl

variable {e : Embedding τ σ} {start : Playback τ}

-- A quantum steps the module once or not at all.
theorem Sound.count_steps_process (hs : h.Sound h.session.outcomes.items) (channels : List (List Sample)) :
    (h.process channels).session.steps.count id = h.session.steps.count id +
      if id ∈ (h.process channels).session.stepsSince h.session then 1 else 0 := by
  cases hs.plays channels with
  | nothing hstate hprocess hsteps hdeeds =>
    have hsince : (h.process channels).session.stepsSince h.session = [] :=
      Session.stepsSince_of_append hsteps
    rw [hsince, hsteps]
    rfl
  | module g a hstate hactive hlast hprocess hsteps hdeeds =>
    have hsince : (h.process channels).session.stepsSince h.session = [a.module.id] :=
      Session.stepsSince_of_append hsteps
    rw [hsince, hsteps, List.count_cons]
    simp only [List.mem_singleton, beq_iff_eq, @eq_comm _ id]

-- One move gives out the next call of the playback or nothing.
theorem Sound.continues_move (hs : h.Sound h.session.outcomes.items) (ht : h.Tracks e id start)
    (hseamless : Seamless τ) {move : Move α σ} {outputs : List (List (List Sample))}
    (hrest : (h.move move).session.processorAlive = true →
      (start.after ((h.move move).session.steps.count id)).Continues outputs)
    (hgone : (h.move move).session.processorAlive ≠ true → outputs = []) :
    (start.after (h.session.steps.count id)).Continues (h.renderedBy id move ++ outputs) := by
  by_cases hquantum : ∃ channels, move = .turn (.process channels)
  · obtain ⟨channels, rfl⟩ := hquantum
    have hmove : h.move (.turn (.process channels)) = h.process channels := if_pos hs.alive
    have hnext : (h.process channels).session.processorAlive = true := (hs.process channels).1.alive
    rw [hmove] at hrest
    have hrest := hrest hnext
    rw [hs.count_steps_process] at hrest
    unfold renderedBy
    dsimp only
    by_cases hsteps : id ∈ (h.process channels).session.stepsSince h.session
    · have hheard := ((hs.tracks_process ht channels).2 hsteps).heard
      rw [if_pos ⟨hs.alive, hsteps⟩]
      rw [if_pos hsteps] at hrest
      exact ⟨⟨channels, hheard.trans (if_pos (hseamless.ending_eq_done _ _))⟩, hrest⟩
    · rw [if_neg fun hboth => hsteps hboth.2]
      rw [if_neg hsteps] at hrest
      exact hrest
  · have hother : ∀ channels, move ≠ .turn (.process channels) := fun channels hmove =>
      hquantum ⟨channels, hmove⟩
    have hnone : h.renderedBy id move = [] := by
      unfold renderedBy
      split
      · exact absurd rfl (hother _)
      · rfl
    rw [hnone, List.nil_append]
    by_cases halive : (h.move move).session.processorAlive = true
    · rw [← steps_of_move hother halive]
      exact hrest halive
    · rw [hgone halive]
      trivial

-- However long the processor is there, the quanta that step the module go on with its playback.
theorem Sound.continues (hs : h.Sound h.session.outcomes.items) (ht : h.Tracks e id start)
    (hseamless : Seamless τ) (moves : List (Move α σ)) :
    (start.after (h.session.steps.count id)).Continues (h.rendered id moves) := by
  induction moves generalizing h with
  | nil => trivial
  | cons move moves ih =>
    exact hs.continues_move ht hseamless (fun halive => ih (hs.move halive) (hs.tracks_move ht halive))
      fun hgone => rendered_of_gone hgone moves

end History

/-- A run of a session whose worker makes a module of the stream, and one of the channels that are heard. -/
structure Recording (stream : τ) (α : Type v) (σ : Type w) [CompiledModule σ] where
  config : Config
  session : Session α σ
  linked : Session.link? config = some session
  kind : Embedding τ σ
  /-- What happens before the worker comes to the request, -/
  before : List (Move α σ)
  load : α → Except LoadError σ
  generation : Nat
  source : α
  rest : List (Request α σ)
  loaded : load source = .ok (kind.wrap (.new stream))
  requested : (History.through ⟨session, []⟩ before).session.requests.items =
    .instantiate generation source :: rest
  worker : (History.through ⟨session, []⟩ before).session.workerAlive = true
  /-- and what happens from then on. -/
  later : List (Move α σ)
  channel : Nat

namespace Recording

variable {stream : τ} {α : Type v} {σ : Type w} [CompiledModule σ]

def quantum (r : Recording stream α σ) : Nat :=
  r.config.quantumSize.toNat

/-- What the quanta give out that step the module. -/
def outputs (r : Recording stream α σ) : List (List (List Sample)) :=
  let h := History.through ⟨r.session, []⟩ r.before
  (h.move (.turn (.handle r.load))).rendered (h.session.loads + 1) r.later

/-- How many quanta step the module. -/
def quanta (r : Recording stream α σ) : Nat :=
  r.outputs.length

def Wide (r : Recording stream α σ) : Prop :=
  HasRoom r.quantum r.channel r.outputs

instance (r : Recording stream α σ) : Decidable r.Wide :=
  inferInstanceAs (Decidable (HasRoom _ _ _))

/-- What is heard of the module in the channel. -/
def tape (r : Recording stream α σ) : List Sample :=
  SampleStream.tape r.quantum r.channel r.outputs

theorem continues (r : Recording stream α σ) (hseamless : Seamless τ) :
    (Playback.start stream r.quantum).Continues r.outputs := by
  let h := History.through ⟨r.session, []⟩ r.before
  change (Playback.start stream r.quantum).Continues
    ((h.move (.turn (.handle r.load))).rendered (h.session.loads + 1) r.later)
  by_cases hmade : (h.move (.turn (.handle r.load))).session.processorAlive = true
  · obtain ⟨next, hnext⟩ := Option.isSome_iff_exists.mp (History.handles_through r.linked r.before r.load)
    have hmove : h.move (.turn (.handle r.load)) = ⟨next, h.deeds⟩ := by
      rw [History.move, if_pos (by exact r.worker)]
      change (⟨(h.session.handleNext r.load).getD _, _⟩ : History α σ) = _
      rw [hnext]
      rfl
    obtain ⟨hs, hregular⟩ : h.Sound h.session.outcomes.items ∧ h.Regular r.quantum :=
      History.through_induction (P := fun k => k.Sound k.session.outcomes.items ∧ k.Regular _)
        ⟨History.Sound.link r.linked, History.regular_link r.linked⟩
        (fun k move hk halive => ⟨hk.1.move halive, hk.1.regular_move hk.2 halive⟩) r.before
        (History.move_cases hmade).1
    have htracks := hs.tracks_made hregular r.loaded r.requested hnext
    rw [← hmove] at htracks
    -- a module that was just made has not been stepped
    have hnew : (h.move (.turn (.handle r.load))).session.steps.count (h.session.loads + 1) = 0 := by
      rw [History.steps_of_move (fun channels hquantum => by cases hquantum) hmade, List.count_eq_zero]
      exact fun hmem => Nat.not_succ_le_self _ (hregular.stepped _ hmem)
    have hcontinues := (hs.move hmade).continues htracks hseamless r.later
    rw [hnew] at hcontinues
    exact hcontinues
  · rw [History.rendered_of_gone hmade]
    trivial

-- The tape has the samples of one call for all frames.
theorem tape_eq (r : Recording stream α σ) (hseamless : Seamless τ) (hwide : r.Wide) : r.tape =
    (NativeStream.step stream (List.replicate (r.quantum * r.quanta) .zero)).frames := by
  have hsize : (Playback.start stream r.quantum).buffer.length = r.quantum := List.length_replicate
  have hroom : HasRoom (Playback.start stream r.quantum).buffer.length r.channel r.outputs := by
    rw [hsize]
    exact hwide
  have htape := (r.continues hseamless).tape_eq hroom
  rw [hseamless.recorded_eq, hsize, Nat.mul_comm] at htape
  exact htape

end Recording

/-- The stream is heard the same, whatever it is cut into. -/
structure Unbroken (stream : τ) : Prop where
  /-- Chunks with as many frames in all are filled with the same samples, and leave the stream the same. -/
  chunks : ∀ chunks others : List (List Sample),
    chunks.flatten.length = others.flatten.length → ∃ filled filled' last,
      fillChunks stream chunks = some (filled, last) ∧ fillChunks stream others = some (filled', last) ∧
        filled.flatten = filled'.flatten
  /-- Recordings of sessions with quanta of any sizes, with as many frames in all, are the same. -/
  recordings : ∀ {α : Type v} {σ : Type w} {β : Type x} {ρ : Type y} [CompiledModule σ] [CompiledModule ρ]
    (r : Recording stream α σ) (r' : Recording stream β ρ), r.Wide → r'.Wide →
      r.quantum * r.quanta = r'.quantum * r'.quanta → r.tape = r'.tape

theorem Seamless.unbroken (hs : Seamless τ) (stream : τ) : Unbroken.{u, v, w, x, y} stream where
  chunks chunks others hlength := by
    obtain ⟨filled, hfill, hflatten⟩ := hs.fillChunks_eq stream chunks
    obtain ⟨filled', hfill', hflatten'⟩ := hs.fillChunks_eq stream others
    rw [hs.fresh stream hlength] at hfill hflatten
    exact ⟨filled, filled', _, hfill, hfill', hflatten.trans hflatten'.symm⟩
  recordings r r' hwide hwide' hframes := by
    rw [r.tape_eq hs hwide, r'.tape_eq hs hwide', hframes]

/-- Every sine, whatever the bits of its frequency and whatever its rate and its phase, and every constant is
heard the same through quanta of any size. -/
theorem quantum_size_inaudible (sine : Sine) (constant : Constant) :
    Unbroken.{0, v, w, x, y} sine ∧ Unbroken.{0, v, w, x, y} constant :=
  ⟨seamless_sine.unbroken sine, seamless_constant.unbroken constant⟩

/-- Three quanta of two samples, the last of them after a load that failed has parked the module for a quantum,
and two quanta of three samples after two that are silent. -/
theorem quantum_size_inaudible_parked :
    let sine : Sine := .new ⟨0x43dc0000⟩ 48000
    let load : Bool → Except LoadError AnyModule := fun plays =>
      if plays then .ok (.sine (.new sine)) else .error (.malformed "empty")
    let wide : List (List Sample) := [[.zero], [.zero, ⟨7⟩, ⟨7⟩]]
    let first : Recording sine Bool AnyModule := {
      config := { quantumSize := 2, controlCapacity := 2, loaderCapacity := 2, eventCapacity := 1 }
      session := {
        quantum := 2, scratchBytes := 8, control := .empty 2, requests := .empty 2, outcomes := .empty 2
        acks := .empty 1, reports := .empty 1 }
      linked := rfl, kind := AnyModule.sines, load, generation := 1, source := true, rest := []
      before := [.turn (.load true), .turn (.process wide)]
      loaded := rfl, requested := rfl, worker := rfl
      later := [.turn (.process wide), .turn (.process wide), .turn (.load false), .turn (.process wide),
        .turn (.handle load), .turn (.process wide)]
      channel := 1 }
    let second : Recording sine Bool AnyModule := {
      config := { quantumSize := 3, controlCapacity := 1, loaderCapacity := 1, eventCapacity := 1 }
      session := {
        quantum := 3, scratchBytes := 12, control := .empty 1, requests := .empty 1, outcomes := .empty 1
        acks := .empty 1, reports := .empty 1 }
      linked := rfl, kind := AnyModule.sines, load, generation := 1, source := true, rest := []
      before := [.turn (.process wide), .turn (.load true), .turn (.process wide)]
      loaded := rfl, requested := rfl, worker := rfl
      later := [.turn (.process wide), .dropWorker, .turn (.process wide), .dropProcessor,
        .turn (.process wide)]
      channel := 1 }
    first.Wide ∧ second.Wide ∧ first.quanta = 3 ∧ second.quanta = 2 ∧ first.tape.length = 6 ∧
    first.tape = second.tape := by
  intro sine load wide first second
  have hfirst : first.Wide := by decide +kernel
  have hsecond : second.Wide := by decide +kernel
  have hframes : first.quantum * first.quanta = second.quantum * second.quanta := by decide +kernel
  exact ⟨hfirst, hsecond, by decide +kernel, by decide +kernel, by decide +kernel,
    (quantum_size_inaudible sine ⟨.zero⟩).1.recordings first second hfirst hsecond hframes⟩

end SampleStream
