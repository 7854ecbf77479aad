import SampleStream.Module.Canned
import SampleStream.Proofs.Module.Decoding
import SampleStream.Proofs.Session.Playback

/-!
# The output of a quantum

A quantum is silent, fails or is rendered, and counts as just one of these (`Session.Ends`). Whichever it is,
nothing of what the channels held before is heard. The counters of a processor are those of its quanta
(`History.quantum_output`).
-/

namespace SampleStream

universe u v

variable {α : Type v} {σ : Type u} [CompiledModule σ]

/-- The step of an active module: how it ended, and the module after it. -/
def Active.stepped (a : Active σ) (quantum : Nat) : Ending Handle × σ :=
  CompiledModule.step a.module.state a.current quantum a.scratch

/-- The continuation that an active module is stepped from next, whether its samples can be read or not. -/
def Active.next (a : Active σ) (quantum : Nat) : Handle :=
  match (a.stepped quantum).1 with
  | .done next => next
  | _ => a.current

theorem Active.play_left (a : Active σ) (quantum : Nat) (channels : List (List Sample)) :
    (a.play quantum channels).2 =
      { a with module := { a.module with state := (a.stepped quantum).2 }, current := a.next quantum } := by
  unfold play next stepped
  generalize CompiledModule.step a.module.state a.current quantum a.scratch = result
  obtain ⟨ending, state⟩ := result
  cases ending <;> rfl

/-- The channels filled in place with what the step of an active module leaves in its memory. -/
def Active.decoded (a : Active σ) (quantum : Nat) (channels : List (List Sample)) :
    List (List Sample) × Bool :=
  Session.fillInPlace (CompiledModule.memory (a.stepped quantum).2) a.scratch quantum channels

-- A module is heard if its step succeeds and all channels can be filled.
theorem Active.play_heard (a : Active σ) (quantum : Nat) (channels : List (List Sample)) :
    ((∃ next, (a.stepped quantum).1 = .done next) ∧ (a.decoded quantum channels).2 = true ∧
      (a.play quantum channels).1 = some (a.decoded quantum channels).1) ∨
    (((∀ next, (a.stepped quantum).1 ≠ .done next) ∨ (a.decoded quantum channels).2 = false) ∧
      (a.play quantum channels).1 = none) := by
  have hfill : (channels.mapM (Session.fillChannel (CompiledModule.memory (a.stepped quantum).2)
        a.scratch quantum)).toOption =
      if (a.decoded quantum channels).2 then some (a.decoded quantum channels).1 else none :=
    Session.mapM_fillChannel channels
  unfold decoded at hfill
  unfold play
  unfold decoded
  unfold stepped at hfill ⊢
  generalize CompiledModule.step a.module.state a.current quantum a.scratch = result at hfill ⊢
  obtain ⟨ending, state⟩ := result
  cases ending with
  | failed error => exact .inr ⟨.inl nofun, rfl⟩
  | panicked => exact .inr ⟨.inl nofun, rfl⟩
  | done next =>
    dsimp only at hfill ⊢
    rw [hfill]
    cases hall : (Session.fillInPlace (CompiledModule.memory state) a.scratch quantum channels).2 with
    | true => exact .inl ⟨⟨next, rfl⟩, rfl, rfl⟩
    | false => exact .inr ⟨.inr rfl, rfl⟩

/-- How a quantum ends. -/
inductive Verdict
  | silent
  | failed
  | rendered
deriving DecidableEq, Repr

namespace Session

/-- What is heard in a quantum that ends so. `t` is the session when all that has arrived is taken on. A
quantum may fail when some of the channels have been filled already. -/
def Heard (t : Session α σ) (channels after : List (List Sample)) : Verdict → Prop
  | .silent => t.processor.state ≠ .ready ∧ after = silence channels
  | .failed => t.processor.state = .ready ∧ after = silence channels ∧
      ∃ a, t.processor.active = some a ∧ ((∀ next, (a.stepped t.quantum).1 ≠ .done next) ∨
        (a.decoded t.quantum channels).2 = false ∧ after = silence (a.decoded t.quantum channels).1)
  | .rendered => t.processor.state = .ready ∧
      ∃ a, t.processor.active = some a ∧ (∃ next, (a.stepped t.quantum).1 = .done next) ∧
        List.Forall₂ (Decoded (CompiledModule.memory (a.stepped t.quantum).2) a.scratch t.quantum)
          channels after

/-- A quantum ends so: it is heard so, and counts as one quantum and as nothing else. -/
structure Ends (s : Session α σ) (channels : List (List Sample)) (verdict : Verdict) : Prop where
  heard : s.counted.drain.Heard channels (s.process channels).1 verdict
  quanta : (s.process channels).2.processor.stats.quanta = s.processor.stats.quanta + 1
  silent : (s.process channels).2.processor.stats.silent =
    s.processor.stats.silent + if verdict = .silent then 1 else 0
  failed : (s.process channels).2.processor.stats.failed =
    s.processor.stats.failed + if verdict = .failed then 1 else 0

-- The counters tell how it was.
theorem Ends.unique {s : Session α σ} {channels : List (List Sample)} {v w : Verdict}
    (hv : s.Ends channels v) (hw : s.Ends channels w) : v = w := by
  have hsilent := Nat.add_left_cancel (hv.silent.symm.trans hw.silent)
  have hfailed := Nat.add_left_cancel (hv.failed.symm.trans hw.failed)
  cases v <;> cases w <;> first | rfl | contradiction

/-- How the next quantum ends. -/
def verdict (s : Session α σ) (channels : List (List Sample)) : Verdict :=
  let t := s.counted.drain
  match t.processor.state, t.processor.active with
  | .ready, some a => if (a.play t.quantum channels).1.isSome then .rendered else .failed
  | _, _ => .silent

theorem Heard.length {t : Session α σ} {channels after : List (List Sample)} {v : Verdict}
    (h : t.Heard channels after v) : after.map List.length = channels.map List.length := by
  cases v with
  | silent => rw [h.2, map_length_silence]
  | failed => rw [h.2.1, map_length_silence]
  | rendered =>
    obtain ⟨-, a, -, -, hdecoded⟩ := h
    exact map_length_of_decoded hdecoded

theorem getElem?_of_mem_silence {channels : List (List Sample)} {channel : List Sample}
    (h : channel ∈ silence channels) {i : Nat} (hi : i < channel.length) : channel[i]? = some .zero := by
  obtain ⟨c, -, rfl⟩ := List.mem_map.mp h
  rw [List.length_replicate] at hi
  rw [List.getElem?_replicate, if_pos hi]

theorem Heard.agree {t : Session α σ} {channels after : List (List Sample)} {v : Verdict}
    (h : t.Heard channels after v) {cs ds : List Sample} (hc : cs ∈ after) (hd : ds ∈ after) {i : Nat}
    (hci : i < cs.length) (hdi : i < ds.length) : cs[i]? = ds[i]? := by
  have hsilence (hafter : after = silence channels) : cs[i]? = ds[i]? := by
    rw [hafter] at hc hd
    rw [getElem?_of_mem_silence hc hci, getElem?_of_mem_silence hd hdi]
  cases v with
  | silent => exact hsilence h.2
  | failed => exact hsilence h.2.1
  | rendered =>
    obtain ⟨-, a, -, -, hdecoded⟩ := h
    obtain ⟨_, hc⟩ := exists_decoded_of_mem hdecoded hc
    obtain ⟨_, hd⟩ := exists_decoded_of_mem hdecoded hd
    exact hc.agree hd hci hdi

-- What the channels held before makes no difference.
theorem process_congr (s : Session α σ) {channels others : List (List Sample)}
    (h : others.map List.length = channels.map List.length) : s.process others = s.process channels := by
  have hrender (t : Session α σ) : t.render others = t.render channels := by
    unfold render
    split
    · rfl
    · dsimp only
      split
      · rw [mapM_fillChannel_congr h]
      · rfl
  unfold process
  dsimp only
  rw [hrender, silence_congr h]

end Session

namespace History

variable {h : History α σ}

omit [CompiledModule σ] in
-- Taking messages on counts dropped loads only.
theorem Sound.taken_stats (hs : h.Sound h.session.outcomes.items) : ∃ droppedLoads,
    h.taken.session.processor.stats = { h.session.counted.processor.stats with droppedLoads } := by
  refine hs.taken_induction (P := fun k _ _ => ∃ droppedLoads,
    k.session.processor.stats = { h.session.counted.processor.stats with droppedLoads }) ?_ ?_ ?_ ?_
  · exact ⟨h.session.counted.processor.stats.droppedLoads, rfl⟩
  · rintro k source sources waiting hk ⟨droppedLoads, hstats⟩
    change ∃ droppedLoads, (k.session.receive source).processor.stats = _
    rcases Session.receive_cases source hk.slot.exclusive with ⟨requests, -, heq⟩ | heq
    · rw [heq]
      exact ⟨droppedLoads, hstats⟩
    · rw [heq]
      refine ⟨k.session.processor.stats.droppedLoads + 1, ?_⟩
      simp only [Processor.denied, Processor.resumed, hstats]
  · exact fun k waiting hstats => hstats
  · rintro k o os hk ⟨droppedLoads, hstats⟩
    obtain ⟨requests, trace, processor, hadopt, -, hsame⟩ := Session.adopt_eq hk.slot.active_eq_none o
    refine ⟨droppedLoads, ?_⟩
    change (k.session.adopt o).processor.stats = _
    rw [hadopt, ← hstats]
    exact hsame

theorem Sound.ends (hs : h.Sound h.session.outcomes.items) (channels : List (List Sample)) :
    h.session.Ends channels (h.session.verdict channels) := by
  have hsession : h.taken.session = h.session.counted.drain := drain_session _
  obtain ⟨droppedLoads, hstats⟩ := hs.taken_stats
  cases hs.plays channels with
  | nothing hstate hprocess hsteps hdeeds =>
    have hverdict : h.session.verdict channels = .silent := by
      unfold Session.verdict
      rw [← hsession]
      dsimp only
      split
      · exact absurd ‹_› hstate
      · rfl
    rw [hverdict]
    constructor
    · rw [hprocess, ← hsession]
      exact ⟨hstate, rfl⟩
    all_goals rw [hprocess]; simp only [Session.afterSilence, Session.count, hstats]; rfl
  | module g a hstate hactive hlast hprocess hsteps hdeeds =>
    obtain ⟨acks, ackPending, hack⟩ := h.taken.session.acknowledge_eq
    have hquantum : h.taken.session.acknowledge.quantum = h.taken.session.quantum := by rw [hack]
    have hverdict : h.session.verdict channels =
        if (a.play h.taken.session.quantum channels).1.isSome then .rendered else .failed := by
      unfold Session.verdict
      rw [← hsession]
      dsimp only
      rw [hstate, hactive]
    have hcounts (verdict : Verdict) (hsilent : verdict ≠ .silent)
        (hfailed : (if (a.play h.taken.session.quantum channels).1.isSome then 0 else 1) =
          if verdict = .failed then 1 else 0)
        (hheard : h.taken.session.Heard channels (h.session.process channels).1 verdict) :
        h.session.Ends channels verdict := by
      rw [hsession] at hheard
      refine ⟨hheard, ?_, ?_, ?_⟩
      all_goals
        rw [hprocess]
        simp only [Session.afterPlaying, hquantum]
        rw [hack]
        simp only [hstats]
      · rfl
      · rw [if_neg hsilent]
        rfl
      · rw [hfailed]
        rfl
    rw [hverdict]
    obtain ⟨hdone, hall, hplay⟩ | ⟨hcause, hplay⟩ := a.play_heard h.taken.session.quantum channels
    · rw [hplay] at hcounts ⊢
      refine hcounts .rendered (by decide) rfl ⟨hstate, a, hactive, hdone, ?_⟩
      rw [hprocess, hplay]
      exact Session.decoded_of_fillInPlace ((Session.fillInPlace_all_iff channels).mp hall)
    · rw [hplay] at hcounts ⊢
      have hsilence : (h.session.process channels).1 = Session.silence channels := by
        rw [hprocess, hplay]
        rfl
      refine hcounts .failed (by decide) rfl
        ⟨hstate, hsilence, a, hactive, hcause.imp_right fun hall => ⟨hall, ?_⟩⟩
      rw [hsilence]
      exact (Session.silence_congr (Session.map_length_fillInPlace channels)).symm

-- Only a module that was adopted is stepped.
theorem Sound.silence_of_unadopted (hs : h.Sound h.session.outcomes.items) (channels : List (List Sample))
    (hnone : ∀ g id, Deed.adopted g id ∉ (h.process channels).deeds) :
    (h.session.process channels).1 = Session.silence channels := by
  cases hs.plays channels with
  | nothing hstate hprocess hsteps hdeeds => rw [hprocess]
  | module g a hstate hactive hlast hprocess hsteps hdeeds =>
    refine absurd ?_ (hnone g a.module.id)
    rw [hdeeds]
    exact List.mem_cons_of_mem _ (Deed.adopted_mem_of_last hlast)

/-- How the quantum of a move ends, if the move is a quantum and the processor is there. -/
def verdictOf (h : History α σ) : Move α σ → List Verdict
  | .turn (.process channels) => if h.session.processorAlive then [h.session.verdict channels] else []
  | _ => []

/-- How the quanta of a run end, in order. -/
def verdicts (h : History α σ) : List (Move α σ) → List Verdict
  | [] => []
  | move :: moves => h.verdictOf move ++ (h.move move).verdicts moves

/-- The counters have gone on from `before` by quanta that ended so. -/
structure Counts (before after : RenderStats) (vs : List Verdict) : Prop where
  quanta : after.quanta = before.quanta + vs.length
  silent : after.silent = before.silent + vs.count .silent
  failed : after.failed = before.failed + vs.count .failed

theorem Counts.append {first second third : RenderStats} {vs ws : List Verdict}
    (hv : Counts first second vs) (hw : Counts second third ws) : Counts first third (vs ++ ws) where
  quanta := by rw [hw.quanta, hv.quanta, List.length_append, Nat.add_assoc]
  silent := by rw [hw.silent, hv.silent, List.count_append, Nat.add_assoc]
  failed := by rw [hw.failed, hv.failed, List.count_append, Nat.add_assoc]

-- A move that is no quantum leaves the processor as it is.
theorem processor_of_move {move : Move α σ} (hmove : ∀ channels, move ≠ .turn (.process channels))
    (halive : (h.move move).session.processorAlive = true) :
    (h.move move).session.processor = h.session.processor := by
  obtain ⟨-, ⟨turn, rfl, -, hturn⟩ | ⟨controllerAlive, workerAlive, hgone⟩⟩ := move_cases halive
  · rw [hturn]
    rcases h.turn_cases turn with ⟨channels, rfl⟩ | ⟨load, next, rfl, hnext, heq⟩ |
      ⟨sent, control, acks, reports, heq⟩
    · exact absurd rfl (hmove channels)
    · obtain ⟨requests, outcomes, reports, loads, trace, rfl⟩ := Session.handleNext_eq hnext
      rw [heq]
    · rw [heq]
  · rw [hgone]

theorem Sound.counts_move (hs : h.Sound h.session.outcomes.items) {move : Move α σ}
    (halive : (h.move move).session.processorAlive = true) :
    Counts h.session.processor.stats (h.move move).session.processor.stats (h.verdictOf move) := by
  by_cases hquantum : ∃ channels, move = .turn (.process channels)
  · obtain ⟨channels, rfl⟩ := hquantum
    have hthere := (move_cases halive).1
    have hmove : h.move (.turn (.process channels)) = h.process channels := if_pos hthere
    have hverdict : h.verdictOf (.turn (.process channels)) = [h.session.verdict channels] :=
      if_pos hthere
    have hends := hs.ends channels
    rw [hmove, hverdict]
    refine ⟨hends.quanta, ?_, ?_⟩
    · simp only [List.count_singleton, beq_iff_eq]
      exact hends.silent
    · simp only [List.count_singleton, beq_iff_eq]
      exact hends.failed
  · have hother : ∀ channels, move ≠ .turn (.process channels) := fun channels hmove =>
      hquantum ⟨channels, hmove⟩
    have hverdict : h.verdictOf move = [] := by
      unfold verdictOf
      split
      · exact absurd rfl (hother _)
      · rfl
    rw [hverdict, processor_of_move hother halive]
    exact ⟨rfl, rfl, rfl⟩

theorem Sound.counts_through (hs : h.Sound h.session.outcomes.items) (moves : List (Move α σ))
    (halive : (h.through moves).session.processorAlive = true) :
    Counts h.session.processor.stats (h.through moves).session.processor.stats (h.verdicts moves) := by
  induction moves generalizing h with
  | nil => exact ⟨rfl, rfl, rfl⟩
  | cons move moves ih =>
    have hmove : (h.move move).session.processorAlive = true := processorAlive_of_through halive
    exact (hs.counts_move hmove).append (ih (hs.move hmove) halive)

theorem length_eq_counts (vs : List Verdict) :
    vs.length = vs.count .silent + vs.count .failed + vs.count .rendered := by
  induction vs with
  | nil => rfl
  | cons v vs ih =>
    rw [List.length_cons, ih]
    cases v <;> simp <;> omega

/-- What there is to say about the next quantum of a history whose quanta ended in `vs`. -/
structure QuantumOutput (h : History α σ) (vs : List Verdict) (quantum : Nat)
    (channels : List (List Sample)) : Prop where
  /-- the quantum ends in one of three ways, and in no other -/
  ends : h.session.Ends channels (h.session.verdict channels)
  only : ∀ v, h.session.Ends channels v → v = h.session.verdict channels
  /-- the module is stepped for as many samples as the session is configured for -/
  quantum : h.session.counted.drain.quantum = quantum
  /-- every sample is written anew, whatever it was -/
  length : (h.session.process channels).1.map List.length = channels.map List.length
  overwritten : ∀ others, others.map List.length = channels.map List.length →
    h.session.process others = h.session.process channels
  /-- all channels agree as far as they both reach -/
  agree : ∀ cs ∈ (h.session.process channels).1, ∀ ds ∈ (h.session.process channels).1,
    ∀ i < min cs.length ds.length, cs[i]? = ds[i]?
  /-- before any module is adopted there is silence -/
  unadopted : (∀ g id, Deed.adopted g id ∉ (h.process channels).deeds) →
    (h.session.process channels).1 = Session.silence channels
  counts : Counts {} h.session.processor.stats vs
  total : h.session.processor.stats.quanta =
    h.session.processor.stats.silent + h.session.processor.stats.failed + vs.count .rendered

/-- In every state that a session can reach while its processor is there, and for channels of any lengths that
hold anything: the next quantum is silent, fails or is rendered, is heard and counted accordingly, and the
counters so far are those of the quanta so far. -/
theorem quantum_output {config : Config} {s : Session α σ} (hlink : Session.link? config = some s)
    (moves : List (Move α σ))
    (halive : (History.through ⟨s, []⟩ moves).session.processorAlive = true)
    (channels : List (List Sample)) :
    (History.through ⟨s, []⟩ moves).QuantumOutput (History.verdicts ⟨s, []⟩ moves)
      config.quantumSize.toNat channels := by
  have hstart : (⟨s, []⟩ : History α σ).Sound s.outcomes.items := Sound.link hlink
  have hs := hstart.through moves halive
  have hends := hs.ends channels
  have hcounts := hstart.counts_through moves halive
  have hzero : s.processor.stats = {} := by
    unfold Session.link? at hlink
    split at hlink
    · cases hlink
      rfl
    · cases hlink
  have hregular := through_induction (P := fun k => k.Sound k.session.outcomes.items ∧ k.Regular _)
    ⟨hstart, regular_link hlink⟩
    (fun k move hk halive => ⟨hk.1.move halive, hk.1.regular_move hk.2 halive⟩) moves halive
  obtain ⟨requests, outcomes, trace, processor, htaken, -⟩ := hs.taken_eq
  change Counts s.processor.stats _ _ at hcounts
  rw [hzero] at hcounts
  refine ⟨hends, fun v hv => hv.unique hends, ?_, hends.heard.length,
    fun others hothers => Session.process_congr _ hothers, fun c hc d hd i hi => ?_,
    hs.silence_of_unadopted channels, hcounts, ?_⟩
  · rw [← hregular.2.quantum]
    exact (congrArg Session.quantum (drain_session _).symm).trans (congrArg Session.quantum htaken)
  · obtain ⟨hci, hdi⟩ := Nat.lt_min.mp hi
    exact hends.heard.agree hc hd hci hdi
  · rw [hcounts.quanta, hcounts.silent, hcounts.failed, length_eq_counts]
    change 0 + _ = 0 + _ + (0 + _) + _
    omega

/-- A module whose second step leaves a memory that is too small for one of two channels: the other one has
been decoded by then, and is silent all the same. -/
theorem quantum_output_partly :
    let canned : CannedModule := {
      memory := [0, 0, 128, 63, 0, 0, 0, 64], alloc := .ok 0, entry := .ok ⟨7⟩
      steps := [⟨none, .done (some ⟨8⟩)⟩, ⟨some [0, 0, 128, 63], .done (some ⟨9⟩)⟩] }
    let config : Config := {
      quantumSize := 2, controlCapacity := 1, loaderCapacity := 1, eventCapacity := 1 }
    let s : Session Unit CannedModule := {
      quantum := 2, scratchBytes := 8, control := .empty 1, requests := .empty 1, outcomes := .empty 1
      acks := .empty 1, reports := .empty 1 }
    let moves : List (Move Unit CannedModule) := [.turn (.load ()), .turn (.process [[⟨5⟩]]),
      .turn (.handle fun _ => .ok canned), .turn (.process [[⟨5⟩, ⟨5⟩, ⟨5⟩]])]
    let h := History.through ⟨s, []⟩ moves
    let channels : List (List Sample) := [[⟨5⟩], [⟨5⟩, ⟨5⟩, ⟨5⟩]]
    Session.link? config = some s ∧ h.session.processorAlive = true ∧
    h.QuantumOutput (History.verdicts ⟨s, []⟩ moves) 2 channels ∧
    History.verdicts ⟨s, []⟩ moves = [.silent, .rendered] ∧ h.session.verdict channels = .failed ∧
    (h.session.counted.drain.processor.active.map fun a => a.decoded 2 channels) =
      some ([[⟨0x3f800000⟩], [⟨5⟩, ⟨5⟩, ⟨5⟩]], false) ∧
    (h.session.process channels).1 = [[.zero], [.zero, .zero, .zero]] := by
  intro canned config s moves h channels
  have hlink : Session.link? config = some s := rfl
  have halive : h.session.processorAlive = true := by decide +kernel
  exact ⟨hlink, halive, quantum_output hlink moves halive channels, by decide +kernel, by decide +kernel,
    by decide +kernel, by decide +kernel⟩

end History

end SampleStream
