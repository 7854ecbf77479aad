import SampleStream.Proofs.Module.Native
import SampleStream.Proofs.Session.Backlog

/-!
# Native streams are played faithfully

A native module that is loaded keeps to the playback of its stream through everything that a session does:
each quantum that steps it is one call of the stream, and what the call leaves in the buffer is heard. It may
be parked and restored in between. `History.Tracks` is the invariant.
-/

namespace SampleStream

universe u v w

variable {α : Type v} {σ : Type w} {τ : Type u}

/-- What a channel gets of the buffer: as much as it has room for, and zeros behind it. -/
def Playback.heard (p : Playback τ) (channel : List Sample) : List Sample :=
  p.buffer.take channel.length ++ List.replicate (channel.length - p.buffer.length) .zero

-- A channel is filled with what it gets of the buffer, once that is in the memory.
theorem fillChannel_eq {p : Playback τ} {memory : List UInt8}
    (hwritten : ∀ count ≤ p.buffer.length,
      readSamples memory NativeModule.scratch count = .ok (p.buffer.take count))
    (channel : List Sample) : Session.fillChannel memory NativeModule.scratch p.buffer.length channel =
      .ok (p.heard channel) := by
  have hread := hwritten _ (Nat.min_le_left p.buffer.length channel.length)
  have htake : p.buffer.take (min p.buffer.length channel.length) = p.buffer.take channel.length := by
    rw [← List.take_take, List.take_of_length_le]
    rw [List.length_take]
    exact Nat.min_le_right _ _
  have hrest : channel.length - min p.buffer.length channel.length =
      channel.length - p.buffer.length := by
    omega
  unfold Session.fillChannel
  dsimp only
  rw [hread, htake, hrest]
  rfl

namespace Session

variable {s : Session α σ} {waiting : List (LoadOutcome σ)} {a : Active σ}

/-- The module is on its way to the processor, active or parked. -/
def Carries (s : Session α σ) (waiting : List (LoadOutcome σ)) (a : Active σ) : Prop :=
  (∃ p, .loaded p ∈ waiting ∧ p.activate = a) ∨
    s.processor.active = some a ∨ s.processor.parked = some a

-- Taking messages on brings no modules that were not there.
theorem carries_of_receive {source : α}
    (hslot : s.processor.active = none ∨ s.processor.parked = none)
    (h : (s.receive source).Carries waiting a) : s.Carries waiting a := by
  have hheld (hor : s.processor.active.or s.processor.parked = some a) : s.Carries waiting a := by
    rw [Option.or_eq_some_iff] at hor
    exact .inr (hor.imp_right And.right)
  rcases receive_cases source hslot with ⟨requests, -, heq⟩ | heq
  · rw [heq] at h
    rcases h with hwaits | hactive | hparked
    · exact .inl hwaits
    · cases hactive
    · exact hheld hparked
  · rw [heq] at h
    rcases h with hwaits | hactive | hparked
    · exact .inl hwaits
    · exact hheld hactive
    · cases hparked

theorem carries_of_adopt {o : LoadOutcome σ}
    (hslot : s.processor.state = .loading → s.processor.active = none)
    (h : (s.adopt o).Carries waiting a) : s.Carries (o :: waiting) a := by
  have hwaiting (hwaits : ∃ p, .loaded p ∈ waiting ∧ p.activate = a) : s.Carries (o :: waiting) a := by
    obtain ⟨p, hp, ha⟩ := hwaits
    exact .inl ⟨p, List.mem_cons_of_mem _ hp, ha⟩
  by_cases hcurrent : s.Current o
  · cases o with
    | loaded p =>
      obtain ⟨requests, trace, heq, -, -⟩ := adopt_loaded_current hcurrent (hslot hcurrent.2)
      rw [heq] at h
      rcases h with hwaits | hactive | hparked
      · exact hwaiting hwaits
      · cases hactive
        exact .inl ⟨p, List.mem_cons_self, rfl⟩
      · cases hparked
    | failed generation =>
      rw [adopt_failed_current hcurrent (hslot hcurrent.2)] at h
      rcases h with hwaits | hactive | hparked
      · exact hwaiting hwaits
      · exact .inr (.inr hactive)
      · cases hparked
  · have hprocessor : (s.adopt o).processor = s.processor := by
      cases o with
      | loaded p =>
        obtain ⟨requests, trace, heq, -, -⟩ := retire_eq p.module s
        rw [adopt_loaded_late hcurrent, heq]
      | failed generation => rw [adopt_failed_late hcurrent]
    unfold Carries at h
    rw [hprocessor] at h
    exact h.elim hwaiting .inr

-- The worker steps no module.
theorem steps_handleNext [CompiledModule σ] {load : α → Except LoadError σ} {next : Session α σ}
    (halive : s.processorAlive = true) (h : s.handleNext load = some next) : next.steps = s.steps := by
  cases handled_of_handleNext halive h with
  | nothing hitems hnext => rw [hnext]
  | dropped m rest hitems hnext =>
    rw [hnext]
    rfl
  | tried generation source rest o outcomes reports events hitems hpush hgeneration hnext hevents =>
    have hnone : events.filterMap Event.stepped? = [] :=
      List.filterMap_eq_nil_iff.mpr fun event hevent => (hevents event hevent).2
    rw [hnext]
    change (events ++ s.trace).filterMap Event.stepped? = s.steps
    rw [List.filterMap_append, hnone]
    rfl

end Session

-- Messages that are taken on bring no modules that were not there, and leave those as they are.
theorem History.Sound.carries_of_taken {h : History α σ} (hs : h.Sound h.session.outcomes.items)
    {a : Active σ} (ha : h.taken.session.Carries [] a) :
    h.session.Carries h.session.outcomes.items a :=
  hs.taken_induction (P := fun k _ waiting => ∀ a, k.session.Carries waiting a →
      h.session.Carries h.session.outcomes.items a)
    (fun _ ha => ha)
    (fun _ _ _ _ hk hP a ha => hP a (Session.carries_of_receive hk.slot.exclusive ha))
    (fun _ _ hP => hP)
    (fun _ _ _ hk hP a ha => hP a (Session.carries_of_adopt hk.slot.active_eq_none ha)) a ha

variable [CompiledModule σ] [NativeStream τ] {e : Embedding τ σ}

/-- The module is a native one that keeps to the playback, and is stepped from its live handle. -/
def Active.InTune (e : Embedding τ σ) (p : Playback τ) (a : Active σ) : Prop :=
  a.scratch = NativeModule.scratch ∧
    ∃ m : NativeModule τ, a.module.state = e.wrap m ∧ a.current = m.live ∧ m.InTune p

-- Playing the module is the next call of its stream.
theorem Active.InTune.play {a : Active σ} {p : Playback τ} (ha : a.InTune e p)
    (channels : List (List Sample)) : (a.play p.buffer.length channels).2.InTune e p.next ∧
      (a.play p.buffer.length channels).1 =
        if p.call.ending = .done () then some (channels.map p.next.heard) else none := by
  obtain ⟨hscratch, m, hstate, hcurrent, hm⟩ := ha
  obtain ⟨next, hstep, hnext, hkept, hwritten⟩ := hm.step
  have hmodule : CompiledModule.step a.module.state a.current p.buffer.length a.scratch =
      (p.call.ending.map fun _ => next.live, e.wrap next) := by
    rw [hstate, hcurrent, hscratch, e.step, hstep]
    rfl
  unfold Active.play
  rw [hmodule]
  dsimp only
  cases hending : p.call.ending with
  | failed error =>
    exact ⟨⟨hscratch, next, rfl, hcurrent.trans (hkept (by rw [hending]; nofun)).symm, hnext⟩, rfl⟩
  | panicked =>
    exact ⟨⟨hscratch, next, rfl, hcurrent.trans (hkept (by rw [hending]; nofun)).symm, hnext⟩, rfl⟩
  | done result =>
    refine ⟨⟨hscratch, next, rfl, rfl, hnext⟩, ?_⟩
    have hfill : Session.fillChannel (CompiledModule.memory (e.wrap next)) a.scratch p.buffer.length =
        fun channel => .ok (p.next.heard channel) := by
      funext channel
      rw [e.memory, hscratch, ← p.length_next]
      exact fillChannel_eq (by rw [p.length_next]; exact hwritten hending) channel
    rw [if_pos rfl, hfill]
    exact congrArg Except.toOption List.mapM_pure

namespace Session

variable {s : Session α σ} {stream : τ} {size : Nat} {load : α → Except LoadError σ} {source : α}

-- A native module that is prepared has not called its stream yet.
theorem inTune_of_prepare {generation : Nat} {p : Prepared σ} {next : Session α σ}
    (hscratch : s.scratchBytes = size * sampleSize) (hload : load source = .ok (e.wrap (.new stream)))
    (h : s.prepare load generation source = (.ok p, next)) :
    p.activate.InTune e (.start stream size) := by
  unfold prepare at h
  rw [hload] at h
  dsimp only [note] at h
  rw [hscratch, e.alloc] at h
  by_cases hfits : NativeModule.guard + size * sampleSize < UInt32.size
  · obtain ⟨m, halloc, hm⟩ := NativeModule.alloc_new stream hfits
    rw [halloc] at h
    dsimp only [Prod.map, id] at h
    rw [e.entry] at h
    cases h
    exact ⟨rfl, m, rfl, rfl, hm⟩
  · rw [NativeModule.alloc_new_refused stream hfits] at h
    cases h

-- A load of a native stream that has been handled brings that module, if it brings one.
theorem inTune_of_handleNext {generation : Nat} {rest : List (Request α σ)} {next : Session α σ}
    (halive : s.processorAlive = true) (hscratch : s.scratchBytes = size * sampleSize)
    (hload : load source = .ok (e.wrap (.new stream)))
    (hitems : s.requests.items = .instantiate generation source :: rest)
    (h : s.handleNext load = some next) : ∀ p, .loaded p ∈ next.outcomes.items →
      .loaded p ∈ s.outcomes.items ∨ p.activate.InTune e (.start stream size) := by
  unfold handleNext at h
  rw [hitems] at h
  let t : Session α σ := { s with requests := { s.requests with items := rest } }
  obtain ⟨result, events, hprepare, -, -⟩ := prepare_cases load generation source t
  have hhandle : t.handle load (.instantiate generation source) = some next := h
  unfold handle at hhandle
  dsimp only at hhandle
  rw [hprepare] at hhandle
  let tried : Session α σ := { t with loads := t.loads + 1, trace := events ++ t.trace }
  have halive' : tried.processorAlive = true := halive
  intro p hp
  cases result with
  | ok made =>
    change tried.deliver (.loaded made) = some next at hhandle
    obtain ⟨outcomes, hpush, rfl⟩ := deliver_eq_some halive' hhandle
    rw [Queue.items_of_push? hpush, List.mem_append, List.mem_singleton] at hp
    rcases hp with hp | hp
    · exact .inl hp
    · cases hp
      exact .inr (inTune_of_prepare (s := t) hscratch hload hprepare)
  | error error =>
    change (tried.report ⟨generation, error⟩).deliver (.failed generation) = some next at hhandle
    obtain ⟨reports, hreport⟩ := tried.report_eq ⟨generation, error⟩
    rw [hreport] at hhandle
    obtain ⟨outcomes, hpush, rfl⟩ := deliver_eq_some (s := { tried with reports }) halive' hhandle
    rw [Queue.items_of_push? hpush, List.mem_append, List.mem_singleton] at hp
    exact hp.elim .inl nofun

end Session

namespace History

variable {h : History α σ} {id : Nat} {start : Playback τ}

/-- Wherever the module with this number is, it keeps to the playback of its stream, which has been called
once for each of its steps. -/
structure Tracks (h : History α σ) (e : Embedding τ σ) (id : Nat) (start : Playback τ) : Prop where
  quantum : h.session.quantum = start.buffer.length
  numbered : id ≤ h.session.loads
  tuned : ∀ a, h.session.Carries h.session.outcomes.items a → a.module.id = id →
    a.InTune e (start.after (h.session.steps.count id))

theorem Tracks.of_same (ht : h.Tracks e id start) {k : History α σ}
    (hquantum : k.session.quantum = h.session.quantum) (hloads : k.session.loads = h.session.loads)
    (hsteps : k.session.steps = h.session.steps) (houtcomes : k.session.outcomes = h.session.outcomes)
    (hprocessor : k.session.processor = h.session.processor) : k.Tracks e id start where
  quantum := hquantum.trans ht.quantum
  numbered := by rw [hloads]; exact ht.numbered
  tuned := by
    unfold Session.Carries
    rw [hsteps, houtcomes, hprocessor]
    exact ht.tuned

-- Messages that are taken on leave the module as it is.
theorem Sound.tuned_taken (hs : h.Sound h.session.outcomes.items) {p : Playback τ}
    (ht : ∀ a, h.session.Carries h.session.outcomes.items a → a.module.id = id → a.InTune e p) :
    ∀ a, h.taken.session.Carries [] a → a.module.id = id → a.InTune e p :=
  fun a ha => ht a (hs.carries_of_taken ha)

/-- A quantum of the module with this number is the next call of its stream. -/
structure Renders (h : History α σ) (e : Embedding τ σ) (id : Nat) (p : Playback τ)
    (channels : List (List Sample)) : Prop where
  /-- The step gets past all checks of the module, so that whatever fails is the stream. -/
  accepted : ∃ a, h.taken.session.processor.active = some a ∧ a.module.id = id ∧
    ∃ m : NativeModule τ, a.module.state = e.wrap m ∧ m.stream = p.stream ∧
      m.Accepts a.current h.session.quantum a.scratch
  heard : (h.session.process channels).1 =
    if p.call.ending = .done () then channels.map p.next.heard else Session.silence channels
  failed : (h.session.process channels).2.processor.stats.failed =
    h.session.processor.stats.failed + if p.call.ending = .done () then 0 else 1

-- A quantum that steps the module is the next call of its stream.
theorem Sound.renders (hs : h.Sound h.session.outcomes.items) (ht : h.Tracks e id start)
    (channels : List (List Sample)) {a : Active σ} (hid : a.module.id = id)
    (hactive : h.taken.session.processor.active = some a)
    (hprocess : h.session.process channels =
      ((a.play h.taken.session.quantum channels).1.getD (Session.silence channels),
        h.taken.session.acknowledge.afterPlaying a channels)) :
    h.Renders e id (start.after (h.session.steps.count id)) channels ∧
      ∃ next, (h.session.process channels).2.processor.active = some next ∧
        next.InTune e (start.after (h.session.steps.count id + 1)) := by
  obtain ⟨requests, outcomes, trace, processor, heq, hfailed⟩ := hs.taken_eq
  obtain ⟨acks, ackPending, hack⟩ := h.taken.session.acknowledge_eq
  let p := start.after (h.session.steps.count id)
  have hsize : h.session.quantum = p.buffer.length := by
    rw [ht.quantum, Playback.length_after]
  have hquantum : h.taken.session.quantum = h.session.quantum := by rw [heq]
  have hbefore : h.taken.session.processor.stats.failed = h.session.processor.stats.failed := by
    rw [heq]
    exact hfailed
  have htune : a.InTune e p := hs.tuned_taken ht.tuned a (.inr (.inl hactive)) hid
  obtain ⟨hnext, hheard⟩ := htune.play channels
  rw [← hsize] at hnext hheard
  have hafter : h.taken.session.acknowledge.quantum = h.session.quantum := by rw [hack, hquantum]
  have hsession : (h.session.process channels).2 =
      h.taken.session.acknowledge.afterPlaying a channels := congrArg Prod.snd hprocess
  refine ⟨{ accepted := ?_, heard := ?_, failed := ?_ }, _, ?_, hnext⟩
  · obtain ⟨hscratch, m, hstate, hcurrent, hm⟩ := htune
    refine ⟨a, hactive, hid, m, hstate, hm.stream, ?_⟩
    rw [hcurrent, hscratch, hsize]
    exact hm.accepts
  · rw [hprocess, hquantum]
    dsimp only
    rw [hheard]
    split <;> rfl
  · rw [hsession]
    unfold Session.afterPlaying
    dsimp only
    rw [hafter, hheard, hack]
    dsimp only
    rw [hbefore]
    split <;> rfl
  · rw [hsession]
    unfold Session.afterPlaying
    rw [hafter]

-- After a quantum that plays a module there is no other.
theorem Sound.active_of_carries (hs : h.Sound h.session.outcomes.items)
    {channels : List (List Sample)} {a b : Active σ}
    (hactive : h.taken.session.processor.active = some a)
    (hnext : (h.process channels).session = h.taken.session.acknowledge.afterPlaying a channels)
    (hb : (h.process channels).session.Carries (h.process channels).session.outcomes.items b) :
    (h.process channels).session.processor.active = some b ∧ b.module.id = a.module.id := by
  obtain ⟨acks, ackPending, hack⟩ := h.taken.session.acknowledge_eq
  rw [hack] at hnext
  have hparked : h.taken.session.processor.parked = none :=
    hs.taken.1.slot.exclusive.resolve_left (by rw [hactive]; nofun)
  rw [hnext] at hb ⊢
  rcases hb with ⟨p, hp, -⟩ | hb | hb
  · change .loaded p ∈ h.taken.session.outcomes.items at hp
    rw [hs.taken_outcomes] at hp
    cases hp
  · refine ⟨hb, ?_⟩
    cases hb
    exact a.play_id _ _
  · exact absurd (hparked.symm.trans hb) nofun

theorem Sound.tracks_process (hs : h.Sound h.session.outcomes.items) (ht : h.Tracks e id start)
    (channels : List (List Sample)) : (h.process channels).Tracks e id start ∧
      (id ∈ (h.process channels).session.stepsSince h.session →
        h.Renders e id (start.after (h.session.steps.count id)) channels) := by
  obtain ⟨requests, outcomes, trace, processor, heq, -⟩ := hs.taken_eq
  have hquantum : h.taken.session.quantum = start.buffer.length := by rw [heq]; exact ht.quantum
  have hnumbered : id ≤ h.taken.session.loads := by rw [heq]; exact ht.numbered
  cases hs.plays channels with
  | nothing hstate hprocess hsteps hdeeds =>
    have hnext : (h.process channels).session = h.taken.session.afterSilence :=
      congrArg Prod.snd hprocess
    have hsince : (h.process channels).session.stepsSince h.session = [] :=
      Session.stepsSince_of_append hsteps
    refine ⟨⟨by rw [hnext]; exact hquantum, by rw [hnext]; exact hnumbered, fun a ha hid => ?_⟩, ?_⟩
    · rw [hnext] at ha
      rw [hsteps]
      refine hs.tuned_taken ht.tuned a ?_ hid
      rw [← hs.taken_outcomes]
      exact ha
    · rw [hsince]
      nofun
  | module g a hstate hactive hlast hprocess hsteps hdeeds =>
    have hnext : (h.process channels).session = h.taken.session.acknowledge.afterPlaying a channels :=
      congrArg Prod.snd hprocess
    have hsince : (h.process channels).session.stepsSince h.session = [a.module.id] :=
      Session.stepsSince_of_append hsteps
    obtain ⟨acks, ackPending, hack⟩ := h.taken.session.acknowledge_eq
    have hafter := hnext
    rw [hack] at hafter
    refine ⟨⟨by rw [hafter]; exact hquantum, by rw [hafter]; exact hnumbered, fun b hb hid => ?_⟩, ?_⟩
    · obtain ⟨hb, hsame⟩ := hs.active_of_carries hactive hnext hb
      obtain ⟨-, played, hplayed, hintune⟩ :=
        hs.renders ht channels (hsame.symm.trans hid) hactive hprocess
      have hcount : (h.process channels).session.steps.count id = h.session.steps.count id + 1 := by
        rw [hsteps, hsame.symm.trans hid, List.count_cons_self]
      cases hb.symm.trans hplayed
      rw [hcount]
      exact hintune
    · rw [hsince]
      intro hmem
      exact (hs.renders ht channels (List.mem_singleton.mp hmem).symm hactive hprocess).1

-- The worker makes other modules only.
theorem Sound.tracks_handle (hs : h.Sound h.session.outcomes.items) (ht : h.Tracks e id start)
    {load : α → Except LoadError σ} {next : Session α σ} (hnext : h.session.handleNext load = some next) :
    (⟨next, h.deeds⟩ : History α σ).Tracks e id start := by
  have hsteps := Session.steps_handleNext hs.alive hnext
  cases Session.handled_of_handleNext hs.alive hnext with
  | nothing hitems hnext =>
    rw [hnext]
    exact ht
  | dropped m rest hitems hnext =>
    rw [hnext]
    exact ht.of_same rfl rfl rfl rfl rfl
  | tried generation source rest o outcomes reports events hitems hpush hgeneration hnext hevents
      hloaded =>
    subst hnext
    refine ⟨ht.quantum, Nat.le_succ_of_le ht.numbered, fun a ha hid => ?_⟩
    rw [hsteps]
    refine ht.tuned a ?_ hid
    rcases ha with ⟨p, hp, rfl⟩ | hheld
    · rw [Queue.items_of_push? hpush, List.mem_append, List.mem_singleton] at hp
      rcases hp with hp | hp
      · exact .inl ⟨p, hp, rfl⟩
      · -- the new module has a number that no module had
        have hnew : p.module.id = h.session.loads + 1 := (hloaded p hp.symm).1
        have hold := ht.numbered
        have hid : p.module.id = id := hid
        omega
    · exact .inr hheld

theorem Sound.tracks_move (hs : h.Sound h.session.outcomes.items) (ht : h.Tracks e id start)
    {move : Move α σ} (halive : (h.move move).session.processorAlive = true) :
    (h.move move).Tracks e id start := by
  obtain ⟨-, ⟨turn, -, -, hturn⟩ | ⟨controllerAlive, workerAlive, hgone⟩⟩ := move_cases halive
  · rw [hturn]
    rcases h.turn_cases turn with ⟨channels, rfl⟩ | ⟨load, next, rfl, hnext, heq⟩ |
      ⟨sent, control, acks, reports, heq⟩
    · exact (hs.tracks_process ht channels).1
    · rw [heq]
      exact hs.tracks_handle ht hnext
    · rw [heq]
      exact ht.of_same rfl rfl rfl rfl rfl
  · rw [hgone]
    exact ht.of_same rfl rfl rfl rfl rfl

/-- The sizes of a session stay, and only modules that were made are stepped. -/
structure Regular (h : History α σ) (size : Nat) : Prop where
  quantum : h.session.quantum = size
  scratchBytes : h.session.scratchBytes = size * sampleSize
  stepped : ∀ id ∈ h.session.steps, id ≤ h.session.loads

omit [CompiledModule σ] in
theorem regular_link {config : Config} {s : Session α σ} (hlink : Session.link? config = some s) :
    (⟨s, []⟩ : History α σ).Regular config.quantumSize.toNat := by
  unfold Session.link? at hlink
  split at hlink
  · rename_i hsize
    unfold Config.scratchBytes? at hsize
    dsimp only at hsize
    split at hsize
    · cases hsize
      cases hlink
      exact ⟨rfl, rfl, nofun⟩
    · cases hsize
  · cases hlink

theorem Sound.regular_process (hs : h.Sound h.session.outcomes.items) {size : Nat}
    (hr : h.Regular size) (channels : List (List Sample)) : (h.process channels).Regular size := by
  obtain ⟨requests, outcomes, trace, processor, heq, -⟩ := hs.taken_eq
  have hquantum : h.taken.session.quantum = size := by rw [heq]; exact hr.quantum
  have hscratch : h.taken.session.scratchBytes = size * sampleSize := by rw [heq]; exact hr.scratchBytes
  have hloads : h.taken.session.loads = h.session.loads := by rw [heq]
  cases hs.plays channels with
  | nothing hstate hprocess hsteps hdeeds =>
    have hnext : (h.process channels).session = h.taken.session.afterSilence :=
      congrArg Prod.snd hprocess
    refine ⟨by rw [hnext]; exact hquantum, by rw [hnext]; exact hscratch, fun id hid => ?_⟩
    rw [hsteps] at hid
    rw [hnext]
    exact Nat.le_trans (hr.stepped id hid) (Nat.le_of_eq hloads.symm)
  | module g a hstate hactive hlast hprocess hsteps hdeeds =>
    have hnext : (h.process channels).session = h.taken.session.acknowledge.afterPlaying a channels :=
      congrArg Prod.snd hprocess
    obtain ⟨acks, ackPending, hack⟩ := h.taken.session.acknowledge_eq
    rw [hack] at hnext
    refine ⟨by rw [hnext]; exact hquantum, by rw [hnext]; exact hscratch, fun id hid => ?_⟩
    rw [hsteps] at hid
    rw [hnext]
    change id ≤ h.taken.session.loads
    rcases List.mem_cons.mp hid with rfl | hid
    · have harrived := hs.taken.1.arrived_of_holds ⟨a, .inl hactive, rfl⟩
      exact hs.taken.1.old _ (List.mem_append_right _ harrived)
    · exact Nat.le_trans (hr.stepped id hid) (Nat.le_of_eq hloads.symm)

theorem Sound.regular_move (hs : h.Sound h.session.outcomes.items) {size : Nat}
    (hr : h.Regular size) {move : Move α σ} (halive : (h.move move).session.processorAlive = true) :
    (h.move move).Regular size := by
  obtain ⟨-, ⟨turn, -, -, hturn⟩ | ⟨controllerAlive, workerAlive, hgone⟩⟩ := move_cases halive
  · rw [hturn]
    rcases h.turn_cases turn with ⟨channels, rfl⟩ | ⟨load, next, rfl, hnext, heq⟩ |
      ⟨sent, control, acks, reports, heq⟩
    · exact hs.regular_process hr channels
    · have hsteps := Session.steps_handleNext hs.alive hnext
      rw [heq]
      cases Session.handled_of_handleNext hs.alive hnext with
      | nothing hitems hnext =>
        rw [hnext]
        exact hr
      | dropped m rest hitems hnext =>
        subst hnext
        exact ⟨hr.quantum, hr.scratchBytes, hr.stepped⟩
      | tried generation source rest o outcomes reports events hitems hpush hgeneration hnext =>
        subst hnext
        refine ⟨hr.quantum, hr.scratchBytes, fun id hid => ?_⟩
        rw [hsteps] at hid
        exact Nat.le_succ_of_le (hr.stepped id hid)
    · rw [heq]
      exact ⟨hr.quantum, hr.scratchBytes, hr.stepped⟩
  · rw [hgone]
    exact ⟨hr.quantum, hr.scratchBytes, hr.stepped⟩

-- A native module that is made has the next number, and is at the start of its playback.
theorem Sound.tracks_made (hs : h.Sound h.session.outcomes.items) {size : Nat} (hr : h.Regular size)
    {stream : τ} {load : α → Except LoadError σ} {generation : Nat} {source : α}
    {rest : List (Request α σ)} {next : Session α σ}
    (hload : load source = .ok (e.wrap (.new stream)))
    (hitems : h.session.requests.items = .instantiate generation source :: rest)
    (hnext : h.session.handleNext load = some next) :
    (⟨next, h.deeds⟩ : History α σ).Tracks e (h.session.loads + 1) (.start stream size) := by
  have hmade := Session.inTune_of_handleNext hs.alive hr.scratchBytes hload hitems hnext
  have hsteps := Session.steps_handleNext hs.alive hnext
  have hnone : next.steps.count (h.session.loads + 1) = 0 := by
    rw [hsteps, List.count_eq_zero]
    exact fun hmem => Nat.not_succ_le_self _ (hr.stepped _ hmem)
  -- modules that were there before have smaller numbers
  have hheld (a : Active σ)
      (ha : h.session.processor.active = some a ∨ h.session.processor.parked = some a) :
      a.module.id ≤ h.session.loads :=
    hs.old _ (List.mem_append_right _ (hs.arrived_of_holds ⟨a, ha, rfl⟩))
  have hwaits (p : Prepared σ) (hp : .loaded p ∈ h.session.outcomes.items) :
      p.module.id ≤ h.session.loads :=
    hs.old _ (List.mem_append_left _ (List.mem_filterMap.mpr ⟨_, hp, rfl⟩))
  cases Session.handled_of_handleNext hs.alive hnext with
  | nothing hnothing =>
    rw [hnothing] at hitems
    cases hitems
  | dropped m rest' hdropped =>
    rw [hdropped] at hitems
    cases hitems
  | tried generation' source' rest' o outcomes reports events hitems' hpush hgeneration hnext' =>
    have hprocessor : next.processor = h.session.processor := by rw [hnext']
    refine ⟨?_, Nat.le_of_eq (by rw [hnext']), fun a ha hid => ?_⟩
    · rw [hnext', Playback.start, List.length_replicate]
      exact hr.quantum
    · change a.InTune e ((Playback.start stream size).after (next.steps.count (h.session.loads + 1)))
      rw [hnone]
      rcases ha with ⟨p, hp, rfl⟩ | ha
      · rcases hmade p hp with hold | hnew
        · have hle := hwaits p hold
          have hid : p.module.id = h.session.loads + 1 := hid
          omega
        · exact hnew
      · dsimp only at ha
        rw [hprocessor] at ha
        have hle := hheld a ha
        omega

/-- Whatever happens in a session before and after it loads a native stream, as long as the processor is
there: every quantum that steps the module is the next call of the stream on its one buffer, and is heard
as that call left the buffer, or is silent and counts as failed if the call did not succeed. -/
theorem native_playback {config : Config} {s : Session α σ} (hlink : Session.link? config = some s)
    (e : Embedding τ σ) (stream : τ) (before later : List (Move α σ)) {load : α → Except LoadError σ}
    {generation : Nat} {source : α} {rest : List (Request α σ)}
    (hload : load source = .ok (e.wrap (.new stream)))
    (hrequest : (History.through ⟨s, []⟩ before).session.requests.items =
      .instantiate generation source :: rest)
    (hworker : (History.through ⟨s, []⟩ before).session.workerAlive = true)
    (halive : (History.through ⟨s, []⟩
      (before ++ .turn (.handle load) :: later)).session.processorAlive = true)
    (channels : List (List Sample)) :
    let id := (History.through ⟨s, []⟩ before).session.loads + 1
    let h := History.through ⟨s, []⟩ (before ++ .turn (.handle load) :: later)
    id ∈ (h.process channels).session.stepsSince h.session →
      h.Renders e id ((Playback.start stream config.quantumSize.toNat).after
        (h.session.steps.count id)) channels := by
  intro id h
  have hthrough : h = ((History.through ⟨s, []⟩ before).move (.turn (.handle load))).through later :=
    through_append _ _ _
  change h.session.processorAlive = true at halive
  rw [hthrough] at halive ⊢
  have hmade : ((History.through ⟨s, []⟩ before).move
      (.turn (.handle load))).session.processorAlive = true := processorAlive_of_through halive
  have hthere := (move_cases hmade).1
  -- what holds before the module is made
  have hbefore : (History.through ⟨s, []⟩ before).Sound
        (History.through ⟨s, []⟩ before).session.outcomes.items ∧
      (History.through ⟨s, []⟩ before).Regular config.quantumSize.toNat :=
    through_induction (P := fun k => k.Sound k.session.outcomes.items ∧ k.Regular _)
      ⟨Sound.link hlink, regular_link hlink⟩
      (fun k move hk halive => ⟨hk.1.move halive, hk.1.regular_move hk.2 halive⟩) before hthere
  obtain ⟨hs, hr⟩ := hbefore
  -- the worker has room for the outcome
  obtain ⟨next, hnext⟩ := Option.isSome_iff_exists.mp (handles_through hlink before load)
  have hmove : (History.through ⟨s, []⟩ before).move (.turn (.handle load)) =
      ⟨next, (History.through ⟨s, []⟩ before).deeds⟩ := by
    rw [move, if_pos (by exact hworker)]
    change (⟨((History.through ⟨s, []⟩ before).session.handleNext load).getD _, _⟩ : History α σ) = _
    rw [hnext]
    rfl
  have hstart := hs.tracks_made hr hload hrequest hnext
  rw [← hmove] at hstart
  -- and what holds ever after
  obtain ⟨hlater, htracks⟩ := through_induction
    (P := fun k => k.Sound k.session.outcomes.items ∧
      k.Tracks e id (.start stream config.quantumSize.toNat))
    ⟨hs.move hmade, hstart⟩
    (fun k move hk halive => ⟨hk.1.move halive, hk.1.tracks_move hk.2 halive⟩) later halive
  exact (hlater.tracks_process htracks channels).2

/-- The second call of the stream fails; then a load that fails parks the module. The quantum that takes note
of this restores the module and is the third call, which finds the buffer as the second left it. -/
theorem native_playback_restored :
    let script : Script := ⟨[⟨some ⟨1⟩, [], .done ()⟩, ⟨none, [⟨2⟩], .failed (.step "out of breath")⟩,
      ⟨none, [], .done ()⟩]⟩
    let load : Bool → Except LoadError AnyModule := fun plays =>
      if plays then .ok (.script (.new script)) else .error (.malformed "empty")
    let config : Config := {
      quantumSize := 2, controlCapacity := 2, loaderCapacity := 2, eventCapacity := 1 }
    let s : Session Bool AnyModule := {
      quantum := 2, scratchBytes := 8, control := .empty 2, requests := .empty 2, outcomes := .empty 2
      acks := .empty 1, reports := .empty 1 }
    let before : List (Move Bool AnyModule) := [.turn (.load true), .turn (.process [])]
    let later : List (Move Bool AnyModule) := [.turn (.process []), .turn (.process []),
      .turn (.load false), .turn (.process []), .turn (.handle load)]
    let id := (History.through ⟨s, []⟩ before).session.loads + 1
    let h := History.through ⟨s, []⟩ (before ++ .turn (.handle load) :: later)
    let channels : List (List Sample) := [[.zero], [.zero, .zero, ⟨7⟩]]
    Session.link? config = some s ∧
    h.Renders AnyModule.scripts id ((Playback.start script 2).after (h.session.steps.count id))
      channels ∧
    id = 1 ∧ h.session.steps.count id = 2 ∧
    h.session.processor.parked.map (·.module.id) = some 1 ∧
    (h.session.process channels).1 = [[⟨2⟩], [⟨2⟩, ⟨1⟩, .zero]] := by
  intro script load config s before later id h channels
  have hlink : Session.link? config = some s := rfl
  have hload : load true = .ok (AnyModule.scripts.wrap (.new script)) := rfl
  have hrequest : (History.through ⟨s, []⟩ before).session.requests.items = [.instantiate 1 true] := rfl
  have hrenders := native_playback hlink AnyModule.scripts script before later hload hrequest
    (by decide +kernel) (by decide +kernel) channels
  exact ⟨hlink, hrenders (by decide +kernel), by decide +kernel, by decide +kernel, by decide +kernel,
    by decide +kernel⟩

end History

end SampleStream
