import SampleStream.Proofs.Session.Sound

/-!
# Turns of a session

Every turn keeps a history sound, so that all histories that start with a new session are. A quantum in
which a module is ready plays the one adopted last, once; any other quantum plays none (`Sound.plays`).
-/

namespace SampleStream

universe u v

variable {α : Type v} {σ : Type u}

theorem Session.stepsSince_of_append {s t : Session α σ} {ids : List Nat}
    (hsteps : t.steps = ids ++ s.steps) : t.stepsSince s = ids := by
  unfold stepsSince
  rw [hsteps, List.length_append, Nat.add_sub_cancel, List.take_left]

namespace History

/-- What a quantum does with modules. -/
inductive Quantum (h next : History α σ) : Prop
  | silent (hsteps : next.session.stepsSince h.session = []) (hdeeds : next.deeds = h.taken.deeds)
  | stepped (g id : Nat) (hsteps : next.session.stepsSince h.session = [id])
    (hdeeds : next.deeds = .stepped g id :: h.taken.deeds)
    (hlast : Deed.lastAdopted? next.deeds = some (g, id))
    (hholds : next.session.processor.Holds id) (hstate : next.session.processor.state = .ready)

/-- What a quantum does in the end, when all that has arrived is taken on. -/
inductive Plays [CompiledModule σ] (h : History α σ) (channels : List (List Sample)) : Prop
  | module (g : Nat) (a : Active σ) (hstate : h.taken.session.processor.state = .ready)
    (hactive : h.taken.session.processor.active = some a)
    (hlast : Deed.lastAdopted? h.taken.deeds = some (g, a.module.id))
    (hprocess : h.session.process channels =
      ((a.play h.taken.session.quantum channels).1.getD (Session.silence channels),
        h.taken.session.acknowledge.afterPlaying a channels))
    (hsteps : (h.process channels).session.steps = a.module.id :: h.session.steps)
    (hdeeds : (h.process channels).deeds = .stepped g a.module.id :: h.taken.deeds)
  | nothing (hstate : h.taken.session.processor.state ≠ .ready)
    (hprocess : h.session.process channels =
      (Session.silence channels, h.taken.session.afterSilence))
    (hsteps : (h.process channels).session.steps = h.session.steps)
    (hdeeds : (h.process channels).deeds = h.taken.deeds)

namespace Sound

variable {h : History α σ}

theorem taken (hs : h.Sound h.session.outcomes.items) :
    h.taken.Sound h.taken.session.outcomes.items ∧ h.taken.session.steps = h.session.steps ∧
      ∀ id, h.session.Gone id → h.taken.session.Gone id := by
  have hcounted : (⟨h.session.counted, h.deeds⟩ : History α σ).Sound h.session.outcomes.items :=
    hs.of_same_modules (hs.slot.congr rfl rfl rfl rfl) rfl rfl (fun _ => Iff.rfl) (fun _ hid => hid) rfl
      fun _ _ hid => hid
  exact hcounted.drain

-- A new session has no modules.
theorem link {config : Config} {s : Session α σ} (hlink : Session.link? config = some s) :
    (⟨s, []⟩ : History α σ).Sound s.outcomes.items := by
  unfold Session.link? at hlink
  split at hlink
  · cases hlink
    exact {
      slot := {
        ready_iff := by simp
        parked := nofun
        holds := by rintro id ⟨a, ha | ha, -⟩ <;> cases ha
        latest := .inl ⟨rfl, rfl⟩
        settled := fun _ => .inl rfl
        bound := nofun
        order := .nil
        below := nofun }
      alive := rfl
      fresh := .nil
      old := nofun
      gone := by rintro id (⟨m, hm, -⟩ | hid) <;> contradiction
      discarded := nofun }
  · cases hlink

-- A load that gives no module only uses a number up.
theorem tried_failed {generation : Nat} {t : Session α σ} (hs : h.Sound h.session.outcomes.items)
    (hprocessor : t.processor = h.session.processor)
    (halive : t.processorAlive = h.session.processorAlive) (hloads : t.loads = h.session.loads + 1)
    (houtcomes : t.outcomes.items = h.session.outcomes.items ++ [.failed generation])
    (hkept : ∀ id, h.session.Gone id → t.Gone id)
    (hgone : ∀ id, t.Gone id → h.session.Gone id ∨ id = h.session.loads + 1) :
    (⟨t, h.deeds⟩ : History α σ).Sound t.outcomes.items := by
  have hnew : h.session.loads + 1 ∉
      LoadOutcome.arriving h.session.outcomes.items ++ Deed.arrived h.deeds := fun hmem =>
    Nat.not_succ_le_self _ (hs.old _ hmem)
  rw [houtcomes]
  exact {
    slot := by rw [hprocessor]; exact hs.slot
    alive := halive.trans hs.alive
    fresh := by
      rw [LoadOutcome.arriving_append_failed]
      exact hs.fresh
    old := fun id hid => by
      rw [LoadOutcome.arriving_append_failed] at hid
      rw [hloads]
      exact Nat.le_succ_of_le (hs.old id hid)
    gone := fun id hid => by
      rw [LoadOutcome.arriving_append_failed, hloads, hprocessor]
      rcases hgone id hid with hid | rfl
      · obtain ⟨hle, hmem, hholds⟩ := hs.gone id hid
        exact ⟨Nat.le_succ_of_le hle, hmem, hholds⟩
      · exact ⟨Nat.le_refl _, fun hmem => hnew (List.mem_append_left _ hmem),
          fun hholds => hnew (List.mem_append_right _ (hs.arrived_of_holds hholds))⟩
    discarded := fun g id hid => hkept id (hs.discarded g id hid) }

-- The module of a load has a number that no other module has, and waits.
theorem tried_loaded {p : Prepared σ} {t : Session α σ} (hs : h.Sound h.session.outcomes.items)
    (hprocessor : t.processor = h.session.processor)
    (halive : t.processorAlive = h.session.processorAlive) (hloads : t.loads = h.session.loads + 1)
    (houtcomes : t.outcomes.items = h.session.outcomes.items ++ [.loaded p])
    (hid : p.module.id = h.session.loads + 1) (hgone : ∀ id, t.Gone id ↔ h.session.Gone id) :
    (⟨t, h.deeds⟩ : History α σ).Sound t.outcomes.items := by
  have hnew : p.module.id ∉
      LoadOutcome.arriving h.session.outcomes.items ++ Deed.arrived h.deeds := fun hmem => by
    have hle := hs.old _ hmem
    omega
  rw [houtcomes]
  exact {
    slot := by rw [hprocessor]; exact hs.slot
    alive := halive.trans hs.alive
    fresh := by
      rw [LoadOutcome.arriving_append_loaded, List.append_assoc, List.singleton_append,
        List.perm_middle.nodup_iff]
      exact List.nodup_cons.mpr ⟨hnew, hs.fresh⟩
    old := fun id hmem => by
      rw [LoadOutcome.arriving_append_loaded, List.append_assoc, List.singleton_append,
        List.perm_middle.mem_iff] at hmem
      rw [hloads]
      rcases List.mem_cons.mp hmem with rfl | hmem
      · exact Nat.le_of_eq hid
      · exact Nat.le_succ_of_le (hs.old id hmem)
    gone := fun id hgoneid => by
      obtain ⟨hle, hmem, hholds⟩ := hs.gone id ((hgone id).mp hgoneid)
      rw [LoadOutcome.arriving_append_loaded, hloads, hprocessor, List.mem_append,
        List.mem_singleton]
      refine ⟨Nat.le_succ_of_le hle, ?_, hholds⟩
      rintro (hin | rfl)
      · exact hmem hin
      · omega
    discarded := fun g id hid => (hgone id).mpr (hs.discarded g id hid) }

-- Nothing that the controller does concerns modules.
theorem of_controller (hs : h.Sound h.session.outcomes.items) {t : Session α σ}
    (ht : ∃ acks control sent reports, t = { h.session with acks, control, sent, reports }) :
    (⟨t, h.deeds⟩ : History α σ).Sound t.outcomes.items ∧ ∀ id, h.session.Gone id → t.Gone id := by
  obtain ⟨acks, control, sent, reports, rfl⟩ := ht
  exact ⟨⟨hs.slot, hs.alive, hs.fresh, hs.old, hs.gone, hs.discarded⟩, fun _ hid => hid⟩

section Modules

variable [CompiledModule σ]

theorem plays (hs : h.Sound h.session.outcomes.items)
    (channels : List (List Sample)) : h.Plays channels := by
  obtain ⟨htaken, hbefore, -⟩ := hs.taken
  have hsession : h.taken.session = h.session.counted.drain := drain_session _
  have hdeeds : (h.process channels).deeds =
      (((h.process channels).session.stepsSince h.session).filterMap fun id =>
        (Deed.generationOf? h.taken.deeds id).map (.stepped · id)) ++ h.taken.deeds := rfl
  by_cases hstate : h.taken.session.processor.state = .ready
  · obtain ⟨a, hactive⟩ := Option.isSome_iff_exists.mp (htaken.slot.ready_iff.mp hstate)
    obtain ⟨g, hlast⟩ := htaken.slot.holds a.module.id ⟨a, .inl hactive, rfl⟩
    have hprocess := Session.process_eq_afterPlaying (s := h.session) (a := a)
      (by rw [← hsession]; exact hstate) (by rw [← hsession]; exact hactive) channels
    rw [← hsession] at hprocess
    have hsteps : (h.process channels).session.steps = a.module.id :: h.session.steps := by
      change (h.session.process channels).2.steps = _
      obtain ⟨acks, ackPending, hack⟩ := h.taken.session.acknowledge_eq
      rw [hprocess, hack, ← hbefore]
      rfl
    have hsince : (h.process channels).session.stepsSince h.session = [a.module.id] :=
      Session.stepsSince_of_append hsteps
    refine .module g a hstate hactive hlast hprocess hsteps ?_
    rw [hdeeds, hsince, List.filterMap_cons, Deed.generationOf_of_last hlast]
    rfl
  · have hprocess := Session.process_eq_afterSilence (s := h.session)
      (by rw [← hsession]; exact hstate) channels
    rw [← hsession] at hprocess
    have hsteps : (h.process channels).session.steps = h.session.steps := by
      change (h.session.process channels).2.steps = _
      rw [hprocess]
      exact hbefore
    have hsince : (h.process channels).session.stepsSince h.session = [] :=
      Session.stepsSince_of_append hsteps
    refine .nothing hstate hprocess hsteps ?_
    rw [hdeeds, hsince]
    rfl

-- After all that has arrived is taken on, a quantum acknowledges, steps the active module at most, and
-- counts; which module that is and what is queued for the worker stays as it is.
theorem process_eq (hs : h.Sound h.session.outcomes.items) (channels : List (List Sample)) :
    ∃ acks trace active ackPending stats, (h.process channels).session = { h.taken.session with
        acks, trace, processor := { h.taken.session.processor with active, ackPending, stats } } ∧
      active.map (·.module.id) = h.taken.session.processor.active.map (·.module.id) ∧
      stats.droppedLoads = h.taken.session.processor.stats.droppedLoads := by
  have hsession : (h.process channels).session = (h.session.process channels).2 := rfl
  rw [hsession]
  cases hs.plays channels with
  | module g a hstate hactive hlast hprocess hsteps hdeeds =>
    obtain ⟨acks, ackPending, hack⟩ := h.taken.session.acknowledge_eq
    rw [hprocess, hack]
    exact ⟨_, _, _, _, _, rfl, by rw [hactive]; exact congrArg some (a.play_id _ _), rfl⟩
  | nothing hstate hprocess hsteps hdeeds =>
    rw [hprocess]
    exact ⟨_, _, _, _, _, rfl, rfl, rfl⟩

-- Nothing else is decided then.
theorem process_deeds (hs : h.Sound h.session.outcomes.items) (channels : List (List Sample)) :
    (h.process channels).deeds = h.taken.deeds ∨
      ∃ g id, (h.process channels).deeds = .stepped g id :: h.taken.deeds := by
  cases hs.plays channels with
  | module g a hstate hactive hlast hprocess hsteps hdeeds => exact .inr ⟨g, a.module.id, hdeeds⟩
  | nothing hstate hprocess hsteps hdeeds => exact .inl hdeeds

-- A step adds only itself to the trace, and the module in the slot is the same after it.
theorem afterPlaying {waiting : List (LoadOutcome σ)} (hs : h.Sound waiting) {g : Nat} {a : Active σ}
    (hactive : h.session.processor.active = some a)
    (hlast : Deed.lastAdopted? h.deeds = some (g, a.module.id)) (channels : List (List Sample)) :
    (⟨h.session.afterPlaying a channels, .stepped g a.module.id :: h.deeds⟩ :
      History α σ).Sound waiting ∧
    ∀ id, (h.session.afterPlaying a channels).Gone id ↔ h.session.Gone id := by
  have hid := a.play_id h.session.quantum channels
  have hsame := Session.gone_stepped (s := h.session) (t := h.session.afterPlaying a channels) rfl rfl
  have hslot : Slot (h.session.afterPlaying a channels).processor h.deeds :=
    hs.slot.congr rfl (by rw [hactive]; exact congrArg some hid) rfl rfl
  refine ⟨hs.of_same_modules (hslot.stepped hlast) rfl rfl hsame ?_ rfl ?_, hsame⟩
  · rintro id ⟨b, hb | hb, rfl⟩
    · cases hb
      exact ⟨a, .inl hactive, hid.symm⟩
    · exact ⟨b, .inr hb, rfl⟩
  · intro g' id hmem
    exact (List.mem_cons.mp hmem).resolve_left nofun

-- A quantum keeps the history sound, and steps the module adopted last or none.
theorem process (hs : h.Sound h.session.outcomes.items) (channels : List (List Sample)) :
    (h.process channels).Sound (h.process channels).session.outcomes.items ∧
      (∀ id, h.session.Gone id → (h.process channels).session.Gone id) ∧
      h.Quantum (h.process channels) := by
  obtain ⟨htaken, -, hgone⟩ := hs.taken
  cases hs.plays channels with
  | nothing hstate hprocess hsteps hdeeds =>
    have hsession : (h.process channels).session = h.taken.session.afterSilence :=
      congrArg Prod.snd hprocess
    have hnext : h.process channels = ⟨h.taken.session.afterSilence, h.taken.deeds⟩ := by
      rw [← hsession, ← hdeeds]
    rw [hnext] at hsteps ⊢
    refine ⟨?_, hgone, .silent (Session.stepsSince_of_append hsteps) rfl⟩
    exact htaken.of_same_modules (htaken.slot.congr rfl rfl rfl rfl) rfl rfl (fun _ => Iff.rfl)
      (fun _ hid => hid) rfl fun _ _ hid => hid
  | module g a hstate hactive hlast hprocess hsteps hdeeds =>
    have hsession : (h.process channels).session =
        h.taken.session.acknowledge.afterPlaying a channels := congrArg Prod.snd hprocess
    obtain ⟨acks, ackPending, hack⟩ := h.taken.session.acknowledge_eq
    rw [hack] at hsession
    let told : Session α σ := { h.taken.session with
      acks, processor := { h.taken.session.processor with ackPending } }
    have hnext : h.process channels =
        ⟨told.afterPlaying a channels, .stepped g a.module.id :: h.taken.deeds⟩ := by
      rw [← hsession, ← hdeeds]
    have hsince : (h.process channels).session.stepsSince h.session = [a.module.id] :=
      Session.stepsSince_of_append hsteps
    rw [hnext] at hsince ⊢
    -- acknowledging concerns no module
    have htold : (⟨told, h.taken.deeds⟩ : History α σ).Sound h.taken.session.outcomes.items :=
      htaken.of_same_modules (htaken.slot.congr rfl rfl rfl rfl) rfl rfl (fun _ => Iff.rfl)
        (fun _ hid => hid) rfl fun _ _ hid => hid
    obtain ⟨hplayed, hsame⟩ := htold.afterPlaying hactive hlast channels
    refine ⟨hplayed, fun id hid => (hsame id).mpr (hgone id hid), ?_⟩
    exact .stepped g a.module.id hsince rfl hlast ⟨_, .inl rfl, a.play_id _ _⟩ hstate

-- The worker drops a module that was given up, or makes one with a new number.
theorem handle {load : α → Except LoadError σ} {next : Session α σ}
    (hs : h.Sound h.session.outcomes.items) (hnext : h.session.handleNext load = some next) :
    (⟨next, h.deeds⟩ : History α σ).Sound next.outcomes.items ∧
      ∀ id, h.session.Gone id → next.Gone id := by
  cases Session.handled_of_handleNext hs.alive hnext with
  | nothing hitems hnext =>
    rw [hnext]
    exact ⟨hs, fun _ hid => hid⟩
  | dropped m rest hitems hnext =>
    subst hnext
    have hsame := Session.gone_retired hitems
      (t := ({ h.session with requests := { h.session.requests with items := rest } } :
        Session α σ).dropModule m) rfl rfl
    exact ⟨hs.of_same_modules hs.slot rfl rfl hsame (fun _ hid => hid) rfl fun _ _ hid => hid,
      fun id => (hsame id).mpr⟩
  | tried generation source rest o outcomes reports events hitems hpush hgeneration hnext hevents
      hloaded =>
    subst hnext
    have houtcomes := Queue.items_of_push? hpush
    have hgone := Session.gone_tried hitems
      (t := { h.session with
        requests := { h.session.requests with items := rest }, outcomes, reports
        loads := h.session.loads + 1, trace := events ++ h.session.trace }) rfl rfl
    have hkept (id : Nat) (hid : h.session.Gone id) := (hgone id).mpr (.inl hid)
    refine ⟨?_, hkept⟩
    cases o with
    | failed =>
      refine hs.tried_failed rfl rfl rfl houtcomes hkept fun id hid => ?_
      rcases (hgone id).mp hid with hid | hid
      · exact .inl hid
      · exact .inr (hevents _ hid).1
    | loaded p =>
      obtain ⟨hid, hdropped⟩ := hloaded p rfl
      refine hs.tried_loaded rfl rfl rfl houtcomes hid fun id => ?_
      rw [hgone id, or_iff_left (hdropped id)]

theorem turn (hs : h.Sound h.session.outcomes.items) (turn : Turn α σ) :
    (h.turn turn).Sound (h.turn turn).session.outcomes.items ∧
      ∀ id, h.session.Gone id → (h.turn turn).session.Gone id := by
  cases turn with
  | load source =>
    obtain ⟨acks, control, sent, heq⟩ := h.session.load_eq source
    exact hs.of_controller ⟨acks, control, sent, h.session.reports, heq⟩
  | process channels =>
    obtain ⟨hnext, hgone, -⟩ := hs.process channels
    exact ⟨hnext, hgone⟩
  | handle load =>
    change Sound ⟨(h.session.handleNext load).getD h.session, h.deeds⟩
      ((h.session.handleNext load).getD h.session).outcomes.items ∧
      ∀ id, h.session.Gone id → ((h.session.handleNext load).getD h.session).Gone id
    cases hnext : h.session.handleNext load with
    | some next => exact hs.handle hnext
    | none => exact ⟨hs, fun _ hid => hid⟩
  | tryReady =>
    obtain ⟨acks, reports, heq, -⟩ := h.session.tryReady_eq
    exact hs.of_controller ⟨acks, h.session.control, h.session.sent, reports, heq⟩
  | waitReady ackFirst microseconds =>
    obtain ⟨acks, reports, heq, -⟩ := h.session.waitReadyFor_eq ackFirst microseconds _
    exact hs.of_controller ⟨acks, h.session.control, h.session.sent, reports, heq⟩

theorem after (hs : h.Sound h.session.outcomes.items) (turns : List (Turn α σ)) :
    (h.after turns).Sound (h.after turns).session.outcomes.items ∧
      ∀ id, h.session.Gone id → (h.after turns).session.Gone id := by
  induction turns generalizing h with
  | nil => exact ⟨hs, fun _ hid => hid⟩
  | cons turn turns ih =>
    obtain ⟨hturn, hgone⟩ := hs.turn turn
    obtain ⟨hafter, hrest⟩ := ih hturn
    exact ⟨hafter, fun id hid => hrest id (hgone id hid)⟩

end Modules

end Sound

end History

end SampleStream
