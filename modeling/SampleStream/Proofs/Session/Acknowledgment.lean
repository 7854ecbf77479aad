import SampleStream.Proofs.Session.Underway

/-!
# Acknowledgments

An acknowledgment carries no number. It answers for the latest load all the same: an adoption is
acknowledged in the quantum in which it happens, what is unread is thrown away when a load is sent, and no
older module is adopted once that load has been taken on. `Answering` is the invariant behind it.
-/

namespace SampleStream

universe u v

variable {α : Type v} {σ : Type u}

namespace Deed

/-- The loads whose modules were adopted, the last first. -/
def adoptions (deeds : List Deed) : List Nat :=
  deeds.filterMap fun
    | .adopted generation _ => some generation
    | _ => none

theorem head?_adoptions (deeds : List Deed) :
    (adoptions deeds).head? = (lastAdopted? deeds).map Prod.fst := by
  induction deeds with
  | nil => rfl
  | cons deed deeds ih =>
    cases deed with
    | adopted => rfl
    | _ => exact ih

end Deed

namespace Session

variable {s : Session α σ}

-- What is to be acknowledged is, when nothing is unread, unless nobody is there to see it.
theorem acknowledge_pending (hpending : s.processor.ackPending = true) (hnone : s.acks.items = [])
    (hroom : 0 < s.acks.capacity) : s.acknowledge = { s with
      acks := if s.controllerAlive then { s.acks with items := [()] } else s.acks
      processor := { s.processor with ackPending := false } } := by
  have hpush : s.acks.push? () = some { s.acks with items := [()] } := by
    unfold Queue.push? Queue.isFull
    rw [hnone, if_neg (by simpa using Nat.ne_of_gt hroom)]
    rfl
  unfold acknowledge
  rw [if_pos hpending, hpush]
  dsimp only
  split <;> rfl

theorem acknowledge_settled (hsettled : s.processor.ackPending = false) : s.acknowledge = s :=
  if_neg (Bool.eq_false_iff.mp hsettled)

-- Readiness is told by an acknowledgment only.
theorem unread_of_takeAck {β : Type} {present : β} {absent : Except ProtocolError β} {b : β}
    (h : (s.takeAck present absent).1 = .ok b) (habsent : absent ≠ .ok b) : s.acks.items ≠ [] := by
  intro hnone
  unfold takeAck at h
  rw [hnone] at h
  dsimp only at h
  split at h
  · exact habsent h
  · cases h

theorem unread_of_tryReady (h : s.tryReady.1 = .ok true) : s.acks.items ≠ [] := by
  unfold tryReady at h
  split at h
  · cases h
  · rename_i rest _
    exact unread_of_takeAck (s := s.withReports rest) h nofun

theorem unread_of_waitReadyFor {ackFirst : Nat → Bool} {microseconds fuel : Nat}
    (h : (s.waitReadyFor ackFirst microseconds fuel).1 = .ok ()) : s.acks.items ≠ [] := by
  induction fuel generalizing s with
  | zero =>
    have habsent : (.error (.timeout microseconds) : Except ProtocolError Unit) ≠ .ok () := nofun
    exact unread_of_takeAck h habsent
  | succ fuel ih =>
    unfold waitReadyFor at h
    dsimp only at h
    split at h
    · exact unread_of_takeAck h nofun
    · split at h
      · rename_i r rest _
        split at h
        · cases h
        · exact ih (s := s.withReports rest) h
      · exact unread_of_takeAck h nofun

end Session

namespace History

/-- What acknowledgments have to do with the loads, while these loads wait for the processor. -/
structure Answering (h : History α σ) (sources : List α) : Prop where
  /-- Loads are numbered alike by who sends them and by who takes them on. -/
  sent : h.session.sent = h.session.processor.generation + sources.length
  room : 0 < h.session.acks.capacity
  unread : h.session.acks.items ≠ [] → h.session.acks.items = [()] ∧
    h.session.processor.ackPending = false ∧ sources = [] ∧ h.session.processor.state = .ready ∧
    (Deed.adoptions h.deeds).head? = some h.session.processor.generation
  pending : h.session.processor.ackPending = true → sources = [] ∧
    h.session.processor.state = .ready ∧
    (Deed.adoptions h.deeds).head? = some h.session.processor.generation
  /-- No load is adopted twice. -/
  order : (Deed.adoptions h.deeds).Pairwise (· > ·)

namespace Answering

variable {h : History α σ} {sources : List α}

-- The invariant is about acknowledgments and adoptions.
theorem congr (ha : h.Answering sources) {k : History α σ} (hsent : k.session.sent = h.session.sent)
    (hacks : k.session.acks = h.session.acks)
    (hgeneration : k.session.processor.generation = h.session.processor.generation)
    (hstate : k.session.processor.state = h.session.processor.state)
    (hpending : k.session.processor.ackPending = h.session.processor.ackPending)
    (hadoptions : Deed.adoptions k.deeds = Deed.adoptions h.deeds) : k.Answering sources where
  sent := by rw [hsent, hgeneration]; exact ha.sent
  room := by rw [hacks]; exact ha.room
  unread := by rw [hacks, hpending, hstate, hgeneration, hadoptions]; exact ha.unread
  pending := by rw [hpending, hstate, hgeneration, hadoptions]; exact ha.pending
  order := by rw [hadoptions]; exact ha.order

-- A history in which nothing is unread and nothing is to be acknowledged.
theorem of_silent (hsent : h.session.sent = h.session.processor.generation + sources.length)
    (hroom : 0 < h.session.acks.capacity) (hacks : h.session.acks.items = [])
    (hpending : h.session.processor.ackPending = false)
    (horder : (Deed.adoptions h.deeds).Pairwise (· > ·)) : h.Answering sources where
  sent := hsent
  room := hroom
  unread := fun hunread => absurd hacks hunread
  pending := fun htrue => by rw [hpending] at htrue; cases htrue
  order := horder

-- While loads wait, nothing is unread and nothing is to be acknowledged.
theorem silent {source : α} (ha : h.Answering (source :: sources)) :
    h.session.acks.items = [] ∧ h.session.processor.ackPending = false := by
  constructor
  · exact Classical.byContradiction fun hunread => by cases (ha.unread hunread).2.2.1
  · refine Bool.eq_false_iff.mpr fun hpending => ?_
    cases (ha.pending hpending).1

-- So it is while an outcome is waited for.
theorem silent_of_loading (ha : h.Answering sources) (hstate : h.session.processor.state = .loading) :
    h.session.acks.items = [] ∧ h.session.processor.ackPending = false := by
  have hnot : h.session.processor.state ≠ .ready := by rw [hstate]; nofun
  constructor
  · exact Classical.byContradiction fun hunread => hnot (ha.unread hunread).2.2.2.1
  · exact Bool.eq_false_iff.mpr fun hpending => hnot (ha.pending hpending).2.1

-- A load that is taken on is to be acknowledged once it is adopted, and not before.
theorem receive {source : α} (ha : h.Answering (source :: sources))
    (hslot : h.session.processor.active = none ∨ h.session.processor.parked = none) :
    (h.receive source).Answering sources ∧
      (h.receive source).session.processor.ackPending = false ∧
      Deed.adoptions (h.receive source).deeds = Deed.adoptions h.deeds := by
  obtain ⟨hacks, -⟩ := ha.silent
  have hsession : ∃ requests processor,
      (h.receive source).session = { h.session with requests, processor } ∧
      processor.generation = h.session.processor.generation + 1 ∧ processor.ackPending = false := by
    rcases Session.receive_cases source hslot with ⟨requests, -, heq⟩ | heq
    · exact ⟨requests, h.session.processor.begun, heq, rfl, rfl⟩
    · exact ⟨h.session.requests, h.session.processor.denied, heq, rfl, rfl⟩
  obtain ⟨requests, processor, hsession, hgeneration, hpending⟩ := hsession
  rw [hsession]
  refine ⟨of_silent ?_ ?_ ?_ ?_ ha.order, hpending, rfl⟩ <;> rw [hsession]
  · have hsent := ha.sent
    rw [List.length_cons] at hsent
    dsimp only
    omega
  · exact ha.room
  · exact hacks
  · exact hpending

-- The module of the latest load is to be acknowledged, and no adoption was of that load before.
theorem adopt_current {p : Prepared σ} (ha : h.Answering []) (hslot : Slot h.session.processor h.deeds)
    (hcurrent : h.session.Current (.loaded p)) : (h.adopt (.loaded p)).Answering [] ∧
      (h.adopt (.loaded p)).session.processor.ackPending = true ∧
      (h.adopt (.loaded p)).session.processor.generation = h.session.processor.generation ∧
      Deed.adoptions (h.adopt (.loaded p)).deeds =
        h.session.processor.generation :: Deed.adoptions h.deeds := by
  obtain ⟨requests, trace, heq, -, -⟩ :=
    Session.adopt_loaded_current hcurrent (hslot.active_eq_none hcurrent.2)
  obtain ⟨hacks, -⟩ := ha.silent_of_loading hcurrent.2
  have hadoptions : Deed.adoptions (h.adopt (.loaded p)).deeds =
      h.session.processor.generation :: Deed.adoptions h.deeds := by
    unfold History.adopt
    dsimp only
    rw [if_pos hcurrent, ← hcurrent.1]
    rfl
  have hsession : (h.adopt (.loaded p)).session = h.session.adopt (.loaded p) := rfl
  rw [heq] at hsession
  -- earlier adoptions are of earlier loads, since this one was waited for
  have horder : (h.session.processor.generation :: Deed.adoptions h.deeds).Pairwise (· > ·) := by
    refine List.pairwise_cons.mpr ⟨fun g hg => ?_, ha.order⟩
    have hhead := Deed.head?_adoptions h.deeds
    have hbefore := ha.order
    cases hadopted : Deed.adoptions h.deeds with
    | nil =>
      rw [hadopted] at hg
      cases hg
    | cons last before =>
      rw [hadopted] at hg hhead hbefore
      obtain ⟨⟨last', id⟩, hlast, rfl⟩ := Option.map_eq_some_iff.mp hhead.symm
      have hlt := (hslot.bound last' id hlast).2 hcurrent.2
      rcases List.mem_cons.mp hg with rfl | hg
      · exact hlt
      · exact Nat.lt_trans (List.rel_of_pairwise_cons hbefore hg) hlt
  rw [hsession]
  refine ⟨⟨?_, ?_, ?_, ?_, ?_⟩, rfl, rfl, hadoptions⟩
  · rw [hsession]
    exact ha.sent
  · rw [hsession]
    exact ha.room
  · rw [hsession]
    exact fun hunread => absurd hacks hunread
  · rw [hsession, hadoptions]
    exact fun _ => ⟨rfl, rfl, rfl⟩
  · rw [hadoptions]
    exact horder

-- Any other outcome is no adoption.
theorem adopt_other {o : LoadOutcome σ} (ha : h.Answering []) (hslot : Slot h.session.processor h.deeds)
    (hother : ∀ p, o = .loaded p → ¬h.session.Current o) : (h.adopt o).Answering [] ∧
      (h.adopt o).session.processor.ackPending = h.session.processor.ackPending ∧
      (h.adopt o).session.processor.generation = h.session.processor.generation ∧
      Deed.adoptions (h.adopt o).deeds = Deed.adoptions h.deeds := by
  cases o with
  | loaded p =>
    have hlate := hother p rfl
    obtain ⟨requests, trace, heq, -, -⟩ := Session.retire_eq p.module h.session
    have hsession : (h.adopt (.loaded p)).session = h.session.adopt (.loaded p) := rfl
    have hadoptions : Deed.adoptions (h.adopt (.loaded p)).deeds = Deed.adoptions h.deeds := by
      unfold History.adopt
      dsimp only
      rw [if_neg hlate]
      rfl
    rw [Session.adopt_loaded_late hlate, heq] at hsession
    rw [hsession]
    exact ⟨ha.congr (by rw [hsession]) (by rw [hsession]) (by rw [hsession]) (by rw [hsession])
      (by rw [hsession]) hadoptions, rfl, rfl, hadoptions⟩
  | failed generation =>
    have hsession : (h.adopt (.failed generation)).session = h.session.adopt (.failed generation) := rfl
    by_cases hcurrent : h.session.Current (.failed generation)
    · obtain ⟨hacks, hpending⟩ := ha.silent_of_loading hcurrent.2
      rw [Session.adopt_failed_current hcurrent (hslot.active_eq_none hcurrent.2)] at hsession
      rw [hsession]
      refine ⟨of_silent ?_ ?_ ?_ ?_ ha.order, rfl, rfl, rfl⟩ <;> rw [hsession]
      · exact ha.sent
      · exact ha.room
      · exact hacks
      · exact hpending
    · rw [Session.adopt_failed_late hcurrent] at hsession
      rw [hsession]
      exact ⟨ha.congr (by rw [hsession]) (by rw [hsession]) (by rw [hsession]) (by rw [hsession])
        (by rw [hsession]) rfl, rfl, rfl, rfl⟩

-- Whoever looks for acknowledgments may take them, and leaves the rest.
theorem left (ha : h.Answering sources) {k : History α σ}
    (hleft : h.session.acks.Left k.session.acks) (hsent : k.session.sent = h.session.sent)
    (hprocessor : k.session.processor = h.session.processor) (hdeeds : k.deeds = h.deeds) :
    k.Answering sources where
  sent := by rw [hsent, hprocessor]; exact ha.sent
  room := by rw [hleft.capacity]; exact ha.room
  unread := fun hunread => by
    rw [hprocessor, hdeeds]
    have hsuffix := hleft.items
    have hbefore : h.session.acks.items ≠ [] := fun hnone => by
      rw [hnone] at hsuffix
      exact hunread (List.suffix_nil.mp hsuffix)
    obtain ⟨hone, hrest⟩ := ha.unread hbefore
    rw [hone] at hsuffix
    rcases List.suffix_cons_iff.mp hsuffix with hsame | hnone
    · exact ⟨hsame, hrest⟩
    · exact absurd (List.suffix_nil.mp hnone) hunread
  pending := by rw [hprocessor, hdeeds]; exact ha.pending
  order := by rw [hdeeds]; exact ha.order

-- An adoption is acknowledged as soon as all has been taken on, since nothing is unread then.
theorem acknowledge (ha : h.Answering []) : ∃ acks,
    h.session.acknowledge =
      { h.session with acks, processor := { h.session.processor with ackPending := false } } ∧
    (⟨h.session.acknowledge, h.deeds⟩ : History α σ).Answering [] ∧
    acks.items.length = h.session.acks.items.length +
      if h.session.processor.ackPending && h.session.controllerAlive then 1 else 0 := by
  cases hpending : h.session.processor.ackPending with
  | false =>
    have heq := Session.acknowledge_settled hpending
    refine ⟨h.session.acks, ?_, by rw [heq]; exact ha, rfl⟩
    rw [heq, ← hpending]
  | true =>
    have hnone : h.session.acks.items = [] := Classical.byContradiction fun hunread => by
      have hsettled := (ha.unread hunread).2.1
      rw [hpending] at hsettled
      cases hsettled
    obtain ⟨-, hready, hhead⟩ := ha.pending hpending
    have heq := Session.acknowledge_pending hpending hnone ha.room
    refine ⟨_, heq, ?_, ?_⟩
    · rw [heq]
      exact {
        sent := ha.sent
        room := by
          dsimp only
          split <;> exact ha.room
        unread := fun hunread => by
          dsimp only at hunread ⊢
          split at hunread
          · exact ⟨by rw [if_pos ‹_›], rfl, rfl, hready, hhead⟩
          · exact absurd hnone hunread
        pending := nofun
        order := ha.order }
    · rw [Bool.true_and, hnone]
      split <;> simp [hnone]

end Answering

/-- What was adopted and is still to be acknowledged. -/
def unacknowledged (h : History α σ) : List Nat :=
  if h.session.processor.ackPending then [h.session.processor.generation] else []

theorem length_unacknowledged_le (h : History α σ) : h.unacknowledged.length ≤ 1 := by
  unfold unacknowledged
  split
  · exact Nat.le_refl 1
  · exact Nat.zero_le 1

-- All that is adopted in a quantum is to be acknowledged in it.
theorem Sound.answering_taken {h : History α σ} (hs : h.Sound h.session.outcomes.items)
    (ha : h.Answering h.session.control.items) (hsettled : h.session.processor.ackPending = false) :
    h.taken.Answering [] ∧
      Deed.adoptions h.taken.deeds = h.taken.unacknowledged ++ Deed.adoptions h.deeds := by
  refine hs.taken_induction (P := fun k sources _ => k.Answering sources ∧
    Deed.adoptions k.deeds = k.unacknowledged ++ Deed.adoptions h.deeds) ?_ ?_ ?_ ?_
  · refine ⟨ha.congr rfl rfl rfl rfl rfl rfl, ?_⟩
    have hnone : h.opened.unacknowledged = [] := if_neg (Bool.eq_false_iff.mp hsettled)
    rw [hnone]
    rfl
  · rintro k source sources waiting hk ⟨hanswering, hadoptions⟩
    obtain ⟨hreceive, hpending, hsame⟩ := hanswering.receive hk.slot.exclusive
    refine ⟨hreceive, ?_⟩
    have hbefore : k.unacknowledged = [] := if_neg (Bool.eq_false_iff.mp hanswering.silent.2)
    have hafter : (k.receive source).unacknowledged = [] := if_neg (Bool.eq_false_iff.mp hpending)
    rw [hsame, hadoptions, hbefore, hafter]
  · rintro k waiting ⟨hanswering, hadoptions⟩
    exact ⟨hanswering.congr rfl rfl rfl rfl rfl rfl, hadoptions⟩
  · rintro k o os hk ⟨hanswering, hadoptions⟩
    by_cases hother : ∀ p, o = .loaded p → ¬k.session.Current o
    · obtain ⟨hadopt, hpending, hgeneration, hsame⟩ := hanswering.adopt_other hk.slot hother
      refine ⟨hadopt, ?_⟩
      have hsame' : (k.adopt o).unacknowledged = k.unacknowledged := by
        unfold unacknowledged
        rw [hpending, hgeneration]
      rw [hsame, hadoptions, hsame']
    · obtain ⟨p, hother⟩ := Classical.not_forall.mp hother
      obtain ⟨rfl, hcurrent⟩ := Classical.not_imp.mp hother
      have hcurrent : k.session.Current (.loaded p) := Classical.not_not.mp hcurrent
      obtain ⟨hadopt, hpending, hgeneration, hnew⟩ := hanswering.adopt_current hk.slot hcurrent
      refine ⟨hadopt, ?_⟩
      have hbefore : k.unacknowledged = [] :=
        if_neg (Bool.eq_false_iff.mp (hanswering.silent_of_loading hcurrent.2).2)
      have hafter : (k.adopt (.loaded p)).unacknowledged = [k.session.processor.generation] := by
        unfold unacknowledged
        rw [if_pos hpending, hgeneration]
      rw [hnew, hadoptions, hbefore, hafter]
      rfl

/-- The loads that are acknowledged when a history goes on: one whenever there are more unread
acknowledgments than before, that of the module which is active then. -/
def acknowledged (h next : History α σ) : List Nat :=
  if h.session.acks.items.length < next.session.acks.items.length then
    (next.session.processor.active.bind fun a => Deed.generationOf? next.deeds a.module.id).toList
  else []

theorem acknowledged_of_le {h next : History α σ}
    (hle : next.session.acks.items.length ≤ h.session.acks.items.length) : h.acknowledged next = [] :=
  if_neg (Nat.not_lt.mpr hle)

/-- What is adopted when a history goes on is acknowledged at once, and nothing else is. -/
structure Acknowledges (h next : History α σ) : Prop where
  sent : next.session.acks.items.length =
    h.session.acks.items.length + (h.acknowledged next).length
  once : (h.acknowledged next).length ≤ 1
  at_once : h.session.controllerAlive = true →
    Deed.adoptions next.deeds = h.acknowledged next ++ Deed.adoptions h.deeds
  unseen : h.session.controllerAlive = false → h.acknowledged next = []
  adopted : (h.acknowledged next ++ Deed.adoptions h.deeds).Sublist (Deed.adoptions next.deeds)

-- What is adopted is acknowledged if somebody is there to be told.
theorem Acknowledges.of_adoptions {h next : History α σ} {loads : List Nat}
    (honce : loads.length ≤ 1)
    (hadoptions : Deed.adoptions next.deeds = loads ++ Deed.adoptions h.deeds)
    (hacknowledged : h.acknowledged next = if h.session.controllerAlive then loads else [])
    (hsent : next.session.acks.items.length =
      h.session.acks.items.length + (h.acknowledged next).length) : h.Acknowledges next where
  sent := hsent
  once := by
    rw [hacknowledged]
    split
    · exact honce
    · exact Nat.zero_le 1
  at_once := fun hthere => by rw [hadoptions, hacknowledged, if_pos hthere]
  unseen := fun hgone => by
    rw [hacknowledged, hgone]
    rfl
  adopted := by
    rw [hadoptions, hacknowledged]
    refine List.Sublist.append_right ?_ _
    split
    · exact .refl _
    · exact List.nil_sublist _

/-- The invariant, between any two moves. -/
def Answers (h : History α σ) : Prop :=
  h.Answering h.session.control.items ∧ h.session.processor.ackPending = false

-- A turn other than a quantum acknowledges nothing.
theorem Answers.of_left {h : History α σ} (ha : h.Answers) {t : Session α σ}
    (hleft : h.session.acks.Left t.acks) (hsent : t.sent = h.session.sent)
    (hcontrol : t.control = h.session.control) (hprocessor : t.processor = h.session.processor) :
    (⟨t, h.deeds⟩ : History α σ).Answers ∧ h.acknowledged ⟨t, h.deeds⟩ = [] := by
  refine ⟨⟨?_, by rw [hprocessor]; exact ha.2⟩, acknowledged_of_le hleft.items.length_le⟩
  rw [hcontrol]
  exact ha.1.left hleft hsent hprocessor rfl

section Modules

variable [CompiledModule σ] {h : History α σ}

-- Without a module nothing has been adopted.
theorem Sound.answers_silence (hs : h.Sound h.session.outcomes.items) (ha : h.Answers)
    {channels : List (List Sample)} (hstate : h.taken.session.processor.state ≠ .ready)
    (hnext : (h.process channels).session = h.taken.session.afterSilence)
    (hdeeds : (h.process channels).deeds = h.taken.deeds) :
    (h.process channels).Answers ∧ h.Acknowledges (h.process channels) := by
  obtain ⟨htaken, hadoptions⟩ := hs.answering_taken ha.1 ha.2
  obtain ⟨requests, outcomes, trace, processor, heq, -⟩ := hs.taken_eq
  have hcontrol : (h.process channels).session.control.items = [] := by rw [hnext, heq]; rfl
  have hacks : (h.process channels).session.acks = h.session.acks := by rw [hnext, heq]; rfl
  have hnone : h.taken.session.processor.ackPending = false :=
    Bool.eq_false_iff.mpr fun hpending => hstate (htaken.pending hpending).2.1
  have hunacknowledged : h.taken.unacknowledged = [] := if_neg (Bool.eq_false_iff.mp hnone)
  have hacknowledged : h.acknowledged (h.process channels) = [] :=
    acknowledged_of_le (Nat.le_of_eq (by rw [hacks]))
  refine ⟨⟨?_, by rw [hnext]; exact hnone⟩, .of_adoptions h.taken.length_unacknowledged_le ?_ ?_ ?_⟩
  · rw [hcontrol]
    exact htaken.congr (by rw [hnext]; rfl) (by rw [hnext]; rfl) (by rw [hnext]; rfl)
      (by rw [hnext]; rfl) (by rw [hnext]; rfl) (by rw [hdeeds])
  · rw [hdeeds]
    exact hadoptions
  · rw [hacknowledged, hunacknowledged, ite_self]
  · rw [hacknowledged, hacks, List.length_nil, Nat.add_zero]

-- The module that is played is the one adopted last, whether in this quantum or before.
theorem Sound.answers_play (hs : h.Sound h.session.outcomes.items) (ha : h.Answers)
    {channels : List (List Sample)} {g : Nat} {a : Active σ}
    (hlast : Deed.lastAdopted? h.taken.deeds = some (g, a.module.id))
    (hnext : (h.process channels).session = h.taken.session.acknowledge.afterPlaying a channels)
    (hdeeds : (h.process channels).deeds = .stepped g a.module.id :: h.taken.deeds) :
    (h.process channels).Answers ∧ h.Acknowledges (h.process channels) := by
  obtain ⟨htaken, hadoptions⟩ := hs.answering_taken ha.1 ha.2
  obtain ⟨requests, outcomes, trace, processor, heq, -⟩ := hs.taken_eq
  have hbefore : h.taken.session.acks.items = h.session.acks.items := by rw [heq]
  have halive : h.taken.session.controllerAlive = h.session.controllerAlive := by rw [heq]
  obtain ⟨acks, hack, hanswering, hlength⟩ := htaken.acknowledge
  rw [halive, hbefore] at hlength
  rw [hack] at hnext
  have hcontrol : (h.process channels).session.control.items = [] := by rw [hnext, heq]; rfl
  have hacks : (h.process channels).session.acks = acks := by rw [hnext]; rfl
  have hgeneration : ((h.process channels).session.processor.active.bind fun a =>
      Deed.generationOf? (h.process channels).deeds a.module.id) = some g := by
    rw [hnext, hdeeds]
    change Deed.generationOf? (.stepped g a.module.id :: h.taken.deeds) _ = some g
    rw [Active.play_id]
    exact Deed.generationOf_of_last hlast
  have hacknowledged : h.acknowledged (h.process channels) =
      if h.session.controllerAlive then h.taken.unacknowledged else [] := by
    unfold acknowledged unacknowledged
    rw [hgeneration, hacks, hlength]
    cases hpending : h.taken.session.processor.ackPending with
    | false => simp
    | true =>
      have hhead := Deed.head?_adoptions h.taken.deeds
      rw [hlast, (htaken.pending hpending).2.2] at hhead
      cases hhead
      cases h.session.controllerAlive <;> simp
  refine ⟨⟨?_, by rw [hnext]; rfl⟩, .of_adoptions h.taken.length_unacknowledged_le ?_ hacknowledged ?_⟩
  · rw [hcontrol]
    exact hanswering.congr (by rw [hnext, hack]; rfl) (by rw [hacks, hack]) (by rw [hnext, hack]; rfl)
      (by rw [hnext, hack]; rfl) (by rw [hnext, hack]; rfl) (by rw [hdeeds]; rfl)
  · rw [hdeeds]
    exact hadoptions
  · rw [hacks, hlength, hacknowledged]
    unfold unacknowledged
    cases h.taken.session.processor.ackPending <;> cases h.session.controllerAlive <;> rfl

theorem Sound.answers_process (hs : h.Sound h.session.outcomes.items) (ha : h.Answers)
    (channels : List (List Sample)) :
    (h.process channels).Answers ∧ h.Acknowledges (h.process channels) := by
  cases hs.plays channels with
  | nothing hstate hprocess hsteps hdeeds =>
    exact hs.answers_silence ha hstate (congrArg Prod.snd hprocess) hdeeds
  | module g a hstate hactive hlast hprocess hsteps hdeeds =>
    exact hs.answers_play ha hlast (congrArg Prod.snd hprocess) hdeeds

theorem Answers.load (ha : h.Answers) (source : α) :
    (h.turn (.load source)).Answers ∧ h.acknowledged (h.turn (.load source)) = [] := by
  have hturn : h.turn (.load source) = ⟨(h.session.load source).2, h.deeds⟩ := rfl
  rw [hturn]
  rcases h.session.load_cases source with ⟨error, heq⟩ | ⟨control, hpush, heq⟩
  · rw [heq]
    exact ha.of_left ⟨rfl, List.nil_suffix⟩ rfl rfl rfl
  · rw [heq]
    refine ⟨⟨.of_silent ?_ ha.1.room rfl ha.2 ha.1.order, ha.2⟩, acknowledged_of_le (Nat.zero_le _)⟩
    dsimp only
    rw [ha.1.sent, Queue.items_of_push? hpush, List.length_append, List.length_singleton]
    rfl

-- Whatever a turn acknowledges has been adopted since.
theorem Sound.answers_turn (hs : h.Sound h.session.outcomes.items) (ha : h.Answers)
    (turn : Turn α σ) : (h.turn turn).Answers ∧
      (h.acknowledged (h.turn turn) ++ Deed.adoptions h.deeds).Sublist
        (Deed.adoptions (h.turn turn).deeds) := by
  have hnothing {next : History α σ} (hdeeds : next.deeds = h.deeds)
      (hnext : next.Answers ∧ h.acknowledged next = []) : next.Answers ∧
        (h.acknowledged next ++ Deed.adoptions h.deeds).Sublist (Deed.adoptions next.deeds) := by
    rw [hnext.2, hdeeds]
    exact ⟨hnext.1, .refl _⟩
  cases turn with
  | process channels =>
    obtain ⟨hanswers, hacknowledges⟩ := hs.answers_process ha channels
    exact ⟨hanswers, hacknowledges.adopted⟩
  | load source => exact hnothing rfl (ha.load source)
  | handle load =>
    refine hnothing rfl ?_
    change Answers ⟨(h.session.handleNext load).getD h.session, h.deeds⟩ ∧
      h.acknowledged ⟨(h.session.handleNext load).getD h.session, h.deeds⟩ = []
    cases hnext : h.session.handleNext load with
    | none => exact ha.of_left (.refl _) rfl rfl rfl
    | some next =>
      obtain ⟨requests, outcomes, reports, loads, trace, rfl⟩ := Session.handleNext_eq hnext
      exact ha.of_left (.refl _) rfl rfl rfl
  | tryReady =>
    refine hnothing rfl ?_
    obtain ⟨acks, reports, heq, hleft⟩ := h.session.tryReady_eq
    change Answers ⟨h.session.tryReady.2, h.deeds⟩ ∧ h.acknowledged ⟨h.session.tryReady.2, h.deeds⟩ = []
    rw [heq]
    exact ha.of_left hleft rfl rfl rfl
  | waitReady ackFirst microseconds =>
    refine hnothing rfl ?_
    obtain ⟨acks, reports, heq, hleft⟩ := h.session.waitReadyFor_eq ackFirst microseconds
      (h.session.reports.items.length + 1)
    change Answers ⟨(h.session.waitReady ackFirst microseconds).2, h.deeds⟩ ∧
      h.acknowledged ⟨(h.session.waitReady ackFirst microseconds).2, h.deeds⟩ = []
    rw [Session.waitReady, heq]
    exact ha.of_left hleft rfl rfl rfl

theorem Sound.answers_move (hs : h.Sound h.session.outcomes.items) (ha : h.Answers)
    {move : Move α σ} (halive : (h.move move).session.processorAlive = true) :
    (h.move move).Answers ∧
      (h.acknowledged (h.move move) ++ Deed.adoptions h.deeds).Sublist
        (Deed.adoptions (h.move move).deeds) := by
  obtain ⟨-, ⟨turn, -, -, hturn⟩ | ⟨controllerAlive, workerAlive, hgone⟩⟩ := move_cases halive
  · rw [hturn]
    exact hs.answers_turn ha turn
  · rw [hgone]
    obtain ⟨hanswers, hnothing⟩ := ha.of_left
      (t := { h.session with controllerAlive, workerAlive }) (.refl _) rfl rfl rfl
    rw [hnothing]
    exact ⟨hanswers, .refl _⟩

/-- All loads acknowledged in the course of some moves, the last first. -/
def acknowledgments (h : History α σ) : List (Move α σ) → List Nat
  | [] => []
  | move :: moves => (h.move move).acknowledgments moves ++ h.acknowledged (h.move move)

-- What is acknowledged in the end was adopted, in the same order.
theorem Sound.acknowledgments_sublist (hs : h.Sound h.session.outcomes.items) (ha : h.Answers)
    (moves : List (Move α σ)) (halive : (h.through moves).session.processorAlive = true) :
    (h.acknowledgments moves ++ Deed.adoptions h.deeds).Sublist
      (Deed.adoptions (h.through moves).deeds) := by
  induction moves generalizing h with
  | nil => exact .refl _
  | cons move moves ih =>
    have hthere : (h.move move).session.processorAlive = true := processorAlive_of_through halive
    obtain ⟨hanswers, hadopted⟩ := hs.answers_move ha hthere
    have hrest := ih (hs.move hthere) hanswers halive
    unfold acknowledgments
    rw [List.append_assoc]
    exact (List.Sublist.append_left hadopted _).trans hrest

/-- What acknowledgments tell at any time. -/
structure AnswersLatest (h : History α σ) : Prop where
  once : h.session.acks.items.length ≤ 1
  /-- While a load is still to be taken on, nothing is unread. -/
  thrown_away : h.session.control.items ≠ [] → h.session.acks.items = []
  /-- What is unread answers for the latest load sent: its module is adopted and active. -/
  unread : h.session.acks.items ≠ [] → h.session.processor.state = .ready ∧ ∃ a,
    h.session.processor.active = some a ∧
      Deed.lastAdopted? h.deeds = some (h.session.sent, a.module.id)
  settled : h.session.processor.ackPending = false

omit [CompiledModule σ] in
theorem Sound.answersLatest (hs : h.Sound h.session.outcomes.items) (ha : h.Answers) :
    AnswersLatest h where
  once := by
    by_cases hunread : h.session.acks.items = []
    · rw [hunread]
      exact Nat.zero_le 1
    · rw [(ha.1.unread hunread).1]
      exact Nat.le_refl 1
  thrown_away := fun hwaits => Classical.byContradiction fun hunread =>
    hwaits (ha.1.unread hunread).2.2.1
  unread := fun hunread => by
    obtain ⟨-, -, hnone, hready, hhead⟩ := ha.1.unread hunread
    obtain ⟨a, hactive⟩ := Option.isSome_iff_exists.mp (hs.slot.ready_iff.mp hready)
    obtain ⟨g, hlast⟩ := hs.slot.holds a.module.id ⟨a, .inl hactive, rfl⟩
    refine ⟨hready, a, hactive, ?_⟩
    have hsent := ha.1.sent
    rw [Deed.head?_adoptions, hlast] at hhead
    cases hhead
    rw [hnone, List.length_nil, Nat.add_zero] at hsent
    rw [hlast, hsent]
  settled := ha.2

omit [CompiledModule σ] in
theorem answers_link {config : Config} {s : Session α σ} (hlink : Session.link? config = some s)
    (hroom : 0 < config.eventCapacity.toNat) : (⟨s, []⟩ : History α σ).Answers := by
  unfold Session.link? at hlink
  split at hlink
  · cases hlink
    exact ⟨.of_silent rfl hroom rfl rfl .nil, rfl⟩
  · cases hlink

/-- Whatever happens in a session with room for an acknowledgment, as long as its processor is there: what
is unread answers for the latest load, so that whoever is told of readiness has that load's module playing.
A quantum acknowledges what it adopts at once, nothing else, and no load twice. -/
theorem acknowledgments_answer {config : Config} {s : Session α σ}
    (hlink : Session.link? config = some s) (hroom : 0 < config.eventCapacity.toNat)
    (moves : List (Move α σ))
    (halive : (History.through ⟨s, []⟩ moves).session.processorAlive = true) :
    let h := History.through ⟨s, []⟩ moves
    AnswersLatest h ∧ (∀ channels, h.Acknowledges (h.process channels)) ∧
      (acknowledgments ⟨s, []⟩ moves).Nodup ∧
      (h.session.tryReady.1 = .ok true ∨
          (∃ ackFirst microseconds, (h.session.waitReady ackFirst microseconds).1 = .ok ()) →
        ∃ a, h.session.processor.active = some a ∧
          Deed.lastAdopted? h.deeds = some (h.session.sent, a.module.id)) := by
  intro h
  have hinvariant : h.Sound h.session.outcomes.items ∧ h.Answers :=
    through_induction (P := fun k => k.Sound k.session.outcomes.items ∧ k.Answers)
      ⟨Sound.link hlink, answers_link hlink hroom⟩
      (fun k move ⟨hk, ha⟩ halive => ⟨hk.move halive, (hk.answers_move ha halive).1⟩) moves halive
  obtain ⟨hs, ha⟩ := hinvariant
  have hlatest := hs.answersLatest ha
  refine ⟨hlatest, fun channels => (hs.answers_process ha channels).2, ?_, ?_⟩
  · have hsublist := (Sound.link hlink).acknowledgments_sublist (answers_link hlink hroom) moves halive
    have hnodup : (Deed.adoptions h.deeds).Nodup := ha.1.order.imp fun hlt => Nat.ne_of_gt hlt
    rw [show Deed.adoptions [] = [] from rfl, List.append_nil] at hsublist
    exact hsublist.nodup hnodup
  · rintro (hready | ⟨ackFirst, microseconds, hready⟩)
    · exact (hlatest.unread (Session.unread_of_tryReady hready)).2
    · exact (hlatest.unread (Session.unread_of_waitReadyFor hready)).2

/-- The second load fails and the first module is back, without another acknowledgment; the third load is
acknowledged, and that is unread. -/
theorem acknowledgments_answer_third :
    let load : Unit → Except LoadError CannedModule := fun _ => .ok ⟨[], .ok 0, .ok ⟨0⟩, []⟩
    let fail : Unit → Except LoadError CannedModule := fun _ => .error (.malformed "empty")
    let s : Session Unit CannedModule := {
      quantum := 1, scratchBytes := 4, control := .empty 2, requests := .empty 2, outcomes := .empty 2
      acks := .empty 1, reports := .empty 1 }
    let moves : List (Move Unit CannedModule) := [.turn (.load ()), .turn (.process []),
      .turn (.handle load), .turn (.process []), .turn .tryReady, .turn (.load ()), .turn (.process []),
      .turn (.handle fail), .turn (.process []), .turn (.load ()), .turn (.process []),
      .turn (.handle load), .turn (.process [])]
    let h := History.through ⟨s, []⟩ moves
    Session.link? {
      quantumSize := 1, controlCapacity := 2, loaderCapacity := 2, eventCapacity := 1 } = some s ∧
    h.session.processorAlive = true ∧ AnswersLatest h ∧ h.session.acks.items = [()] ∧
    h.session.sent = 3 ∧ Deed.lastAdopted? h.deeds = some (3, 3) ∧
    acknowledgments ⟨s, []⟩ moves = [3, 1] := by
  intro load fail s moves h
  have hlink : Session.link? {
      quantumSize := 1, controlCapacity := 2, loaderCapacity := 2, eventCapacity := 1 } = some s := rfl
  have hanswer := acknowledgments_answer hlink (by decide) moves (by decide +kernel)
  exact ⟨hlink, by decide +kernel, hanswer.1, by decide +kernel, by decide +kernel, by decide +kernel,
    by decide +kernel⟩

end Modules

end History

end SampleStream
