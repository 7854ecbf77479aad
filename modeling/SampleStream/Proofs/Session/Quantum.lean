import SampleStream.Proofs.Session.Moves

/-!
# Quanta

How a quantum begins: all that has arrived is taken on, message by message, the loads before the outcomes.
What every message keeps holds once all are taken on (`Sound.taken_induction`).
-/

namespace SampleStream

universe u v

variable {α : Type v} {σ : Type u}

namespace Session

-- Taking a load or an outcome on concerns the slot, and what the worker is asked for. It fails no quantum,
-- and an outcome changes no counter.
theorem receive_eq {s : Session α σ} (hslot : s.processor.active = none ∨ s.processor.parked = none)
    (source : α) : ∃ requests processor, s.receive source = { s with requests, processor } ∧
      processor.stats.failed = s.processor.stats.failed := by
  rcases receive_cases source hslot with ⟨requests, -, heq⟩ | heq
  · exact ⟨requests, s.processor.begun, heq, rfl⟩
  · exact ⟨s.requests, s.processor.denied, heq, rfl⟩

theorem adopt_eq {s : Session α σ} (hslot : s.processor.state = .loading → s.processor.active = none)
    (o : LoadOutcome σ) : ∃ requests trace processor,
      s.adopt o = { s with requests, trace, processor } ∧
      processor.generation = s.processor.generation ∧ processor.stats = s.processor.stats := by
  by_cases hcurrent : s.Current o
  · cases o with
    | loaded p =>
      obtain ⟨requests, trace, heq, -, -⟩ := adopt_loaded_current hcurrent (hslot hcurrent.2)
      exact ⟨requests, trace, s.processor.adopting p.activate, heq, rfl, rfl⟩
    | failed generation =>
      exact ⟨s.requests, s.trace, s.processor.resumed s.processor.parked,
        adopt_failed_current hcurrent (hslot hcurrent.2), rfl, rfl⟩
  · cases o with
    | loaded p =>
      obtain ⟨requests, trace, heq, -, -⟩ := retire_eq p.module s
      exact ⟨requests, trace, s.processor, (adopt_loaded_late hcurrent).trans heq, rfl, rfl⟩
    | failed generation =>
      exact ⟨s.requests, s.trace, s.processor, adopt_failed_late hcurrent, rfl, rfl⟩

end Session

namespace History

/-- The history within a quantum, before anything is taken on: the loads are at hand. -/
def opened (h : History α σ) : History α σ :=
  ⟨{ h.session.counted with control := h.session.control.clear }, h.deeds⟩

theorem Sound.opened {h : History α σ} (hs : h.Sound h.session.outcomes.items) :
    h.opened.Sound h.session.outcomes.items :=
  hs.of_same_modules (hs.slot.congr rfl rfl rfl rfl) rfl rfl (fun _ => Iff.rfl) (fun _ hid => hid) rfl
    fun _ _ hid => hid

/-- The history within a quantum, when all loads are taken on and the outcomes are at hand. -/
def received (h : History α σ) : History α σ :=
  let all := h.session.control.items.foldl receive h.opened
  ⟨{ all.session with outcomes := all.session.outcomes.clear }, all.deeds⟩

-- Taking loads on brings no outcomes, so that those at hand are taken on in the end.
theorem Sound.received {h : History α σ} (hs : h.Sound h.session.outcomes.items) :
    h.received.Sound h.session.outcomes.items ∧
      h.taken = h.session.outcomes.items.foldl History.adopt h.received := by
  obtain ⟨hall, hquiet⟩ := hs.opened.receive_all h.session.control.items
  have hwaiting : (h.session.control.items.foldl History.receive h.opened).session.outcomes.items =
      h.session.outcomes.items := congrArg Queue.items hquiet.outcomes
  refine ⟨⟨hall.slot, hall.alive, hall.fresh, hall.old, hall.gone, hall.discarded⟩, ?_⟩
  rw [← hwaiting]
  rfl

theorem Sound.taken_outcomes {h : History α σ} (hs : h.Sound h.session.outcomes.items) :
    h.taken.session.outcomes.items = [] := by
  obtain ⟨hreceived, htaken⟩ := hs.received
  rw [htaken, hreceived.adopt_all.2.outcomes]
  rfl

-- What every message that is taken on keeps, holds when all of them have been. The loads and the outcomes
-- still to come are beside the history.
theorem Sound.taken_induction {P : History α σ → List α → List (LoadOutcome σ) → Prop}
    {h : History α σ} (hs : h.Sound h.session.outcomes.items)
    (hstart : P h.opened h.session.control.items h.session.outcomes.items)
    (hreceive : ∀ (k : History α σ) source sources waiting, k.Sound waiting →
      P k (source :: sources) waiting → P (k.receive source) sources waiting)
    (hclear : ∀ (k : History α σ) waiting, P k [] waiting →
      P ⟨{ k.session with outcomes := k.session.outcomes.clear }, k.deeds⟩ [] waiting)
    (hadopt : ∀ (k : History α σ) o os, k.Sound (o :: os) → P k [] (o :: os) → P (k.adopt o) [] os) :
    P h.taken [] [] := by
  -- the loads, while all outcomes wait
  have hloads : ∀ (sources : List α) (k : History α σ), k.Sound h.session.outcomes.items →
      P k sources h.session.outcomes.items →
      P (sources.foldl History.receive k) [] h.session.outcomes.items := by
    intro sources
    induction sources with
    | nil => exact fun _ _ hk => hk
    | cons source sources ih =>
      exact fun k hk hP => ih _ (hk.receive source).1 (hreceive k source sources _ hk hP)
  -- and then the outcomes
  have houtcomes : ∀ (os : List (LoadOutcome σ)) (k : History α σ), k.Sound os → P k [] os →
      P (os.foldl History.adopt k) [] [] := by
    intro os
    induction os with
    | nil => exact fun _ _ hk => hk
    | cons o os ih => exact fun k hk hP => ih _ hk.adopt.1 (hadopt k o os hk hP)
  obtain ⟨hreceived, htaken⟩ := hs.received
  rw [htaken]
  exact houtcomes _ _ hreceived (hclear _ _ (hloads _ h.opened hs.opened hstart))

-- What a quantum takes on concerns the slot, and what the worker is asked for.
theorem Sound.taken_eq {h : History α σ} (hs : h.Sound h.session.outcomes.items) :
    ∃ requests outcomes trace processor, h.taken.session = { h.session with
        control := h.session.control.clear, requests, outcomes, trace, processor } ∧
      processor.stats.failed = h.session.processor.stats.failed := by
  refine hs.taken_induction (P := fun k _ _ => ∃ requests outcomes trace processor,
    k.session = { h.session with
        control := h.session.control.clear, requests, outcomes, trace, processor } ∧
      processor.stats.failed = h.session.processor.stats.failed) ?_ ?_ ?_ ?_
  · exact ⟨_, _, _, h.session.counted.processor, rfl, rfl⟩
  · rintro k source sources waiting hk ⟨requests, outcomes, trace, processor, heq, hfailed⟩
    obtain ⟨requests', processor', hreceive, hsame⟩ :=
      Session.receive_eq hk.slot.exclusive source
    refine ⟨requests', outcomes, trace, processor', ?_, ?_⟩
    · change k.session.receive source = _
      rw [hreceive, heq]
    · rw [hsame, heq]
      exact hfailed
  · rintro k waiting ⟨requests, outcomes, trace, processor, heq, hfailed⟩
    refine ⟨requests, outcomes.clear, trace, processor, ?_, hfailed⟩
    rw [heq]
  · rintro k o os hk ⟨requests, outcomes, trace, processor, heq, hfailed⟩
    obtain ⟨requests', trace', processor', hadopt, -, hsame⟩ :=
      Session.adopt_eq hk.slot.active_eq_none o
    refine ⟨requests', outcomes, trace', processor', ?_, ?_⟩
    · change k.session.adopt o = _
      rw [hadopt, heq]
    · rw [hsame, heq]
      exact hfailed

end History

end SampleStream
