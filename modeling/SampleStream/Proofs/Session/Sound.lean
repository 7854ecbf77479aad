import SampleStream.Proofs.Session.Slot

/-!
# Modules in one place

A module waits for the processor, is in its slot, or was given up, and its number tells it from all others.
`History.Sound` says so of a history, beside what `Slot` says of the processor; every turn keeps it, and
what is gone stays gone.
-/

namespace SampleStream

universe u v

variable {α : Type v} {σ : Type u}

/-- The modules that outcomes bring. -/
def LoadOutcome.arriving (os : List (LoadOutcome σ)) : List Nat :=
  os.filterMap fun
    | .loaded p => some p.module.id
    | .failed _ => none

theorem LoadOutcome.arriving_append (os ps : List (LoadOutcome σ)) :
    arriving (os ++ ps) = arriving os ++ arriving ps :=
  List.filterMap_append

theorem LoadOutcome.arriving_append_loaded (os : List (LoadOutcome σ)) (p : Prepared σ) :
    arriving (os ++ [.loaded p]) = arriving os ++ [p.module.id] :=
  arriving_append os [.loaded p]

theorem LoadOutcome.arriving_append_failed (os : List (LoadOutcome σ)) (generation : Nat) :
    arriving (os ++ [.failed generation]) = arriving os :=
  (arriving_append os [.failed generation]).trans (List.append_nil _)

/-- Nothing is stepped on the way to a later session, and what was given up stays given up. -/
structure Session.Quiet (s t : Session α σ) : Prop where
  steps : t.steps = s.steps
  outcomes : t.outcomes = s.outcomes
  gone : ∀ id, s.Gone id → t.Gone id

theorem Session.Quiet.refl (s : Session α σ) : s.Quiet s :=
  ⟨rfl, rfl, fun _ => id⟩

theorem Session.Quiet.trans {s t u : Session α σ} (hst : s.Quiet t) (htu : t.Quiet u) : s.Quiet u where
  steps := htu.steps.trans hst.steps
  outcomes := htu.outcomes.trans hst.outcomes
  gone := fun id hgone => htu.gone id (hst.gone id hgone)

namespace History

/-- What holds of every history while these outcomes wait for the processor. -/
structure Sound (h : History α σ) (waiting : List (LoadOutcome σ)) : Prop where
  slot : Slot h.session.processor h.deeds
  alive : h.session.processorAlive = true
  fresh : (LoadOutcome.arriving waiting ++ Deed.arrived h.deeds).Nodup
  old : ∀ id ∈ LoadOutcome.arriving waiting ++ Deed.arrived h.deeds, id ≤ h.session.loads
  gone : ∀ id, h.session.Gone id →
    id ≤ h.session.loads ∧ id ∉ LoadOutcome.arriving waiting ∧ ¬h.session.processor.Holds id
  discarded : ∀ g id, .discarded g id ∈ h.deeds → h.session.Gone id

namespace Sound

variable {h : History α σ} {waiting : List (LoadOutcome σ)}

theorem arrived_of_holds (hs : h.Sound waiting) {id : Nat} (hid : h.session.processor.Holds id) :
    id ∈ Deed.arrived h.deeds := by
  obtain ⟨g, hlast⟩ := hs.slot.holds id hid
  exact Deed.mem_arrived_of_last hlast

-- What is in the slot waits no longer.
theorem not_mem_of_holds (hs : h.Sound waiting) {id : Nat} (hid : h.session.processor.Holds id) :
    id ∉ LoadOutcome.arriving waiting := fun hmem =>
  (List.nodup_append.mp hs.fresh).2.2 id hmem id (hs.arrived_of_holds hid) rfl

-- A later history in which no module has come or gone.
theorem of_same_modules (hs : h.Sound waiting) {k : History α σ} (hslot : Slot k.session.processor k.deeds)
    (halive : k.session.processorAlive = h.session.processorAlive)
    (hloads : k.session.loads = h.session.loads)
    (hgone : ∀ id, k.session.Gone id ↔ h.session.Gone id)
    (hholds : ∀ id, k.session.processor.Holds id → h.session.processor.Holds id)
    (harrived : Deed.arrived k.deeds = Deed.arrived h.deeds)
    (hdiscarded : ∀ g id, .discarded g id ∈ k.deeds → .discarded g id ∈ h.deeds) :
    k.Sound waiting where
  slot := hslot
  alive := halive.trans hs.alive
  fresh := by rw [harrived]; exact hs.fresh
  old := by rw [harrived, hloads]; exact hs.old
  gone := fun id hid => by
    obtain ⟨hle, hmem, hnot⟩ := hs.gone id ((hgone id).mp hid)
    rw [hloads]
    exact ⟨hle, hmem, fun hid => hnot (hholds id hid)⟩
  discarded := fun g id hid => (hgone id).mpr (hs.discarded g id (hdiscarded g id hid))

theorem receive (hs : h.Sound waiting) (source : α) :
    (h.receive source).Sound waiting ∧ h.session.Quiet (h.receive source).session := by
  have hdiscarded {g id generation : Nat} {forwarded : Bool}
      (hid : Deed.discarded g id ∈ .received generation forwarded :: h.deeds) :
      .discarded g id ∈ h.deeds :=
    (List.mem_cons.mp hid).resolve_left nofun
  rcases h.receive_cases source hs.slot.exclusive with ⟨requests, hpush, heq⟩ | heq
  · have hgone := Session.gone_push_instantiate hpush h.session.processor.begun
    rw [heq]
    constructor
    · exact hs.of_same_modules hs.slot.begun rfl rfl hgone (fun _ => Processor.holds_of_begun) rfl
        fun _ _ => hdiscarded
    · exact ⟨rfl, rfl, fun id => (hgone id).mpr⟩
  · rw [heq]
    constructor
    · exact hs.of_same_modules hs.slot.denied rfl rfl (fun _ => Iff.rfl)
        (fun _ => Processor.holds_of_denied) rfl fun _ _ => hdiscarded
    · exact ⟨rfl, rfl, fun _ hid => hid⟩

-- A module that arrives is in the slot or given up from then on.
theorem of_arrival {p : Prepared σ} (hs : h.Sound (.loaded p :: waiting)) {k : History α σ}
    (hslot : Slot k.session.processor k.deeds)
    (halive : k.session.processorAlive = h.session.processorAlive)
    (hloads : k.session.loads = h.session.loads)
    (harrived : Deed.arrived k.deeds = p.module.id :: Deed.arrived h.deeds)
    (hgone : ∀ id, k.session.Gone id → id ≤ h.session.loads ∧
      id ∉ LoadOutcome.arriving waiting ∧ ¬k.session.processor.Holds id)
    (hdiscarded : ∀ g id, .discarded g id ∈ k.deeds → k.session.Gone id) : k.Sound waiting where
  slot := hslot
  alive := halive.trans hs.alive
  fresh := by
    rw [harrived, List.perm_middle.nodup_iff]
    exact hs.fresh
  old := fun id hid => by
    rw [harrived, List.perm_middle.mem_iff] at hid
    rw [hloads]
    exact hs.old id hid
  gone := by
    rw [hloads]
    exact hgone
  discarded := hdiscarded

-- What is in the slot is another module than the one that arrives.
theorem held_apart {p : Prepared σ} (hs : h.Sound (.loaded p :: waiting)) {id : Nat}
    (hholds : h.session.processor.Holds id) :
    id ≤ h.session.loads ∧ id ≠ p.module.id ∧ id ∉ LoadOutcome.arriving waiting := by
  obtain ⟨hne, hmem⟩ := List.ne_and_not_mem_of_not_mem_cons (hs.not_mem_of_holds hholds)
  exact ⟨hs.old id (List.mem_append_right _ (hs.arrived_of_holds hholds)), hne, hmem⟩

-- So is what was given up before.
theorem gone_apart {p : Prepared σ} (hs : h.Sound (.loaded p :: waiting)) {id : Nat}
    (hgone : h.session.Gone id) : id ≤ h.session.loads ∧ id ≠ p.module.id ∧
      id ∉ LoadOutcome.arriving waiting ∧ ¬h.session.processor.Holds id := by
  obtain ⟨hle, hmem, hnot⟩ := hs.gone id hgone
  obtain ⟨hne, hmem⟩ := List.ne_and_not_mem_of_not_mem_cons hmem
  exact ⟨hle, hne, hmem, hnot⟩

-- The module of the latest load is adopted, and the parked one is given up.
theorem adopt_current {p : Prepared σ} (hs : h.Sound (.loaded p :: waiting))
    (hcurrent : h.session.Current (.loaded p)) :
    (h.adopt (.loaded p)).Sound waiting ∧ h.session.Quiet (h.adopt (.loaded p)).session := by
  obtain ⟨requests, trace, heq, hsteps, hiff⟩ :=
    Session.adopt_loaded_current hcurrent (hs.slot.active_eq_none hcurrent.2)
  have hprocessor : (h.session.adopt (.loaded p)).processor =
      h.session.processor.adopting p.activate := by rw [heq]
  have hslot := hs.slot.adopting p.activate
  rw [← hcurrent.1, ← hprocessor] at hslot
  have hnot {id : Nat} (hne : id ≠ p.module.id) :
      ¬(h.session.adopt (.loaded p)).processor.Holds id := fun hholds => by
    rw [hprocessor] at hholds
    exact hne (Processor.holds_of_adopting hholds)
  unfold History.adopt
  dsimp only
  rw [if_pos hcurrent]
  constructor
  · refine hs.of_arrival hslot ?_ ?_ rfl ?_ ?_
    · rw [heq]
    · rw [heq]
    · intro id hid
      rcases (hiff id).mp hid with hid | ⟨a, hparked, rfl⟩
      · obtain ⟨hle, hne, hmem, -⟩ := hs.gone_apart hid
        exact ⟨hle, hmem, hnot hne⟩
      · obtain ⟨hle, hne, hmem⟩ := hs.held_apart ⟨a, .inr hparked, rfl⟩
        exact ⟨hle, hmem, hnot hne⟩
    · intro g id hid
      have hid := (List.mem_cons.mp hid).resolve_left nofun
      exact (hiff id).mpr (.inl (hs.discarded g id hid))
  · exact ⟨hsteps, by rw [heq], fun id hid => (hiff id).mpr (.inl hid)⟩

-- The module of an earlier load is given up at once.
theorem adopt_late {p : Prepared σ} (hs : h.Sound (.loaded p :: waiting))
    (hlate : ¬h.session.Current (.loaded p)) :
    (h.adopt (.loaded p)).Sound waiting ∧ h.session.Quiet (h.adopt (.loaded p)).session := by
  obtain ⟨requests, trace, heq, hsteps, hiff⟩ := Session.retire_eq p.module h.session
  have hprocessor : (h.session.retire p.module).processor = h.session.processor := by rw [heq]
  have hslot := hs.slot.noted (.inr ⟨p.generation, p.module.id, rfl⟩)
  rw [← hprocessor] at hslot
  unfold History.adopt
  dsimp only
  rw [if_neg hlate, Session.adopt_loaded_late hlate]
  constructor
  · refine hs.of_arrival hslot ?_ ?_ rfl ?_ ?_
    · rw [heq]
    · rw [heq]
    · intro id hid
      rw [hprocessor]
      rcases (hiff id).mp hid with hid | rfl
      · obtain ⟨hle, -, hmem, hnot⟩ := hs.gone_apart hid
        exact ⟨hle, hmem, hnot⟩
      · exact ⟨hs.old p.module.id List.mem_cons_self,
          fun hmem => (List.nodup_cons.mp hs.fresh).1 (List.mem_append_left _ hmem),
          fun hholds => (hs.held_apart hholds).2.1 rfl⟩
    · intro g id hid
      rcases List.mem_cons.mp hid with hid | hid
      · cases hid
        exact (hiff _).mpr (.inr rfl)
      · exact (hiff id).mpr (.inl (hs.discarded g id hid))
  · exact ⟨hsteps, by rw [heq], fun id hid => (hiff id).mpr (.inl hid)⟩

-- A load that failed brings the parked module back, if it is still waited for.
theorem adopt_failed {generation : Nat} (hs : h.Sound (.failed generation :: waiting)) :
    (h.adopt (.failed generation)).Sound waiting ∧
      h.session.Quiet (h.adopt (.failed generation)).session := by
  have hdiscarded {g id : Nat} (hid : Deed.discarded g id ∈ .failed generation :: h.deeds) :
      .discarded g id ∈ h.deeds :=
    (List.mem_cons.mp hid).resolve_left nofun
  have hs : h.Sound waiting := ⟨hs.slot, hs.alive, hs.fresh, hs.old, hs.gone, hs.discarded⟩
  unfold History.adopt
  dsimp only
  by_cases hcurrent : h.session.Current (.failed generation)
  · have hslot := hs.slot.failed_current
    rw [← hcurrent.1] at hslot
    rw [Session.adopt_failed_current hcurrent (hs.slot.active_eq_none hcurrent.2)]
    constructor
    · exact hs.of_same_modules hslot rfl rfl (fun _ => Iff.rfl)
        (fun _ => Processor.holds_of_resumed) rfl fun _ _ => hdiscarded
    · exact ⟨rfl, rfl, fun _ hid => hid⟩
  · rw [Session.adopt_failed_late hcurrent]
    constructor
    · exact hs.of_same_modules (hs.slot.noted (.inl ⟨generation, rfl⟩)) rfl rfl (fun _ => Iff.rfl)
        (fun _ hid => hid) rfl fun _ _ => hdiscarded
    · exact ⟨rfl, rfl, fun _ hid => hid⟩

theorem receive_all (hs : h.Sound waiting) (sources : List α) :
    (sources.foldl History.receive h).Sound waiting ∧
      h.session.Quiet (sources.foldl History.receive h).session := by
  induction sources generalizing h with
  | nil => exact ⟨hs, .refl h.session⟩
  | cons source sources ih =>
    obtain ⟨hreceive, hquiet⟩ := hs.receive source
    obtain ⟨hall, hrest⟩ := ih hreceive
    exact ⟨hall, hquiet.trans hrest⟩

theorem adopt {o : LoadOutcome σ} (hs : h.Sound (o :: waiting)) :
    (h.adopt o).Sound waiting ∧ h.session.Quiet (h.adopt o).session := by
  cases o with
  | loaded p =>
    by_cases hcurrent : h.session.Current (.loaded p)
    · exact hs.adopt_current hcurrent
    · exact hs.adopt_late hcurrent
  | failed generation => exact hs.adopt_failed

theorem adopt_all {os : List (LoadOutcome σ)} (hs : h.Sound os) :
    (os.foldl History.adopt h).Sound [] ∧ h.session.Quiet (os.foldl History.adopt h).session := by
  induction os generalizing h with
  | nil => exact ⟨hs, .refl h.session⟩
  | cons o os ih =>
    obtain ⟨hadopt, hquiet⟩ := hs.adopt
    obtain ⟨hall, hrest⟩ := ih hadopt
    exact ⟨hall, hquiet.trans hrest⟩

-- All that has arrived is taken on, and nothing waits any more.
theorem drain (hs : h.Sound h.session.outcomes.items) :
    h.drain.Sound h.drain.session.outcomes.items ∧ h.drain.session.steps = h.session.steps ∧
      ∀ id, h.session.Gone id → h.drain.session.Gone id := by
  -- loads first, with the outcomes still waiting, and then these
  let cleared : History α σ := ⟨{ h.session with control := h.session.control.clear }, h.deeds⟩
  have hcleared : cleared.Sound h.session.outcomes.items :=
    ⟨hs.slot, hs.alive, hs.fresh, hs.old, hs.gone, hs.discarded⟩
  obtain ⟨hreceived, hquiet⟩ := hcleared.receive_all h.session.control.items
  let received := h.session.control.items.foldl History.receive cleared
  let taken : History α σ :=
    ⟨{ received.session with outcomes := received.session.outcomes.clear }, received.deeds⟩
  have hwaiting : received.session.outcomes.items = h.session.outcomes.items := by
    rw [hquiet.outcomes]
  have htaken : taken.Sound received.session.outcomes.items := by
    rw [hwaiting]
    exact ⟨hreceived.slot, hreceived.alive, hreceived.fresh, hreceived.old, hreceived.gone,
      hreceived.discarded⟩
  obtain ⟨hall, hrest⟩ := htaken.adopt_all
  change h.drain.Sound [] at hall
  have hnone : h.drain.session.outcomes.items = [] := congrArg Queue.items hrest.outcomes
  rw [hnone]
  exact ⟨hall, hrest.steps.trans hquiet.steps, fun id hid => hrest.gone id (hquiet.gone id hid)⟩

end Sound

end History

end SampleStream
