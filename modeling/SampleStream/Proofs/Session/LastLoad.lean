import SampleStream.Module.Canned
import SampleStream.Proofs.Session.Turns

/-!
# The last load wins

Whatever the order of turns: a quantum steps one module at most, the one adopted last. That one gives way
only to a newer module, and is silent while a newer load is on its way.
-/

namespace SampleStream

universe u v

variable {α : Type v} {σ : Type u}

/-- What a quantum may do. -/
structure LastLoadWins (h next : History α σ) : Prop where
  once : (next.session.stepsSince h.session).length ≤ 1
  /-- The step is that of the module adopted last, and goes on record with its load. -/
  adopted_last : ∀ id ∈ next.session.stepsSince h.session, ∃ g,
    Deed.lastAdopted? next.deeds = some (g, id) ∧ next.deeds.head? = some (.stepped g id)
  not_given_up : ∀ id ∈ next.session.stepsSince h.session,
    ¬next.session.Gone id ∧ ∀ g, .discarded g id ∉ next.deeds
  /-- Loads never come back: the newest step is first. -/
  order : (Deed.steppedGenerations next.deeds).Pairwise (· ≥ ·)
  /-- The module of an earlier load is stepped only if the latest was refused or failed. -/
  superseded : ∀ id ∈ next.session.stepsSince h.session, ∀ g,
    Deed.lastAdopted? next.deeds = some (g, id) →
    g ≤ next.session.processor.generation ∧ (g < next.session.processor.generation →
      Deed.latest? next.deeds = some (next.session.processor.generation, false) ∨
        .failed next.session.processor.generation ∈ next.deeds)
  /-- While the outcome of a forwarded load is waited for, nothing is stepped. -/
  waits : ∀ g, Deed.latest? next.deeds = some (g, true) → ¬Deed.Settled next.deeds g →
    next.session.stepsSince h.session = []

namespace History

variable [CompiledModule σ] {h : History α σ}

theorem Sound.wins (hs : h.Sound h.session.outcomes.items) (channels : List (List Sample)) :
    LastLoadWins h (h.process channels) := by
  obtain ⟨hnext, -, hquantum⟩ := hs.process channels
  generalize h.process channels = next at hnext hquantum
  cases hquantum with
  | silent hsteps hdeeds =>
    exact {
      once := by rw [hsteps]; exact Nat.zero_le 1
      adopted_last := by rw [hsteps]; nofun
      not_given_up := by rw [hsteps]; nofun
      order := hnext.slot.order
      superseded := by rw [hsteps]; nofun
      waits := fun _ _ _ => hsteps }
  | stepped g id hsteps hdeeds hlast hholds hstate =>
    have hslot := hnext.slot
    have hhead : next.deeds.head? = some (.stepped g id) := by rw [hdeeds]; rfl
    have hready : next.session.processor.state ≠ .loading := by rw [hstate]; nofun
    exact {
      once := by rw [hsteps]; exact Nat.le_refl 1
      adopted_last := fun id' hid => by
        rw [hsteps, List.mem_singleton] at hid
        subst hid
        exact ⟨g, hlast, hhead⟩
      not_given_up := fun id' hid => by
        rw [hsteps, List.mem_singleton] at hid
        subst hid
        have hkept : ¬next.session.Gone id' := fun hgone => (hnext.gone id' hgone).2.2 hholds
        exact ⟨hkept, fun g' hmem => hkept (hnext.discarded g' id' hmem)⟩
      order := hslot.order
      superseded := fun id' hid g' hlast' => by
        rw [hlast] at hlast'
        cases hlast'
        exact ⟨(hslot.bound g id hlast).1, hslot.superseded hready hlast⟩
      waits := fun _ hforwarded hopen =>
        absurd (hslot.settled_of_forwarded hready hforwarded) hopen }

/-- Every quantum of a session, whatever came before it, steps the module adopted last or none; and what
was retired or discarded at any time before is not stepped any more. -/
theorem last_load_wins {config : Config} {s : Session α σ} (hlink : Session.link? config = some s)
    (turns : List (Turn α σ)) (channels : List (List Sample)) :
    let h := History.after ⟨s, []⟩ turns
    let next := h.process channels
    LastLoadWins h next ∧ ∀ earlier, earlier <+: turns → ∀ id ∈ next.session.stepsSince h.session,
      ¬(History.after ⟨s, []⟩ earlier).session.Gone id := by
  intro h next
  have hs : h.Sound h.session.outcomes.items := ((Sound.link hlink).after turns).1
  have hwins : LastLoadWins h next := hs.wins channels
  refine ⟨hwins, fun earlier hprefix id hid hgone => ?_⟩
  obtain ⟨rest, rfl⟩ := hprefix
  -- What is gone stays gone, through the rest of the turns and the quantum.
  have hearlier := ((Sound.link hlink).after earlier).1
  have hlater : h.session.Gone id := by
    change (History.after ⟨s, []⟩ (earlier ++ rest)).session.Gone id
    rw [after_append]
    exact (hearlier.after rest).2 id hgone
  exact (hwins.not_given_up id hid).1 ((hs.process channels).2.1 id hlater)

/-- A second load replaces the first, whose module was stepped before. -/
theorem last_load_wins_replaced :
    let load : Unit → Except LoadError CannedModule := fun _ => .ok ⟨[], .ok 0, .ok ⟨0⟩, []⟩
    let s : Session Unit CannedModule := {
      quantum := 1, scratchBytes := 4, control := .empty 2, requests := .empty 2, outcomes := .empty 2
      acks := .empty 1, reports := .empty 1 }
    let h := History.after ⟨s, []⟩ [.load (), .process [], .handle load, .process [], .load (),
      .process [], .handle load]
    let next := h.process []
    Session.link? {
      quantumSize := 1, controlCapacity := 2, loaderCapacity := 2, eventCapacity := 1 } = some s ∧
    LastLoadWins h next ∧ h.session.steps = [1] ∧ next.session.stepsSince h.session = [2] := by
  intro load s h next
  have hlink : Session.link? {
      quantumSize := 1, controlCapacity := 2, loaderCapacity := 2, eventCapacity := 1 } = some s := rfl
  exact ⟨hlink, (last_load_wins hlink _ []).1, by decide, by decide⟩

end History

end SampleStream
