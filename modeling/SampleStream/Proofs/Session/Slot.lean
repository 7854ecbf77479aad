import SampleStream.Proofs.Session.History

/-!
# The slot of the processor

What the slot holds follows from what was decided so far: the module in it is always that of the last
adoption, parked exactly while a newer load is on its way. `Slot` is this invariant, and every decision
keeps it.
-/

namespace SampleStream

universe u

variable {σ : Type u}

namespace Deed

variable {deeds : List Deed} {g id : Nat}

theorem adopted_mem_of_last (h : lastAdopted? deeds = some (g, id)) : .adopted g id ∈ deeds := by
  obtain ⟨deed, hmem, hdeed⟩ := List.exists_of_findSome?_eq_some h
  cases deed with
  | adopted => cases hdeed; exact hmem
  | _ => cases hdeed

theorem mem_arrived_of_last (h : lastAdopted? deeds = some (g, id)) : id ∈ arrived deeds :=
  List.mem_filterMap.mpr ⟨_, adopted_mem_of_last h, rfl⟩

-- Modules have one number each, so the last adoption is the one that counts for its module.
theorem generationOf_of_last (h : lastAdopted? deeds = some (g, id)) :
    generationOf? deeds id = some g := by
  induction deeds with
  | nil => cases h
  | cons deed deeds ih =>
    cases deed with
    | adopted g' id' =>
      cases h
      simp [generationOf?]
    | _ => exact ih h

end Deed

/-- The slot agrees with the deeds. -/
structure Slot (p : Processor σ) (deeds : List Deed) : Prop where
  ready_iff : p.state = .ready ↔ p.active.isSome = true
  parked : p.parked.isSome = true → p.state = .loading
  /-- Whatever is in the slot is the module adopted last. -/
  holds : ∀ id, p.Holds id → ∃ g, Deed.lastAdopted? deeds = some (g, id)
  latest : Deed.latest? deeds = none ∧ p.generation = 0 ∨
    ∃ forwarded, Deed.latest? deeds = some (p.generation, forwarded)
  /-- The latest load is waited for until it was refused, failed or was adopted. -/
  settled : p.state ≠ .loading → Deed.latest? deeds = none ∨
    Deed.latest? deeds = some (p.generation, false) ∨ .failed p.generation ∈ deeds ∨
      ∃ id, Deed.lastAdopted? deeds = some (p.generation, id)
  bound : ∀ g id, Deed.lastAdopted? deeds = some (g, id) →
    g ≤ p.generation ∧ (p.state = .loading → g < p.generation)
  order : (Deed.steppedGenerations deeds).Pairwise (· ≥ ·)
  below : ∀ g ∈ Deed.steppedGenerations deeds,
    ∃ last id, Deed.lastAdopted? deeds = some (last, id) ∧ g ≤ last

namespace Slot

variable {p : Processor σ} {deeds : List Deed}

-- The active and the parked place are never both taken.
theorem exclusive (h : Slot p deeds) : p.active = none ∨ p.parked = none := by
  cases hactive : p.active with
  | none => exact .inl rfl
  | some a =>
    refine .inr ?_
    have hready : p.state = .ready := h.ready_iff.mpr (by rw [hactive]; rfl)
    cases hparked : p.parked with
    | none => rfl
    | some b =>
      have hloading := h.parked (by rw [hparked]; rfl)
      rw [hready] at hloading
      cases hloading

theorem active_eq_none (h : Slot p deeds) (hstate : p.state = .loading) : p.active = none := by
  cases hactive : p.active with
  | none => rfl
  | some a =>
    have hready : p.state = .ready := h.ready_iff.mpr (by rw [hactive]; rfl)
    rw [hstate] at hready
    cases hready

theorem begun (h : Slot p deeds) : Slot p.begun (.received (p.generation + 1) true :: deeds) where
  ready_iff := by simp [Processor.begun]
  parked := fun _ => rfl
  holds := fun id hid => h.holds id (Processor.holds_of_begun hid)
  latest := .inr ⟨true, rfl⟩
  settled := fun hstate => absurd rfl hstate
  bound := fun g id hlast => by
    have hle := (h.bound g id hlast).1
    exact ⟨Nat.le_succ_of_le hle, fun _ => Nat.lt_succ_of_le hle⟩
  order := h.order
  below := h.below

-- What is left in the slot after a refusal or a failure is not waited for.
theorem resumed_state (p : Processor σ) (held : Option (Active σ)) :
    (p.resumed held).state ≠ .loading ∧
      ((p.resumed held).state = .ready ↔ (p.resumed held).active.isSome = true) := by
  cases held <;> simp [Processor.resumed]

theorem denied (h : Slot p deeds) :
    Slot p.denied (.received (p.generation + 1) false :: deeds) where
  ready_iff := (resumed_state _ _).2
  parked := fun hsome => by cases hsome
  holds := fun id hid => h.holds id (Processor.holds_of_denied hid)
  latest := .inr ⟨false, rfl⟩
  settled := fun _ => .inr (.inl rfl)
  bound := fun g id hlast => by
    have hle := (h.bound g id hlast).1
    exact ⟨Nat.le_succ_of_le hle, fun hstate => absurd hstate (resumed_state _ _).1⟩
  order := h.order
  below := h.below

theorem adopting (h : Slot p deeds) (a : Active σ) :
    Slot (p.adopting a) (.adopted p.generation a.module.id :: deeds) where
  ready_iff := by simp [Processor.adopting]
  parked := fun hsome => by cases hsome
  holds := fun id hid => ⟨p.generation, by rw [Processor.holds_of_adopting hid]; rfl⟩
  latest := h.latest
  settled := fun _ => .inr (.inr (.inr ⟨a.module.id, rfl⟩))
  bound := fun g id hlast => by
    cases hlast
    exact ⟨Nat.le_refl _, fun hloading => by cases hloading⟩
  order := h.order
  below := fun g hg => by
    obtain ⟨last, id, hlast, hle⟩ := h.below g hg
    exact ⟨p.generation, a.module.id, rfl, Nat.le_trans hle (h.bound last id hlast).1⟩

-- The latest load failed, so that what was parked is back.
theorem failed_current (h : Slot p deeds) :
    Slot (p.resumed p.parked) (.failed p.generation :: deeds) where
  ready_iff := (resumed_state _ _).2
  parked := fun hsome => by cases hsome
  holds := fun id hid => h.holds id (Processor.holds_of_resumed hid)
  latest := h.latest
  settled := fun _ => .inr (.inr (.inl List.mem_cons_self))
  bound := fun g id hlast =>
    ⟨(h.bound g id hlast).1, fun hstate => absurd hstate (resumed_state _ _).1⟩
  order := h.order
  below := h.below

-- A deed that is neither a receipt nor an adoption nor a step changes nothing in the slot.
theorem noted (h : Slot p deeds) {deed : Deed}
    (hdeed : (∃ g, deed = .failed g) ∨ ∃ g id, deed = .discarded g id) : Slot p (deed :: deeds) := by
  have hsame : Deed.latest? (deed :: deeds) = Deed.latest? deeds ∧
      Deed.lastAdopted? (deed :: deeds) = Deed.lastAdopted? deeds ∧
      Deed.steppedGenerations (deed :: deeds) = Deed.steppedGenerations deeds := by
    rcases hdeed with ⟨g, rfl⟩ | ⟨g, id, rfl⟩
    · exact ⟨rfl, rfl, rfl⟩
    · exact ⟨rfl, rfl, rfl⟩
  obtain ⟨hlatest, hadopted, hstepped⟩ := hsame
  exact {
    ready_iff := h.ready_iff
    parked := h.parked
    holds := by rw [hadopted]; exact h.holds
    latest := by rw [hlatest]; exact h.latest
    settled := fun hstate => by
      rw [hlatest, hadopted]
      rcases h.settled hstate with hnone | hrefused | hfailed | hadopted
      · exact .inl hnone
      · exact .inr (.inl hrefused)
      · exact .inr (.inr (.inl (List.mem_cons_of_mem _ hfailed)))
      · exact .inr (.inr (.inr hadopted))
    bound := by rw [hadopted]; exact h.bound
    order := by rw [hstepped]; exact h.order
    below := by rw [hstepped, hadopted]; exact h.below }

-- A step of the active module is one of the module adopted last.
theorem stepped (h : Slot p deeds) {g id : Nat} (hlast : Deed.lastAdopted? deeds = some (g, id)) :
    Slot p (.stepped g id :: deeds) where
  ready_iff := h.ready_iff
  parked := h.parked
  holds := h.holds
  latest := h.latest
  settled := fun hstate => by
    rcases h.settled hstate with hnone | hrefused | hfailed | hadopted
    · exact .inl hnone
    · exact .inr (.inl hrefused)
    · exact .inr (.inr (.inl (List.mem_cons_of_mem _ hfailed)))
    · exact .inr (.inr (.inr hadopted))
  bound := h.bound
  order := by
    change (g :: Deed.steppedGenerations deeds).Pairwise (· ≥ ·)
    refine List.pairwise_cons.mpr ⟨fun g' hg' => ?_, h.order⟩
    -- earlier steps are of loads no later than the last adoption, which is this one's
    obtain ⟨last, id', hlast', hle⟩ := h.below g' hg'
    rw [hlast] at hlast'
    cases hlast'
    exact hle
  below := fun g' hg' => by
    change g' ∈ g :: Deed.steppedGenerations deeds at hg'
    rcases List.mem_cons.mp hg' with rfl | hg'
    · exact ⟨g', id, hlast, Nat.le_refl _⟩
    · exact h.below g' hg'

-- The invariant is about numbers, not about how far the module has come.
theorem congr (h : Slot p deeds) {q : Processor σ} (hstate : q.state = p.state)
    (hactive : q.active.map (·.module.id) = p.active.map (·.module.id)) (hparked : q.parked = p.parked)
    (hgeneration : q.generation = p.generation) : Slot q deeds := by
  have hholds : ∀ id, q.Holds id → p.Holds id := by
    rintro id ⟨a, ha | ha, rfl⟩
    · rw [ha] at hactive
      obtain ⟨b, hb, hid⟩ := Option.map_eq_some_iff.mp hactive.symm
      exact ⟨b, .inl hb, hid⟩
    · exact ⟨a, .inr (hparked ▸ ha), rfl⟩
  have hsome : q.active.isSome = p.active.isSome := by
    rw [← Option.isSome_map (f := (·.module.id)), hactive, Option.isSome_map]
  exact {
    ready_iff := by rw [hstate, hsome]; exact h.ready_iff
    parked := by rw [hstate, hparked]; exact h.parked
    holds := fun id hid => h.holds id (hholds id hid)
    latest := by rw [hgeneration]; exact h.latest
    settled := by rw [hgeneration, hstate]; exact h.settled
    bound := by rw [hgeneration, hstate]; exact h.bound
    order := h.order
    below := h.below }

-- Once nothing is waited for, the latest load was refused, failed or was adopted, so only a refused or a
-- failed one leaves an earlier module in the slot.
theorem superseded (h : Slot p deeds) (hstate : p.state ≠ .loading) {g id : Nat}
    (hlast : Deed.lastAdopted? deeds = some (g, id)) (hlt : g < p.generation) :
    Deed.latest? deeds = some (p.generation, false) ∨ .failed p.generation ∈ deeds := by
  rcases h.settled hstate with hnone | hrefused | hfailed | ⟨id', hadopted⟩
  · rcases h.latest with ⟨-, hzero⟩ | ⟨forwarded, hsome⟩
    · omega
    · rw [hnone] at hsome
      cases hsome
  · exact .inl hrefused
  · exact .inr hfailed
  · rw [hlast] at hadopted
    cases hadopted
    omega

theorem settled_of_forwarded (h : Slot p deeds) (hstate : p.state ≠ .loading) {g : Nat}
    (hforwarded : Deed.latest? deeds = some (g, true)) : Deed.Settled deeds g := by
  have hlatest : g = p.generation := by
    rcases h.latest with ⟨hnone, -⟩ | ⟨forwarded, hsome⟩
    · rw [hforwarded] at hnone
      cases hnone
    · rw [hforwarded] at hsome
      cases hsome
      rfl
  subst hlatest
  rcases h.settled hstate with hnone | hrefused | hfailed | ⟨id, hadopted⟩
  · rw [hforwarded] at hnone
    cases hnone
  · rw [hforwarded] at hrefused
    cases hrefused
  · exact .inl hfailed
  · exact .inr ⟨id, .inl (Deed.adopted_mem_of_last hadopted)⟩

end Slot

end SampleStream
