import SampleStream.Proofs.Session.Output

/-!
# Failed quanta

What a quantum that counts as failed leaves behind. The module keeps its place in the slot, and nothing else of
the processor changes. If the step itself failed, the module is stepped from the same continuation again; if
the step succeeded and its samples cannot be read, the position has moved on to the successor.
-/

namespace SampleStream

universe u v

variable {α : Type v} {σ : Type u} [CompiledModule σ]

-- A module that is not heard goes on from where it was, or from the successor that it gave.
theorem Active.next_of_failed (a : Active σ) {quantum : Nat} {channels : List (List Sample)}
    (h : (∀ next, (a.stepped quantum).1 ≠ .done next) ∨ (a.decoded quantum channels).2 = false) :
    ((∀ next, (a.stepped quantum).1 ≠ .done next) ∧ a.next quantum = a.current) ∨
      ∃ next, (a.stepped quantum).1 = .done next ∧ a.next quantum = next ∧
        ∃ channel ∈ channels, ¬Fits (CompiledModule.memory (a.stepped quantum).2) a.scratch quantum channel := by
  unfold next
  cases hending : (a.stepped quantum).1 with
  | failed error => exact .inl ⟨fun _ hdone => (by cases hdone), rfl⟩
  | panicked => exact .inl ⟨fun _ hdone => (by cases hdone), rfl⟩
  | done next =>
    rcases h with hnone | hall
    · exact absurd hending (hnone next)
    · refine .inr ⟨next, rfl, rfl, ?_⟩
      by_contra hfit
      push Not at hfit
      have htrue := (Session.fillInPlace_all_iff channels).mpr hfit
      rw [decoded, htrue] at hall
      cases hall

/-- What a failed quantum makes of the active module: `a` when all that has arrived is taken on, `b`
after it. -/
structure Session.SetsBack (s : Session α σ) (channels : List (List Sample)) (a b : Active σ) : Prop where
  before : s.counted.drain.processor.active = some a
  after : (s.process channels).2.processor.active = some b
  module : b.module.id = a.module.id
  scratch : b.scratch = a.scratch
  state : s.counted.drain.processor.state = .ready ∧ (s.process channels).2.processor.state = .ready
  generation : (s.process channels).2.processor.generation = s.counted.drain.processor.generation
  parked : (s.process channels).2.processor.parked = s.counted.drain.processor.parked
  /-- the position is kept if the step fails or panics, and has moved on if the step succeeds where a channel
  reaches beyond the memory -/
  position : ((∀ next, (a.stepped s.quantum).1 ≠ .done next) ∧ b.current = a.current) ∨
    ∃ next, (a.stepped s.quantum).1 = .done next ∧ b.current = next ∧
      ∃ channel ∈ channels, ¬Fits (CompiledModule.memory (a.stepped s.quantum).2) a.scratch s.quantum channel
  /-- the next quantum steps the module from there, unless other modules have come in between -/
  retried : ∀ c, (s.process channels).2.counted.drain.processor.active = some c →
    c.module.id = a.module.id → c = b

namespace History

variable {h : History α σ}

theorem Sound.setsBack (hs : h.Sound h.session.outcomes.items) {channels : List (List Sample)}
    (hfailed : (h.session.process channels).2.processor.stats.failed =
      h.session.processor.stats.failed + 1) : ∃ a b, h.session.SetsBack channels a b := by
  have hsession : h.taken.session = h.session.counted.drain := drain_session _
  have hends := hs.ends channels
  have hverdict : h.session.verdict channels = .failed := by
    have hcount := Nat.add_left_cancel (hends.failed.symm.trans hfailed)
    by_contra hother
    rw [if_neg hother] at hcount
    cases hcount
  obtain ⟨requests, outcomes, trace, processor, htaken, -⟩ := hs.taken_eq
  have hquantum : h.taken.session.quantum = h.session.quantum := by rw [htaken]
  have hheard := hends.heard
  rw [hverdict, ← hsession] at hheard
  obtain ⟨hready, -, a, hactive, hcause⟩ := hheard
  rw [hquantum] at hcause
  cases hs.plays channels with
  | nothing hstate hprocess hsteps hdeeds => exact absurd hready hstate
  | module g a' hstate hactive' hlast hprocess hsteps hdeeds =>
    obtain rfl : a' = a := Option.some.inj (hactive'.symm.trans hactive)
    have hnext : (h.process channels).session =
        h.taken.session.acknowledge.afterPlaying a' channels := congrArg Prod.snd hprocess
    obtain ⟨acks, ackPending, hack⟩ := h.taken.session.acknowledge_eq
    -- acknowledging leaves the slot and the size of a quantum as they are
    have hafter : (h.session.process channels).2.processor = { h.taken.session.processor with
        ackPending, active := some (a'.play h.session.quantum channels).2
        stats := (h.session.process channels).2.processor.stats } := by
      rw [congrArg Prod.snd hprocess, Session.afterPlaying, hack, ← hquantum]
    rw [Active.play_left] at hafter
    have hkept : (h.session.process channels).2.processor.active =
        some { a' with
          module := { a'.module with state := (a'.stepped h.session.quantum).2 }
          current := a'.next h.session.quantum } := by
      rw [hafter]
    refine ⟨a', _, ?_, hkept, rfl, rfl, ?_, ?_, ?_, ?_, ?_⟩
    · rw [← hsession]
      exact hactive
    · rw [← hsession, hafter]
      exact ⟨hready, hready⟩
    · rw [← hsession, hafter]
    · rw [← hsession, hafter]
    · exact a'.next_of_failed (hcause.imp_right And.left)
    · intro c hc hid
      have hsound := (hs.process channels).1
      have hcarried : (h.process channels).session.Carries
          (h.process channels).session.outcomes.items c := by
        refine hsound.carries_of_taken (.inr (.inl ?_))
        rw [History.taken, drain_session]
        exact hc
      have hsame := (hs.active_of_carries hactive hnext hcarried).1
      exact Option.some.inj (hsame.symm.trans hkept)

/-- In every state that a session can reach while its processor is there, a quantum that counts as failed keeps
the module, its buffer, the parked one and the number of the load. Its position is kept exactly if the step
did not succeed, or succeeded with the continuation that it was given. -/
theorem failed_quantum {config : Config} {s : Session α σ} (hlink : Session.link? config = some s)
    (moves : List (Move α σ))
    (halive : (History.through ⟨s, []⟩ moves).session.processorAlive = true)
    (channels : List (List Sample))
    (hfailed : ((History.through ⟨s, []⟩ moves).session.process channels).2.processor.stats.failed =
      (History.through ⟨s, []⟩ moves).session.processor.stats.failed + 1) :
    ∃ a b, (History.through ⟨s, []⟩ moves).session.SetsBack channels a b ∧
      (b.current = a.current ↔ ∀ next,
        (a.stepped (History.through ⟨s, []⟩ moves).session.quantum).1 = .done next → next = a.current) := by
  have hstart : (⟨s, []⟩ : History α σ).Sound s.outcomes.items := Sound.link hlink
  obtain ⟨a, b, hback⟩ := (hstart.through moves halive).setsBack hfailed
  refine ⟨a, b, hback, ?_⟩
  rcases hback.position with ⟨hnone, hkept⟩ | ⟨next, hdone, hmoved, -⟩
  · exact ⟨fun _ next hnext => absurd hnext (hnone next), fun _ => hkept⟩
  · rw [hmoved]
    constructor
    · intro hsame next' hnext'
      rw [hdone] at hnext'
      cases hnext'
      exact hsame
    · exact fun hall => hall next hdone

/-- A step that succeeds with its buffer beyond the end of the memory: the quantum fails, and yet the position has
moved on from the entry to the continuation behind it. -/
theorem failed_quantum_moved :
    let canned : CannedModule := {
      memory := List.replicate 8 0, alloc := .ok 4, entry := .ok ⟨7⟩, steps := [⟨none, .done (some ⟨8⟩)⟩] }
    let config : Config := { quantumSize := 2 }
    let s : Session Unit CannedModule := {
      quantum := 2, scratchBytes := 8
      control := .empty config.controlCapacity.toNat, requests := .empty config.loaderCapacity.toNat
      outcomes := .empty config.loaderCapacity.toNat, acks := .empty config.eventCapacity.toNat
      reports := .empty config.eventCapacity.toNat }
    let moves : List (Move Unit CannedModule) := [.turn (.load ()), .turn (.process [[.zero, .zero]]),
      .turn (.handle fun _ => .ok canned)]
    let h := History.through ⟨s, []⟩ moves
    let channels : List (List Sample) := [[.zero, .zero]]
    Session.link? config = some s ∧ h.session.processorAlive = true ∧
    (h.session.process channels).2.processor.stats.failed = h.session.processor.stats.failed + 1 ∧
    (∃ a b, h.session.SetsBack channels a b ∧ (b.current = a.current ↔ ∀ next,
      (a.stepped h.session.quantum).1 = .done next → next = a.current)) ∧
    (h.session.counted.drain.processor.active.map Active.current = some ⟨7⟩) ∧
    ((h.session.process channels).2.processor.active.map Active.current = some ⟨8⟩) := by
  intro canned config s moves h channels
  have hlink : Session.link? config = some s := rfl
  have halive : h.session.processorAlive = true := by decide +kernel
  have hback := failed_quantum hlink moves halive channels (by decide +kernel)
  exact ⟨hlink, halive, by decide +kernel, hback, by decide +kernel, by decide +kernel⟩

end History

end SampleStream
