import SampleStream.Proofs.Session.Ledger

/-!
# Sessions at rest

When nothing is on its way any more, the order in which the parts took their turns makes no difference:
the module of the last load is active if there is one, and otherwise the one that was adopted last. The
slot always holds the module adopted last (`Keeps`), and what became of the last load is in the ledger.
-/

namespace SampleStream

universe u v

variable {α : Type v} {σ : Type u}

theorem Deed.received_mem_of_latest {deeds : List Deed} {g : Nat} {forwarded : Bool}
    (h : latest? deeds = some (g, forwarded)) : .received g forwarded ∈ deeds := by
  obtain ⟨deed, hmem, hdeed⟩ := List.exists_of_findSome?_eq_some h
  cases deed with
  | received => cases hdeed; exact hmem
  | _ => cases hdeed

/-- The slot holds the module adopted last, active or parked. -/
def Processor.Keeps (p : Processor σ) (deeds : List Deed) : Prop :=
  (p.active.or p.parked).map (·.module.id) = (Deed.lastAdopted? deeds).map Prod.snd

namespace History

variable {h : History α σ}

theorem keeps_receive (hk : h.session.processor.Keeps h.deeds)
    (hslot : h.session.processor.active = none ∨ h.session.processor.parked = none) (source : α) :
    (h.receive source).session.processor.Keeps (h.receive source).deeds := by
  rcases h.receive_cases source hslot with ⟨requests, -, heq⟩ | heq
  · rw [heq]
    exact hk
  · rw [heq]
    exact (congrArg (Option.map _) Option.or_none).trans hk

theorem keeps_adopt (hk : h.session.processor.Keeps h.deeds)
    (hslot : h.session.processor.state = .loading → h.session.processor.active = none)
    (o : LoadOutcome σ) : (h.adopt o).session.processor.Keeps (h.adopt o).deeds := by
  unfold History.adopt
  by_cases hcurrent : h.session.Current o
  · have hactive := hslot hcurrent.2
    cases o with
    | loaded p =>
      obtain ⟨requests, trace, heq, -, -⟩ := Session.adopt_loaded_current hcurrent hactive
      dsimp only
      rw [if_pos hcurrent, heq]
      rfl
    | failed generation =>
      -- what was parked is active again
      unfold Processor.Keeps at hk
      rw [hactive, Option.none_or] at hk
      rw [Session.adopt_failed_current hcurrent hactive]
      exact (congrArg (Option.map _) Option.or_none).trans hk
  · cases o with
    | loaded p =>
      obtain ⟨requests, trace, heq, -, -⟩ := Session.retire_eq p.module h.session
      dsimp only
      rw [if_neg hcurrent, Session.adopt_loaded_late hcurrent, heq]
      exact hk
    | failed generation =>
      rw [Session.adopt_failed_late hcurrent]
      exact hk

theorem keeps_link {config : Config} {s : Session α σ} (hlink : Session.link? config = some s) :
    s.processor.Keeps [] := by
  unfold Session.link? at hlink
  split at hlink
  · cases hlink
    rfl
  · cases hlink

variable [CompiledModule σ]

theorem Sound.keeps_process (hs : h.Sound h.session.outcomes.items)
    (hk : h.session.processor.Keeps h.deeds) (channels : List (List Sample)) :
    (h.process channels).session.processor.Keeps (h.process channels).deeds := by
  have htaken : h.taken.session.processor.Keeps h.taken.deeds :=
    hs.taken_induction (P := fun k _ _ => k.session.processor.Keeps k.deeds) hk
      (fun _ source _ _ hsound hkeeps => keeps_receive hkeeps hsound.slot.exclusive source)
      (fun _ _ hkeeps => hkeeps)
      (fun _ o _ hsound hkeeps => keeps_adopt hkeeps hsound.slot.active_eq_none o)
  have hlast : Deed.lastAdopted? (h.process channels).deeds = Deed.lastAdopted? h.taken.deeds := by
    rcases hs.process_deeds channels with hdeeds | ⟨g, id, hdeeds⟩
    · rw [hdeeds]
    · rw [hdeeds]
      rfl
  obtain ⟨acks, trace, active, ackPending, stats, heq, hactive, -⟩ := hs.process_eq channels
  unfold Processor.Keeps at htaken ⊢
  rw [hlast, ← htaken, heq, Option.map_or, Option.map_or, hactive]

theorem Sound.keeps_move (hs : h.Sound h.session.outcomes.items)
    (hk : h.session.processor.Keeps h.deeds) {move : Move α σ}
    (halive : (h.move move).session.processorAlive = true) :
    (h.move move).session.processor.Keeps (h.move move).deeds := by
  obtain ⟨-, ⟨turn, -, -, hturn⟩ | ⟨controllerAlive, workerAlive, hgone⟩⟩ := move_cases halive
  · rw [hturn]
    rcases h.turn_cases turn with ⟨channels, rfl⟩ | ⟨load, next, rfl, hnext, heq⟩ |
      ⟨sent, control, acks, reports, heq⟩
    · exact hs.keeps_process hk channels
    · obtain ⟨requests, outcomes, reports, loads, trace, rfl⟩ := Session.handleNext_eq hnext
      rw [heq]
      exact hk
    · rw [heq]
      exact hk
  · rw [hgone]
    exact hk

-- So these hold of every history as long as its processor is there.
theorem keeps_through {config : Config} {s : Session α σ} (hlink : Session.link? config = some s)
    (moves : List (Move α σ)) (halive : (History.through ⟨s, []⟩ moves).session.processorAlive = true) :
    let k := History.through ⟨s, []⟩ moves
    k.Sound k.session.outcomes.items ∧ Underway k.session k.session.outcomes.items ∧
      k.session.processor.Keeps k.deeds :=
  through_induction (P := fun k => k.Sound k.session.outcomes.items ∧
      Underway k.session k.session.outcomes.items ∧ k.session.processor.Keeps k.deeds)
    ⟨Sound.link hlink, underway_link hlink, keeps_link hlink⟩
    (fun _ _ ⟨hs, hu, hk⟩ halive => ⟨hs.move halive, hs.underway_move hu halive, hs.keeps_move hk halive⟩)
    moves halive

end History

/-- Nothing is on its way: no load to be taken on or to be tried, and no outcome. -/
structure Session.AtRest (s : Session α σ) : Prop where
  control : s.control.items = []
  requests : Request.loads s.requests.items = []
  outcomes : s.outcomes.items = []

/-- The load whose module is active. -/
def History.activeGeneration (h : History α σ) : Option Nat :=
  h.session.processor.active.bind (Deed.generationOf? h.deeds ·.module.id)

namespace Ledger

/-- The last load that was sent gave this module. -/
def LastGave (l : Ledger α σ) (id : Nat) : Prop :=
  (l.history.session.sent, some id) ∈ l.attempts.map Attempt.result

instance (l : Ledger α σ) (id : Nat) : Decidable (l.LastGave id) :=
  inferInstanceAs (Decidable (_ ∈ _))

/-- What a session has come to. -/
structure Settled (l : Ledger α σ) : Prop where
  idle : l.history.session.processor.state ≠ .loading
  latest : ∀ id, l.LastGave id → l.history.session.processor.state = .ready ∧
    l.history.session.processor.active.map (·.module.id) = some id ∧
    l.history.activeGeneration = some l.history.session.sent
  /-- Without a last load, or when it was refused or failed, the module adopted last is active. -/
  otherwise : (∀ id, ¬l.LastGave id) →
    (l.history.session.sent = 0 ∨ .received l.history.session.sent false ∈ l.history.deeds ∨
      (l.history.session.sent, none) ∈ l.attempts.map Attempt.result) ∧
    match Deed.lastAdopted? l.history.deeds with
    | some (_, id) => l.history.session.processor.state = .ready ∧
        l.history.session.processor.active.map (·.module.id) = some id
    | none => l.history.session.processor.state = .unloaded ∧
        l.history.session.processor.active = none

end Ledger

namespace Slot

variable {p : Processor σ} {deeds : List Deed}

-- A processor that waits for nothing has the module adopted last active, if there is one.
theorem rested (hslot : Slot p deeds) (hkeeps : p.Keeps deeds) (hidle : p.state ≠ .loading) :
    match Deed.lastAdopted? deeds with
    | some (_, id) => p.state = .ready ∧ p.active.map (·.module.id) = some id
    | none => p.state = .unloaded ∧ p.active = none := by
  have hparked : p.parked = none := by
    cases hparked : p.parked with
    | none => rfl
    | some a => exact absurd (hslot.parked (by rw [hparked]; rfl)) hidle
  unfold Processor.Keeps at hkeeps
  rw [hparked, Option.or_none] at hkeeps
  cases hlast : Deed.lastAdopted? deeds with
  | some last =>
    obtain ⟨g, id⟩ := last
    rw [hlast] at hkeeps
    refine ⟨hslot.ready_iff.mpr ?_, hkeeps⟩
    rw [← Option.isSome_map (f := (·.module.id)), hkeeps]
    rfl
  | none =>
    rw [hlast] at hkeeps
    have hactive : p.active = none := Option.map_eq_none_iff.mp hkeeps
    refine ⟨?_, hactive⟩
    cases hstate : p.state with
    | unloaded => rfl
    | loading => exact absurd hstate hidle
    | ready =>
      have hsome := hslot.ready_iff.mp hstate
      rw [hactive] at hsome
      cases hsome

end Slot

namespace Balanced

variable {l : Ledger α σ}

-- At rest every attempt has been answered.
theorem results_at_rest (hb : Balanced l l.history.session.control.items l.history.session.outcomes.items)
    (hrest : l.history.session.AtRest) (result : Nat × Option Nat) :
    result ∈ l.attempts.map Attempt.result ↔ result ∈ Deed.results l.history.deeds := by
  rw [hb.answered, hrest.outcomes, List.map_nil, List.append_nil, List.mem_reverse]

-- What the last load has come to: there was none, it was refused, it failed or its module was adopted.
theorem last_cases (hb : Balanced l l.history.session.control.items l.history.session.outcomes.items)
    (hslot : Slot l.history.session.processor l.history.deeds)
    (hidle : l.history.session.processor.state ≠ .loading) (hrest : l.history.session.AtRest) :
    (l.history.session.sent = 0 ∨ .received l.history.session.sent false ∈ l.history.deeds ∨
      (l.history.session.sent, none) ∈ l.attempts.map Attempt.result) ∨
    ∃ id, Deed.lastAdopted? l.history.deeds = some (l.history.session.sent, id) ∧ l.LastGave id := by
  have hsent : l.history.session.sent = l.history.session.processor.generation := by
    rw [hb.sent_eq, hrest.control]
    rfl
  unfold Ledger.LastGave
  rw [hsent, hb.results_at_rest hrest]
  rcases hslot.settled hidle with hnone | hrefused | hfailed | ⟨id, hadopted⟩
  · rcases hslot.latest with ⟨-, hzero⟩ | ⟨forwarded, hsome⟩
    · exact .inl (.inl hzero)
    · rw [hnone] at hsome
      cases hsome
  · exact .inl (.inr (.inl (Deed.received_mem_of_latest hrefused)))
  · exact .inl (.inr (.inr (List.mem_filterMap.mpr ⟨_, hfailed, rfl⟩)))
  · refine .inr ⟨id, hadopted, ?_⟩
    rw [hb.results_at_rest hrest]
    exact List.mem_filterMap.mpr ⟨_, Deed.adopted_mem_of_last hadopted, rfl⟩

theorem settled (hb : Balanced l l.history.session.control.items l.history.session.outcomes.items)
    (hslot : Slot l.history.session.processor l.history.deeds)
    (hunderway : Underway l.history.session l.history.session.outcomes.items)
    (hkeeps : l.history.session.processor.Keeps l.history.deeds) (hrest : l.history.session.AtRest) :
    l.Settled := by
  have hidle : l.history.session.processor.state ≠ .loading := fun hloading => by
    have hmem := hunderway.loading_iff.mp hloading
    unfold Session.tags at hmem
    rw [hrest.outcomes, hrest.requests] at hmem
    cases hmem
  have hrested := hslot.rested hkeeps hidle
  refine ⟨hidle, fun id hgave => ?_, fun hnone => ⟨?_, hrested⟩⟩
  · have hforwarded : l.history.session.sent ∈ l.forwarded.map Prod.fst := by
      obtain ⟨a, ha, hresult⟩ := List.mem_map.mp hgave
      have hnumber : a.generation = l.history.session.sent := congrArg Prod.fst hresult
      rw [← hnumber]
      exact l.tried_sublist.subset (List.mem_map_of_mem ha)
    rcases hb.last_cases hslot hidle hrest with (hzero | hrefused | hfailed) | ⟨id', hadopted, hgave'⟩
    · rw [hzero] at hforwarded
      exact absurd (hb.bounds 0 hforwarded).1 (Nat.lt_irrefl 0)
    · exact absurd hforwarded (hb.apart _ hrefused)
    · cases l.result_unique hb.order hgave hfailed
    · cases l.result_unique hb.order hgave hgave'
      rw [hadopted] at hrested
      obtain ⟨hready, hactive⟩ := hrested
      refine ⟨hready, hactive, ?_⟩
      obtain ⟨a, ha, hid⟩ := Option.map_eq_some_iff.mp hactive
      unfold History.activeGeneration
      rw [ha, Option.bind_some, hid]
      exact Deed.generationOf_of_last hadopted
  · rcases hb.last_cases hslot hidle hrest with hlast | ⟨id, -, hgave⟩
    · exact hlast
    · exact absurd hgave (hnone id)

end Balanced

namespace Ledger

variable [CompiledModule σ]

-- A session at rest has settled, whatever has happened in it.
theorem settled_through {config : Config} {s : Session α σ} (hlink : Session.link? config = some s)
    (moves : List (Move α σ)) (halive : (History.through ⟨s, []⟩ moves).session.processorAlive = true)
    (hrest : (History.through ⟨s, []⟩ moves).session.AtRest) : ((start s).through moves).Settled := by
  have hhistory : ((start s).through moves).history = History.through ⟨s, []⟩ moves :=
    history_through (start s) moves
  have hbalanced := balanced_through hlink moves halive
  have hinvariant := History.keeps_through hlink moves halive
  rw [← hhistory] at hbalanced hinvariant hrest
  obtain ⟨hs, hu, hk⟩ := hinvariant
  exact hbalanced.settled hs.slot hu hk hrest

/-- Whatever has happened in a session whose processor is there: when nothing is on its way, the module of
the last load is active, or the one adopted last if the last load gave none. So two sessions at rest to
which as many loads were sent agree on the load that is active, if the last one gave a module in both. -/
theorem settles_at_rest {config : Config} {s : Session α σ} (hlink : Session.link? config = some s)
    (moves : List (Move α σ)) (halive : (History.through ⟨s, []⟩ moves).session.processorAlive = true)
    (hrest : (History.through ⟨s, []⟩ moves).session.AtRest) :
    let l := (start s).through moves
    l.history = History.through ⟨s, []⟩ moves ∧ l.Settled ∧
      ∀ (other : Config) (t : Session α σ) (others : List (Move α σ)),
        Session.link? other = some t →
        (History.through ⟨t, []⟩ others).session.processorAlive = true →
        (History.through ⟨t, []⟩ others).session.AtRest →
        let k := (start t).through others
        k.history.session.sent = l.history.session.sent →
        (∃ id, l.LastGave id) → (∃ id, k.LastGave id) →
        k.history.activeGeneration = l.history.activeGeneration := by
  intro l
  have hsettled := settled_through hlink moves halive hrest
  refine ⟨history_through (start s) moves, hsettled, ?_⟩
  intro other t others hother hthere hresting k hsent ⟨id, hgave⟩ ⟨id', hgave'⟩
  have hlast := (hsettled.latest id hgave).2.2
  have hlast' := ((settled_through hother others hthere hresting).latest id' hgave').2.2
  exact (hlast'.trans (congrArg some hsent)).trans hlast.symm

/-- The second module is adopted after the first in one session, and instead of it in the other. -/
theorem settles_at_rest_interleaved :
    let load : Unit → Except LoadError CannedModule := fun _ => .ok ⟨[], .ok 0, .ok ⟨0⟩, []⟩
    let s : Session Unit CannedModule := {
      quantum := 1, scratchBytes := 4, control := .empty 2, requests := .empty 2, outcomes := .empty 2
      acks := .empty 1, reports := .empty 1 }
    let moves : List (Move Unit CannedModule) := [.turn (.load ()), .turn (.process []),
      .turn (.handle load), .turn (.process []), .turn (.load ()), .turn (.process []),
      .turn (.handle load), .turn (.process [])]
    let others : List (Move Unit CannedModule) := [.turn (.load ()), .turn (.load ()),
      .turn (.process []), .turn (.handle load), .turn (.handle load), .turn (.process [])]
    let l := (start s).through moves
    let k := (start s).through others
    Session.link? {
      quantumSize := 1, controlCapacity := 2, loaderCapacity := 2, eventCapacity := 1 } = some s ∧
    (History.through ⟨s, []⟩ moves).session.processorAlive = true ∧
    (History.through ⟨s, []⟩ moves).session.AtRest ∧ l.Settled ∧
    k.history.activeGeneration = l.history.activeGeneration ∧ l.history.activeGeneration = some 2 := by
  intro load s moves others l k
  have hlink : Session.link? {
      quantumSize := 1, controlCapacity := 2, loaderCapacity := 2, eventCapacity := 1 } = some s := rfl
  have halive : (History.through ⟨s, []⟩ moves).session.processorAlive = true := by decide +kernel
  have hrest : (History.through ⟨s, []⟩ moves).session.AtRest :=
    ⟨by decide +kernel, by decide +kernel, by decide +kernel⟩
  have hresting : (History.through ⟨s, []⟩ others).session.AtRest :=
    ⟨by decide +kernel, by decide +kernel, by decide +kernel⟩
  obtain ⟨-, hsettled, hagree⟩ := settles_at_rest hlink moves halive hrest
  have hsame := hagree _ s others hlink (by decide +kernel) hresting (by decide +kernel)
    ⟨2, by decide +kernel⟩ ⟨2, by decide +kernel⟩
  exact ⟨hlink, halive, hrest, hsettled, hsame, by decide +kernel⟩

end Ledger

end SampleStream
