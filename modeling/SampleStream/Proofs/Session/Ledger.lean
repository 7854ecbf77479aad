import Mathlib.Data.List.Nodup
import SampleStream.Module.Canned
import SampleStream.Proofs.Session.Backlog

/-!
# Loads from end to end

Who sends loads and who takes them on count for themselves, and no load carries its number before it has
been taken on. A ledger beside the run writes down what was sent under which number, what was received
under which, and what the worker tried. `Balanced` is the invariant that its columns agree with each other,
with the counters and with the queues.
-/

namespace SampleStream

universe u v

variable {α : Type v} {σ : Type u}

/-- A load that the worker tried. -/
structure Attempt (α : Type v) where
  generation : Nat
  source : α
  /-- The module that came of it. -/
  module? : Option Nat

def Attempt.load (a : Attempt α) : Nat × α :=
  (a.generation, a.source)

def Attempt.result (a : Attempt α) : Nat × Option Nat :=
  (a.generation, a.module?)

/-- What an outcome says: the load, and its module. -/
def LoadOutcome.result : LoadOutcome σ → Nat × Option Nat
  | .loaded p => (p.generation, some p.module.id)
  | .failed generation => (generation, none)

theorem LoadOutcome.fst_result (o : LoadOutcome σ) : o.result.1 = o.generation := by
  cases o <;> rfl

/-- The loads among the requests, with their sources. -/
def Request.instantiations (rs : List (Request α σ)) : List (Nat × α) :=
  rs.filterMap fun
    | .instantiate generation source => some (generation, source)
    | .retire _ => none

theorem Request.instantiations_append (rs ts : List (Request α σ)) :
    instantiations (rs ++ ts) = instantiations rs ++ instantiations ts :=
  List.filterMap_append

theorem Request.loads_eq_map (rs : List (Request α σ)) :
    loads rs = (instantiations rs).map Prod.fst := by
  induction rs with
  | nil => rfl
  | cons r rs ih =>
    cases r with
    | instantiate generation source => exact congrArg (generation :: ·) ih
    | retire m => exact ih

/-- The outcomes taken on, the last first. -/
def Deed.results (deeds : List Deed) : List (Nat × Option Nat) :=
  deeds.filterMap fun
    | .adopted generation id | .discarded generation id => some (generation, some id)
    | .failed generation => some (generation, none)
    | _ => none

namespace Session

/-- The loads as they are received when the processor takes these sources on. -/
def receipts (s : Session α σ) : List α → List (Nat × α)
  | [] => []
  | source :: sources =>
    ((s.receive source).processor.generation, source) :: (s.receive source).receipts sources

/-- What the worker tries when it handles the request at the front of its queue. -/
def attempt [CompiledModule σ] (load : α → Except LoadError σ) (s : Session α σ) : List (Attempt α) :=
  match s.requests.items with
  | .instantiate generation source :: rest =>
    let popped := { s with requests := { s.requests with items := rest } }
    [⟨generation, source, (popped.prepare load generation source).1.toOption.map (·.module.id)⟩]
  | _ => []

end Session

/-- A run with what was written down beside it, the oldest first. -/
structure Ledger (α : Type v) (σ : Type u) where
  history : History α σ
  /-- The loads sent, under the numbers given to who sent them. -/
  sent : List (Nat × α) := []
  /-- The loads received, under the numbers that the processor gave them. -/
  received : List (Nat × α) := []
  attempts : List (Attempt α) := []

namespace Ledger

/-- The loads that the worker's queue took: they have been tried, or are with the worker. -/
def forwarded (l : Ledger α σ) : List (Nat × α) :=
  l.attempts.map Attempt.load ++ Request.instantiations l.history.session.requests.items

theorem tried_sublist (l : Ledger α σ) :
    (l.attempts.map Attempt.generation).Sublist (l.forwarded.map Prod.fst) := by
  have hattempts : l.attempts.map Attempt.generation = (l.attempts.map Attempt.load).map Prod.fst := by
    rw [List.map_map]
    rfl
  rw [hattempts]
  exact (List.sublist_append_left _ _).map Prod.fst

-- Loads that are forwarded in order are tried once, with one result.
theorem result_unique (l : Ledger α σ) (horder : (l.forwarded.map Prod.fst).Pairwise (· < ·)) {g : Nat}
    {module? other? : Option Nat} (hmem : (g, module?) ∈ l.attempts.map Attempt.result)
    (hother : (g, other?) ∈ l.attempts.map Attempt.result) : module? = other? := by
  have hdistinct : ((l.attempts.map Attempt.result).map Prod.fst).Nodup := by
    rw [List.map_map]
    exact (horder.sublist l.tried_sublist).imp fun hlt => Nat.ne_of_lt hlt
  exact congrArg Prod.snd (List.inj_on_of_nodup_map hdistinct hmem hother rfl)

variable [CompiledModule σ]

/-- The ledger after one more turn. -/
def turn (l : Ledger α σ) (turn : Turn α σ) : Ledger α σ :=
  let s := l.history.session
  let next := l.history.turn turn
  match turn with
  | .load source =>
    match (s.load source).1 with
    | .ok number => { l with history := next, sent := l.sent ++ [(number, source)] }
    | .error _ => { l with history := next }
  | .process _ =>
    { l with history := next, received := l.received ++ l.history.opened.session.receipts s.control.items }
  | .handle load => { l with history := next, attempts := l.attempts ++ s.attempt load }
  | _ => { l with history := next }

def move (l : Ledger α σ) (move : Move α σ) : Ledger α σ :=
  match move with
  | .turn turn => if turn.isPossible l.history.session then l.turn turn else l
  | move => { l with history := l.history.move move }

def through (l : Ledger α σ) (moves : List (Move α σ)) : Ledger α σ :=
  moves.foldl move l

theorem through_append (l : Ledger α σ) (moves rest : List (Move α σ)) :
    l.through (moves ++ rest) = (l.through moves).through rest :=
  List.foldl_append

-- The ledger only watches.
theorem history_turn (l : Ledger α σ) (turn : Turn α σ) : (l.turn turn).history = l.history.turn turn := by
  cases turn with
  | load source =>
    unfold Ledger.turn
    dsimp only
    split <;> rfl
  | _ => rfl

theorem history_move (l : Ledger α σ) (move : Move α σ) : (l.move move).history = l.history.move move := by
  cases move with
  | turn turn =>
    unfold Ledger.move History.move
    dsimp only
    split
    · exact l.history_turn turn
    · rfl
  | _ => rfl

theorem history_through (l : Ledger α σ) (moves : List (Move α σ)) :
    (l.through moves).history = l.history.through moves := by
  induction moves generalizing l with
  | nil => rfl
  | cons move moves ih =>
    have hnext := ih (l.move move)
    rw [l.history_move] at hnext
    exact hnext

end Ledger

namespace Session

variable {s : Session α σ}

theorem generation_receive (hslot : s.processor.active = none ∨ s.processor.parked = none) (source : α) :
    (s.receive source).processor.generation = s.processor.generation + 1 := by
  rcases receive_cases source hslot with ⟨requests, -, heq⟩ | heq
  · rw [heq]
    rfl
  · rw [heq]
    rfl

-- What an outcome asks the worker for is no load.
theorem instantiations_adopt (o : LoadOutcome σ) (s : Session α σ) :
    Request.instantiations (s.adopt o).requests.items = Request.instantiations s.requests.items := by
  rcases s.requests_adopt o with heq | ⟨m, -, hpush⟩
  · rw [heq]
  · rw [Queue.items_of_push? hpush, Request.instantiations_append]
    exact List.append_nil _

-- The load at the front of the queue is tried, and its outcome is that of the attempt.
theorem handleNext_instantiate [CompiledModule σ] {load : α → Except LoadError σ} {generation : Nat}
    {source : α} {rest : List (Request α σ)} {next : Session α σ} (halive : s.processorAlive = true)
    (hitems : s.requests.items = .instantiate generation source :: rest)
    (h : s.handleNext load = some next) :
    ∃ a o, s.attempt load = [a] ∧ a.load = (generation, source) ∧ o.result = a.result ∧
      next.requests.items = rest ∧ next.outcomes.items = s.outcomes.items ++ [o] ∧
      next.loads = s.loads + 1 := by
  let popped : Session α σ := { s with requests := { s.requests with items := rest } }
  obtain ⟨result, events, hprepare, -, hok⟩ := prepare_cases load generation source popped
  let tried : Session α σ := { popped with loads := s.loads + 1, trace := events ++ s.trace }
  have hattempt : s.attempt load = [⟨generation, source, result.toOption.map (·.module.id)⟩] := by
    unfold attempt
    rw [hitems]
    dsimp only
    rw [hprepare]
  have halive' : tried.processorAlive = true := halive
  unfold handleNext at h
  rw [hitems] at h
  change popped.handle load (.instantiate generation source) = some next at h
  unfold handle at h
  dsimp only at h
  rw [hprepare] at h
  cases result with
  | ok p =>
    change tried.deliver (.loaded p) = some next at h
    obtain ⟨outcomes, hpush, rfl⟩ := deliver_eq_some halive' h
    refine ⟨_, .loaded p, hattempt, rfl, ?_, rfl, Queue.items_of_push? hpush, rfl⟩
    exact Prod.ext (hok p rfl).1 rfl
  | error e =>
    change (tried.report ⟨generation, e⟩).deliver (.failed generation) = some next at h
    obtain ⟨reports, hreport⟩ := tried.report_eq ⟨generation, e⟩
    rw [hreport] at h
    obtain ⟨outcomes, hpush, rfl⟩ := deliver_eq_some (s := { tried with reports }) halive' h
    exact ⟨_, .failed generation, hattempt, rfl, rfl, rfl, Queue.items_of_push? hpush, rfl⟩

end Session

-- Every outcome taken on goes on record with what it says.
theorem History.results_adopt (h : History α σ) (o : LoadOutcome σ) :
    Deed.results (h.adopt o).deeds = o.result :: Deed.results h.deeds := by
  cases o with
  | loaded p =>
    unfold History.adopt
    dsimp only
    split <;> rfl
  | failed generation => rfl

theorem History.received_adopt (h : History α σ) (o : LoadOutcome σ) (g : Nat) (forwarded : Bool)
    (hg : .received g forwarded ∈ (h.adopt o).deeds) : .received g forwarded ∈ h.deeds := by
  cases o with
  | loaded p =>
    unfold History.adopt at hg
    dsimp only at hg
    split at hg
    · exact (List.mem_cons.mp hg).resolve_left nofun
    · exact (List.mem_cons.mp hg).resolve_left nofun
  | failed generation => exact (List.mem_cons.mp hg).resolve_left nofun

/-- The columns of a ledger agree, while these loads are to be taken on and these outcomes wait. -/
structure Balanced (l : Ledger α σ) (sources : List α) (waiting : List (LoadOutcome σ)) : Prop where
  /-- Who sends loads numbers them from one on. -/
  numbers : l.sent.map Prod.fst = List.range' 1 l.history.session.sent
  /-- What was sent has been received as it was sent, or is still to be taken on. -/
  arrives : ∃ pending, l.sent = l.received ++ pending ∧ pending.map Prod.snd = sources
  counted : l.received.length = l.history.session.processor.generation
  forwarded : l.forwarded.Sublist l.received
  /-- What was not forwarded was refused. -/
  refused : l.history.session.processor.generation =
    l.history.session.processor.stats.droppedLoads + l.forwarded.length
  apart : ∀ g, .received g false ∈ l.history.deeds → g ∉ l.forwarded.map Prod.fst
  bounded : ∀ g forwarded, .received g forwarded ∈ l.history.deeds →
    g ≤ l.history.session.processor.generation
  /-- What was tried has been taken on, or waits. -/
  answered : l.attempts.map Attempt.result =
    (Deed.results l.history.deeds).reverse ++ waiting.map LoadOutcome.result
  tried : l.attempts.length = l.history.session.loads

namespace Balanced

variable {l : Ledger α σ} {sources : List α} {waiting : List (LoadOutcome σ)}

-- The ledger is about messages and their numbers.
theorem congr (hb : Balanced l sources waiting) {k : History α σ}
    (hsent : k.session.sent = l.history.session.sent)
    (hgeneration : k.session.processor.generation = l.history.session.processor.generation)
    (hdropped : k.session.processor.stats.droppedLoads =
      l.history.session.processor.stats.droppedLoads)
    (hrequests : Request.instantiations k.session.requests.items =
      Request.instantiations l.history.session.requests.items)
    (hloads : k.session.loads = l.history.session.loads)
    (hresults : Deed.results k.deeds = Deed.results l.history.deeds)
    (hreceived : ∀ g forwarded, .received g forwarded ∈ k.deeds →
      .received g forwarded ∈ l.history.deeds) :
    Balanced { l with history := k } sources waiting := by
  have hforwarded : ({ l with history := k } : Ledger α σ).forwarded = l.forwarded := by
    unfold Ledger.forwarded
    rw [hrequests]
  exact {
    numbers := by rw [hsent]; exact hb.numbers
    arrives := hb.arrives
    counted := by rw [hgeneration]; exact hb.counted
    forwarded := by rw [hforwarded]; exact hb.forwarded
    refused := by rw [hforwarded, hgeneration, hdropped]; exact hb.refused
    apart := fun g hg => by rw [hforwarded]; exact hb.apart g (hreceived g false hg)
    bounded := fun g forwarded hg => by
      rw [hgeneration]
      exact hb.bounded g forwarded (hreceived g forwarded hg)
    answered := by rw [hresults]; exact hb.answered
    tried := by rw [hloads]; exact hb.tried }

-- Who receives loads gives them the numbers that they were sent under.
theorem numbered (hb : Balanced l sources waiting) :
    l.received.map Prod.fst = List.range' 1 l.history.session.processor.generation := by
  obtain ⟨pending, hsent, -⟩ := hb.arrives
  have hnumbers := hb.numbers
  rw [hsent, List.map_append] at hnumbers
  obtain ⟨count, -, hreceived, -⟩ := List.range'_eq_append_iff.mp hnumbers.symm
  have hlength := congrArg List.length hreceived
  rw [List.length_map, List.length_range', hb.counted] at hlength
  rw [hlength]
  exact hreceived

theorem sent_eq (hb : Balanced l sources waiting) :
    l.history.session.sent = l.history.session.processor.generation + sources.length := by
  obtain ⟨pending, hsent, rfl⟩ := hb.arrives
  have hlength := congrArg List.length hb.numbers
  rw [List.length_map, List.length_range', hsent, List.length_append, hb.counted] at hlength
  rw [List.length_map]
  exact hlength.symm

-- The forwarded loads, in order: their outcomes have been taken on, or they are underway.
theorem forwarded_eq (hb : Balanced l sources waiting) : l.forwarded.map Prod.fst =
    (Deed.results l.history.deeds).reverse.map Prod.fst ++ l.history.session.tags waiting := by
  have hattempts : l.attempts.map (Prod.fst ∘ Attempt.load) =
      (l.attempts.map Attempt.result).map Prod.fst := by
    rw [List.map_map]
    rfl
  have hwaiting : (waiting.map LoadOutcome.result).map Prod.fst =
      waiting.map LoadOutcome.generation := by
    rw [List.map_map]
    exact List.map_congr_left fun o _ => o.fst_result
  unfold Ledger.forwarded Session.tags
  rw [List.map_append, List.map_map, hattempts, hb.answered, List.map_append, hwaiting,
    Request.loads_eq_map, List.append_assoc]

-- They are forwarded in the order of their numbers.
theorem order (hb : Balanced l sources waiting) : (l.forwarded.map Prod.fst).Pairwise (· < ·) := by
  refine List.Pairwise.sublist (hb.forwarded.map Prod.fst) ?_
  rw [hb.numbered]
  exact List.pairwise_lt_range'

theorem bounds (hb : Balanced l sources waiting) :
    ∀ g ∈ l.forwarded.map Prod.fst, 0 < g ∧ g ≤ l.history.session.processor.generation := by
  intro g hg
  have hnumber := (hb.forwarded.map Prod.fst).subset hg
  rw [hb.numbered, List.mem_range'_1] at hnumber
  omega

-- The next load has been sent under the number that it is received under.
theorem received_next {source : α} (hb : Balanced l (source :: sources) waiting) :
    ∃ pending, l.sent =
        (l.received ++ [(l.history.session.processor.generation + 1, source)]) ++ pending ∧
      pending.map Prod.snd = sources := by
  obtain ⟨pending, hsent, hsources⟩ := hb.arrives
  obtain ⟨⟨number, _⟩, pending, rfl, rfl, rfl⟩ := List.map_eq_cons_iff.mp hsources
  have hnumbers := hb.numbers
  rw [hsent, List.map_append, hb.numbered] at hnumbers
  obtain ⟨count, -, hreceived, hrest⟩ := List.range'_eq_append_iff.mp hnumbers.symm
  have hlength := congrArg List.length hreceived
  rw [List.length_range', List.length_range'] at hlength
  obtain ⟨hfirst, -⟩ := List.range'_eq_cons_iff.mp hrest.symm
  have hnumber : number = l.history.session.processor.generation + 1 := by omega
  refine ⟨pending, ?_, rfl⟩
  rw [← hnumber, List.append_assoc]
  exact hsent

theorem receive {source : α} (hb : Balanced l (source :: sources) waiting)
    (hslot : l.history.session.processor.active = none ∨ l.history.session.processor.parked = none) :
    Balanced { l with
      history := l.history.receive source
      received := l.received ++
        [((l.history.session.receive source).processor.generation, source)] } sources waiting := by
  let next : Nat × α := (l.history.session.processor.generation + 1, source)
  have hgeneration := Session.generation_receive hslot source
  have hlength : (l.received ++ [next]).length = l.history.session.processor.generation + 1 := by
    rw [List.length_append, hb.counted]
    rfl
  have hnew : l.history.session.processor.generation + 1 ∉ l.forwarded.map Prod.fst := fun hmem =>
    Nat.not_succ_le_self _ (hb.bounds _ hmem).2
  have hbounded {forwarded : Bool} (g : Nat) (taken : Bool)
      (hg : Deed.received g taken ∈
        .received (l.history.session.processor.generation + 1) forwarded :: l.history.deeds) :
      g ≤ l.history.session.processor.generation + 1 := by
    rcases List.mem_cons.mp hg with hg | hg
    · cases hg
      exact Nat.le_refl _
    · exact Nat.le_succ_of_le (hb.bounded g taken hg)
  rw [hgeneration]
  rcases l.history.receive_cases source hslot with ⟨requests, hpush, heq⟩ | heq
  · have hall : l.attempts.map Attempt.load ++ Request.instantiations requests.items =
        l.forwarded ++ [next] := by
      rw [Queue.items_of_push? hpush, Request.instantiations_append, ← List.append_assoc]
      rfl
    rw [heq]
    exact {
      numbers := hb.numbers
      arrives := hb.received_next
      counted := hlength
      forwarded := by
        unfold Ledger.forwarded
        rw [hall]
        exact hb.forwarded.append (List.Sublist.refl [next])
      refused := by
        unfold Ledger.forwarded
        rw [hall, List.length_append]
        exact congrArg (· + 1) hb.refused
      apart := fun g hg => by
        have hg := (List.mem_cons.mp hg).resolve_left nofun
        unfold Ledger.forwarded
        rw [hall, List.map_append, List.mem_append, not_or]
        refine ⟨hb.apart g hg, fun hmem => ?_⟩
        rw [List.map_singleton, List.mem_singleton] at hmem
        exact Nat.not_succ_le_self _ (hmem ▸ hb.bounded g false hg)
      bounded := hbounded
      answered := hb.answered
      tried := hb.tried }
  · rw [heq]
    exact {
      numbers := hb.numbers
      arrives := hb.received_next
      counted := hlength
      forwarded := hb.forwarded.trans (List.sublist_append_left _ _)
      refused := by
        have hrefused := hb.refused
        change l.history.session.processor.generation + 1 =
          l.history.session.processor.stats.droppedLoads + 1 + l.forwarded.length
        omega
      apart := fun g hg => by
        rcases List.mem_cons.mp hg with hg | hg
        · cases hg
          exact hnew
        · exact hb.apart g hg
      bounded := hbounded
      answered := hb.answered
      tried := hb.tried }

theorem adopt {o : LoadOutcome σ} (hb : Balanced l sources (o :: waiting))
    (hslot : l.history.session.processor.state = .loading → l.history.session.processor.active = none) :
    Balanced { l with history := l.history.adopt o } sources waiting := by
  have hsession : (l.history.adopt o).session = l.history.session.adopt o := rfl
  obtain ⟨requests, trace, processor, heq, hgeneration, hstats⟩ := Session.adopt_eq hslot o
  have hresults := l.history.results_adopt o
  have hreceived := l.history.received_adopt o
  have hforwarded : ({ l with history := l.history.adopt o } : Ledger α σ).forwarded = l.forwarded := by
    unfold Ledger.forwarded
    rw [hsession, Session.instantiations_adopt]
  exact {
    numbers := by rw [hsession, heq]; exact hb.numbers
    arrives := hb.arrives
    counted := by rw [hsession, heq, hgeneration]; exact hb.counted
    forwarded := by rw [hforwarded]; exact hb.forwarded
    refused := by
      rw [hforwarded, hsession, heq, hgeneration, hstats]
      exact hb.refused
    apart := fun g hg => by rw [hforwarded]; exact hb.apart g (hreceived g false hg)
    bounded := fun g forwarded hg => by
      rw [hsession, heq, hgeneration]
      exact hb.bounded g forwarded (hreceived g forwarded hg)
    answered := by
      rw [hresults, List.reverse_cons, List.append_assoc]
      exact hb.answered
    tried := by rw [hsession, heq]; exact hb.tried }

variable [CompiledModule σ]

-- A quantum receives the loads in order, and then takes all outcomes on.
theorem process (hs : l.history.Sound l.history.session.outcomes.items)
    (hb : Balanced l l.history.session.control.items l.history.session.outcomes.items)
    (channels : List (List Sample)) :
    Balanced (l.turn (.process channels)) (l.history.process channels).session.control.items
      (l.history.process channels).session.outcomes.items := by
  have htaken := hs.taken_induction
    (P := fun k sources waiting => ∃ received, Balanced { l with history := k, received } sources waiting ∧
      received ++ k.session.receipts sources =
        l.received ++ l.history.opened.session.receipts l.history.session.control.items)
    ⟨l.received, hb.congr rfl rfl rfl rfl rfl rfl (fun _ _ hg => hg), rfl⟩
    (fun k source sources waiting hk ⟨received, hbalanced, htotal⟩ => by
      refine ⟨_, hbalanced.receive hk.slot.exclusive, ?_⟩
      rw [List.append_assoc]
      exact htotal)
    (fun k waiting ⟨received, hbalanced, htotal⟩ =>
      ⟨received, hbalanced.congr rfl rfl rfl rfl rfl rfl (fun _ _ hg => hg), htotal⟩)
    (fun k o os hk ⟨received, hbalanced, htotal⟩ =>
      ⟨received, hbalanced.adopt hk.slot.active_eq_none, htotal⟩)
  obtain ⟨received, hbalanced, htotal⟩ := htaken
  have hreceived : received = l.received ++
      l.history.opened.session.receipts l.history.session.control.items := by
    rw [← htotal]
    exact (List.append_nil _).symm
  subst hreceived
  -- no load is left, and no outcome
  obtain ⟨acks, trace, active, ackPending, stats, heq, -, hdropped⟩ := hs.process_eq channels
  obtain ⟨_, _, _, _, hcontrol, -⟩ := hs.taken_eq
  have hnone : (l.history.process channels).session.control.items = [] := by
    rw [heq, hcontrol]
    rfl
  have houtcomes : (l.history.process channels).session.outcomes.items = [] := by
    rw [heq]
    exact hs.taken_outcomes
  have hdeeds : Deed.results (l.history.process channels).deeds =
        Deed.results l.history.taken.deeds ∧
      ∀ g forwarded, .received g forwarded ∈ (l.history.process channels).deeds →
        .received g forwarded ∈ l.history.taken.deeds := by
    rcases hs.process_deeds channels with hdeeds | ⟨g, id, hdeeds⟩
    · rw [hdeeds]
      exact ⟨rfl, fun _ _ hg => hg⟩
    · rw [hdeeds]
      exact ⟨rfl, fun _ _ hg => (List.mem_cons.mp hg).resolve_left nofun⟩
  rw [hnone, houtcomes]
  refine hbalanced.congr (k := l.history.process channels) ?_ ?_ ?_ ?_ ?_ hdeeds.1 hdeeds.2
  · rw [heq]
  · rw [heq]
  · rw [heq]
    exact hdropped
  · rw [heq]
  · rw [heq]

-- A load that is handled goes from one column to the next, and so does its outcome.
theorem handle (hb : Balanced l sources l.history.session.outcomes.items)
    (halive : l.history.session.processorAlive = true) {load : α → Except LoadError σ}
    {next : Session α σ} (hnext : l.history.session.handleNext load = some next) :
    Balanced { l with
      history := ⟨next, l.history.deeds⟩
      attempts := l.attempts ++ l.history.session.attempt load } sources next.outcomes.items := by
  obtain ⟨_, _, _, _, _, hframe⟩ := Session.handleNext_eq hnext
  have hkept : next.sent = l.history.session.sent ∧ next.processor = l.history.session.processor := by
    rw [hframe]
    exact ⟨rfl, rfl⟩
  obtain ⟨hsent, hprocessor⟩ := hkept
  cases hitems : l.history.session.requests.items with
  | nil =>
    have hattempt : l.history.session.attempt load = [] := by
      unfold Session.attempt
      rw [hitems]
    have hsame : l.history.session = next := by
      unfold Session.handleNext at hnext
      rw [hitems] at hnext
      exact Option.some.inj hnext
    rw [hattempt, List.append_nil, ← hsame]
    exact hb
  | cons r rest =>
    cases r with
    | retire m =>
      have hattempt : l.history.session.attempt load = [] := by
        unfold Session.attempt
        rw [hitems]
      unfold Session.handleNext at hnext
      rw [hitems] at hnext
      cases hnext
      rw [hattempt, List.append_nil]
      exact hb.congr rfl rfl rfl (by rw [hitems]; rfl) rfl rfl fun _ _ hg => hg
    | instantiate generation source =>
      obtain ⟨a, o, hattempt, hload, hresult, hrest, houtcomes, hloads⟩ :=
        Session.handleNext_instantiate halive hitems hnext
      -- it was forwarded and still is
      have hforwarded : (l.attempts ++ [a]).map Attempt.load ++
          Request.instantiations next.requests.items = l.forwarded := by
        unfold Ledger.forwarded
        rw [List.map_append, List.append_assoc, hitems, hrest, List.map_singleton, hload]
        rfl
      rw [hattempt]
      exact {
        numbers := by rw [hsent]; exact hb.numbers
        arrives := hb.arrives
        counted := by rw [hprocessor]; exact hb.counted
        forwarded := by
          unfold Ledger.forwarded
          rw [hforwarded]
          exact hb.forwarded
        refused := by
          unfold Ledger.forwarded
          rw [hforwarded, hprocessor]
          exact hb.refused
        apart := fun g hg => by
          unfold Ledger.forwarded
          rw [hforwarded]
          exact hb.apart g hg
        bounded := by rw [hprocessor]; exact hb.bounded
        answered := by
          rw [houtcomes, List.map_append, List.map_append, hb.answered, List.append_assoc]
          exact congrArg _ (congrArg _ (congrArg (· :: []) hresult.symm))
        tried := by
          rw [hloads, List.length_append, hb.tried]
          rfl }

-- A load that is refused is not in the ledger; one that is sent has the next number.
theorem load (hb : Balanced l l.history.session.control.items l.history.session.outcomes.items)
    (source : α) : Balanced (l.turn (.load source)) (l.history.session.load source).2.control.items
      (l.history.session.load source).2.outcomes.items := by
  have hturn : l.history.turn (.load source) =
      ⟨(l.history.session.load source).2, l.history.deeds⟩ := rfl
  unfold Ledger.turn
  dsimp only
  rw [hturn]
  rcases l.history.session.load_cases source with ⟨error, heq⟩ | ⟨control, hpush, heq⟩
  · rw [heq]
    exact hb.congr rfl rfl rfl rfl rfl rfl fun _ _ hg => hg
  · obtain ⟨pending, hsent, hsources⟩ := hb.arrives
    rw [heq]
    dsimp only
    exact {
      numbers := by
        rw [List.map_append, hb.numbers, List.range'_concat, Nat.one_mul, Nat.add_comm 1]
        rfl
      arrives := by
        refine ⟨pending ++ [(l.history.session.sent + 1, source)], ?_, ?_⟩
        · rw [hsent, List.append_assoc]
        · rw [List.map_append, hsources, Queue.items_of_push? hpush]
          rfl
      counted := hb.counted
      forwarded := hb.forwarded
      refused := hb.refused
      apart := hb.apart
      bounded := hb.bounded
      answered := hb.answered
      tried := hb.tried }

theorem turn (hs : l.history.Sound l.history.session.outcomes.items) (hroom : Backlog l.history.session)
    (hb : Balanced l l.history.session.control.items l.history.session.outcomes.items)
    (turn : Turn α σ) : Balanced (l.turn turn) (l.history.turn turn).session.control.items
      (l.history.turn turn).session.outcomes.items := by
  cases turn with
  | load source => exact hb.load source
  | process channels => exact hb.process hs channels
  | handle load =>
    obtain ⟨next, hnext⟩ :=
      Option.isSome_iff_exists.mp (Session.handleNext_isSome (fun _ => hroom) load)
    have hturn : l.history.turn (.handle load) = ⟨next, l.history.deeds⟩ :=
      congrArg (fun t => History.mk (Option.getD t l.history.session) l.history.deeds) hnext
    have hcontrol : next.control = l.history.session.control := by
      obtain ⟨_, _, _, _, _, rfl⟩ := Session.handleNext_eq hnext
      rfl
    unfold Ledger.turn
    dsimp only
    rw [hturn, hcontrol]
    exact hb.handle hs.alive hnext
  | tryReady =>
    obtain ⟨acks, reports, heq, -⟩ := l.history.session.tryReady_eq
    have hturn : l.history.turn .tryReady = ⟨{ l.history.session with acks, reports }, l.history.deeds⟩ :=
      congrArg (History.mk · l.history.deeds) heq
    unfold Ledger.turn
    dsimp only
    rw [hturn]
    exact hb.congr rfl rfl rfl rfl rfl rfl fun _ _ hg => hg
  | waitReady ackFirst microseconds =>
    obtain ⟨acks, reports, heq, -⟩ := l.history.session.waitReadyFor_eq ackFirst microseconds _
    have hturn : l.history.turn (.waitReady ackFirst microseconds) =
        ⟨{ l.history.session with acks, reports }, l.history.deeds⟩ :=
      congrArg (History.mk · l.history.deeds) heq
    unfold Ledger.turn
    dsimp only
    rw [hturn]
    exact hb.congr rfl rfl rfl rfl rfl rfl fun _ _ hg => hg

-- Every move that leaves the processor there keeps the ledger balanced.
theorem move (hs : l.history.Sound l.history.session.outcomes.items) (hroom : Backlog l.history.session)
    (hb : Balanced l l.history.session.control.items l.history.session.outcomes.items) {move : Move α σ}
    (halive : (l.history.move move).session.processorAlive = true) :
    Balanced (l.move move) (l.history.move move).session.control.items
      (l.history.move move).session.outcomes.items := by
  by_cases hturn : ∃ turn, move = .turn turn ∧ turn.isPossible l.history.session = true
  · obtain ⟨turn, rfl, hpossible⟩ := hturn
    have hmove : l.move (.turn turn) = l.turn turn := if_pos hpossible
    have hhistory : l.history.move (.turn turn) = l.history.turn turn := if_pos hpossible
    rw [hmove, hhistory]
    exact hb.turn hs hroom turn
  · -- nothing is written down
    have hmove : l.move move = { l with history := l.history.move move } := by
      cases move with
      | turn turn =>
        have hnot : ¬turn.isPossible l.history.session = true := fun hpossible =>
          hturn ⟨turn, rfl, hpossible⟩
        rw [Ledger.move, History.move, if_neg hnot, if_neg hnot]
      | _ => rfl
    obtain ⟨-, ⟨turn, hmoved, hpossible, -⟩ | ⟨controllerAlive, workerAlive, hgone⟩⟩ :=
      History.move_cases halive
    · exact absurd ⟨turn, hmoved, hpossible⟩ hturn
    · rw [hmove, hgone]
      exact hb.congr rfl rfl rfl rfl rfl rfl fun _ _ hg => hg

theorem through (hs : l.history.Sound l.history.session.outcomes.items)
    (hroom : Backlog l.history.session)
    (hb : Balanced l l.history.session.control.items l.history.session.outcomes.items)
    (moves : List (Move α σ)) (halive : (l.history.through moves).session.processorAlive = true) :
    Balanced (l.through moves) (l.history.through moves).session.control.items
      (l.history.through moves).session.outcomes.items := by
  induction moves generalizing l with
  | nil => exact hb
  | cons move moves ih =>
    have hthere : (l.history.move move).session.processorAlive = true :=
      History.processorAlive_of_through halive
    have hnext := ih (l := l.move move)
    rw [l.history_move] at hnext
    exact hnext (hs.move hthere) (hs.backlog_move hroom hthere) (hb.move hs hroom hthere) halive

end Balanced

namespace Ledger

/-- A new session, of which nothing has been written down. -/
def start (s : Session α σ) : Ledger α σ where
  history := ⟨s, []⟩

theorem balanced_start {config : Config} {s : Session α σ} (hlink : Session.link? config = some s) :
    Balanced (start s) s.control.items s.outcomes.items := by
  unfold Session.link? at hlink
  split at hlink
  · cases hlink
    exact ⟨rfl, ⟨[], rfl, rfl⟩, rfl, .slnil, rfl, nofun, nofun, rfl, rfl⟩
  · cases hlink

variable [CompiledModule σ]

theorem balanced_through {config : Config} {s : Session α σ} (hlink : Session.link? config = some s)
    (moves : List (Move α σ))
    (halive : (History.through ⟨s, []⟩ moves).session.processorAlive = true) :
    Balanced ((start s).through moves) (History.through ⟨s, []⟩ moves).session.control.items
      (History.through ⟨s, []⟩ moves).session.outcomes.items :=
  Balanced.through (l := start s) (History.Sound.link hlink) (History.backlog_link hlink)
    (balanced_start hlink) moves halive

end Ledger

/-- No load is lost, doubled, renumbered or overtaken on its way. -/
structure LoadsAccounted (l : Ledger α σ) : Prop where
  sent_eq : l.history.session.sent =
    l.history.session.processor.generation + l.history.session.control.items.length
  generation_eq : l.history.session.processor.generation =
    l.history.session.processor.stats.droppedLoads +
      (Request.loads l.history.session.requests.items).length +
      l.history.session.outcomes.items.length + (Deed.results l.history.deeds).length
  /-- What is underway is in order, after everything whose outcome has been taken on. -/
  order : ((Deed.results l.history.deeds).reverse.map Prod.fst ++
    l.history.session.tags l.history.session.outcomes.items).Pairwise (· < ·)
  bound : ∀ g ∈ l.history.session.tags l.history.session.outcomes.items,
    g ≤ l.history.session.processor.generation
  /-- Loads are numbered from one on by who sends them. -/
  numbers : l.sent.map Prod.fst = List.range' 1 l.history.session.sent
  /-- They are received under these numbers, as they were sent. -/
  received : l.received = l.sent.take l.history.session.processor.generation
  pending : (l.sent.drop l.history.session.processor.generation).map Prod.snd =
    l.history.session.control.items
  /-- Those that the worker tried, and then those that are with it, are loads as they were received, in
  order. -/
  forwarded : l.forwarded.Sublist l.received
  /-- What is tried under a number is what was sent under it, -/
  same : ∀ number source, (number, source) ∈ l.sent → ∀ a ∈ l.attempts, a.generation = number →
    a.source = source
  /-- each load once and in order, -/
  once : (l.attempts.map Attempt.generation).Pairwise (· < ·)
  runs : l.attempts.length = l.history.session.loads
  /-- and no load that was refused. -/
  apart : ∀ g, .received g false ∈ l.history.deeds → g ∉ l.forwarded.map Prod.fst

theorem Balanced.accounted {l : Ledger α σ}
    (hb : Balanced l l.history.session.control.items l.history.session.outcomes.items) :
    LoadsAccounted l := by
  obtain ⟨pending, hsent, hpending⟩ := hb.arrives
  have hdistinct : (l.sent.map Prod.fst).Nodup := by
    rw [hb.numbers]
    exact List.nodup_range'
  exact {
    sent_eq := hb.sent_eq
    generation_eq := by
      have hlength := congrArg List.length hb.forwarded_eq
      unfold Session.tags at hlength
      simp only [List.length_map, List.length_append, List.length_reverse] at hlength
      rw [hb.refused, hlength]
      omega
    order := by
      rw [← hb.forwarded_eq]
      exact hb.order
    bound := fun g hg => (hb.bounds g (by rw [hb.forwarded_eq]; exact List.mem_append_right _ hg)).2
    numbers := hb.numbers
    received := by rw [hsent, List.take_left' hb.counted]
    pending := by rw [hsent, List.drop_left' hb.counted, hpending]
    forwarded := hb.forwarded
    same := fun number source hmem a ha hnumber => by
      have hload : a.load ∈ l.received :=
        hb.forwarded.subset (List.mem_append_left _ (List.mem_map_of_mem ha))
      have hsame : a.load = (number, source) :=
        List.inj_on_of_nodup_map hdistinct (by rw [hsent]; exact List.mem_append_left _ hload) hmem hnumber
      exact congrArg Prod.snd hsame
    once := hb.order.sublist l.tried_sublist
    runs := hb.tried
    apart := hb.apart }

theorem Session.prepare_congr [CompiledModule σ] {load other : α → Except LoadError σ} {source : α}
    (hsame : load source = other source) (generation : Nat) (s : Session α σ) :
    s.prepare load generation source = s.prepare other generation source := by
  unfold Session.prepare
  rw [hsame]

-- The loader is asked for the load at the front of the queue, and for nothing else.
theorem Session.handleNext_congr [CompiledModule σ] {s : Session α σ} {load other : α → Except LoadError σ}
    (hsame : ∀ a ∈ s.attempt load, load a.source = other a.source) :
    s.handleNext load = s.handleNext other := by
  unfold Session.attempt at hsame
  unfold Session.handleNext
  cases hitems : s.requests.items with
  | nil => rfl
  | cons r rest =>
    cases r with
    | retire m => rfl
    | instantiate generation source =>
      rw [hitems] at hsame
      have hsource : load source = other source := hsame _ (List.mem_singleton_self _)
      dsimp only [Session.handle]
      rw [Session.prepare_congr hsource]

namespace Ledger

variable [CompiledModule σ]

/-- Whatever happens in a session, as long as its processor is there: the counters of both ends agree with
the queues, and what a load was sent as is what is received and tried under its number. The worker asks
its loader for that, once, and never waits for room. -/
theorem loads_accounted {config : Config} {s : Session α σ} (hlink : Session.link? config = some s)
    (moves : List (Move α σ))
    (halive : (History.through ⟨s, []⟩ moves).session.processorAlive = true) :
    let l := (start s).through moves
    l.history = History.through ⟨s, []⟩ moves ∧ LoadsAccounted l ∧ ∀ load,
      (l.history.session.handleNext load).isSome = true ∧
      ∀ other : α → Except LoadError σ,
        (∀ a ∈ l.history.session.attempt load, load a.source = other a.source) →
        l.history.session.handleNext load = l.history.session.handleNext other := by
  intro l
  have hhistory : l.history = History.through ⟨s, []⟩ moves := history_through (start s) moves
  have hbalanced := balanced_through hlink moves halive
  have hhandles := History.handles_through hlink moves
  rw [← hhistory] at hbalanced hhandles
  exact ⟨hhistory, hbalanced.accounted, fun load => ⟨hhandles load, fun _ => Session.handleNext_congr⟩⟩

/-- Of two loads that arrive at once the worker's queue refuses the second; the first is tried, and a third
is still to be taken on. -/
theorem loads_accounted_refused :
    let load : Nat → Except LoadError CannedModule := fun _ => .ok ⟨[], .ok 0, .ok ⟨0⟩, []⟩
    let s : Session Nat CannedModule := {
      quantum := 1, scratchBytes := 4, control := .empty 2, requests := .empty 1, outcomes := .empty 1
      acks := .empty 1, reports := .empty 1 }
    let moves : List (Move Nat CannedModule) := [.turn (.load 10), .turn (.load 20), .turn (.load 25),
      .turn (.process []), .turn (.handle load), .turn (.load 30)]
    let l := (start s).through moves
    Session.link? {
      quantumSize := 1, controlCapacity := 2, loaderCapacity := 1, eventCapacity := 1 } = some s ∧
    (History.through ⟨s, []⟩ moves).session.processorAlive = true ∧ LoadsAccounted l ∧
    l.sent = [(1, 10), (2, 20), (3, 30)] ∧ l.received = [(1, 10), (2, 20)] ∧
    l.attempts.map Attempt.load = [(1, 10)] ∧ l.history.session.processor.stats.droppedLoads = 1 := by
  intro load s moves l
  have hlink : Session.link? {
      quantumSize := 1, controlCapacity := 2, loaderCapacity := 1, eventCapacity := 1 } = some s := rfl
  have halive : (History.through ⟨s, []⟩ moves).session.processorAlive = true := by decide +kernel
  exact ⟨hlink, halive, (loads_accounted hlink moves halive).2.1, by decide +kernel, by decide +kernel,
    by decide +kernel, by decide +kernel⟩

end Ledger

end SampleStream
