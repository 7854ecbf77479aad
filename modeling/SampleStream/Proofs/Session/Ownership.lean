import Mathlib.Data.List.Perm.Basic
import SampleStream.Module.Canned
import SampleStream.Proofs.Session.Backlog

/-!
# Owners of modules

A module that a load gave is in one place until it is dropped: in somebody's hand, with an outcome that
waits, in the slot of the processor, or with a request to be dropped. It is dropped once, and nothing is
done with it afterwards. `Session.Owned` says so of any state of a session; every function that the
operations are made of keeps it, whatever the other parts do and whether they are there or not.
-/

namespace SampleStream

universe u v

variable {α : Type v} {σ : Type u}

def Event.dropped? : Event → Option Nat
  | .dropped id => some id
  | _ => none

/-- The modules that are handed over to be dropped. -/
def Request.retired (rs : List (Request α σ)) : List Nat :=
  rs.filterMap fun
    | .instantiate _ _ => none
    | .retire m => some m.id

theorem Request.retired_append (rs ts : List (Request α σ)) :
    retired (rs ++ ts) = retired rs ++ retired ts :=
  List.filterMap_append

/-- The module in a place of the slot. -/
def Active.ids (place : Option (Active σ)) : List Nat :=
  place.toList.map (·.module.id)

@[simp] theorem Active.ids_none : Active.ids (none : Option (Active σ)) = [] := rfl

@[simp] theorem Active.ids_some (a : Active σ) : Active.ids (some a) = [a.module.id] := rfl

/-- The module that a load gave, if it gave one. -/
def Prepared.ids : Except LoadError (Prepared σ) → List Nat
  | .ok p => [p.module.id]
  | .error _ => []

namespace Session

/-- The module that a request gives the worker, if its load gives one: it has the number of that load. -/
def gives (load : α → Except LoadError σ) (s : Session α σ) : Request α σ → List Nat
  | .instantiate _ source =>
    match load source with
    | .ok _ => [s.loads + 1]
    | .error _ => []
  | .retire _ => []

/-- So for the request at the front of the queue. -/
def givesNext (load : α → Except LoadError σ) (s : Session α σ) : List Nat :=
  match s.requests.items with
  | [] => []
  | r :: _ => s.gives load r

/-- The modules that were dropped, the last first. -/
def drops (s : Session α σ) : List Nat :=
  s.trace.filterMap Event.dropped?

/-- The modules in the queues of requests and of outcomes, in the active place and in the parked one. -/
def places (s : Session α σ) : List Nat :=
  Request.retired s.requests.items ++ LoadOutcome.arriving s.outcomes.items ++
    Active.ids s.processor.active ++ Active.ids s.processor.parked

/-- Where the modules are that loads gave, while those in `hand` are between two places. -/
structure Owned (s : Session α σ) (given hand : List Nat) : Prop where
  /-- Every one of them is in one place or was dropped once. -/
  once : (hand ++ s.places ++ s.drops).Perm given
  distinct : given.Nodup
  /-- A module has the number of its load. -/
  numbered : ∀ id ∈ given, id ≤ s.loads
  /-- Nothing is done with a module after it was dropped. -/
  last : s.trace.Pairwise fun later earlier => ∀ id, earlier = .dropped id → later.module ≠ id

/-- The session within a quantum, before anything is taken on: the loads are at hand. -/
def opened (s : Session α σ) : Session α σ :=
  { s.counted with control := s.control.clear }

theorem count_places (s : Session α σ) (id : Nat) : s.places.count id =
    (Request.retired s.requests.items).count id + (LoadOutcome.arriving s.outcomes.items).count id +
      (Active.ids s.processor.active).count id + (Active.ids s.processor.parked).count id := by
  simp only [places, List.count_append]

namespace Owned

variable {s : Session α σ} {given hand : List Nat}

-- A module in hand or in a place has not been dropped.
theorem not_mem_drops (ho : s.Owned given hand) {id : Nat} (hid : id ∈ hand ++ s.places) : id ∉ s.drops := by
  have hnodup : (hand ++ s.places ++ s.drops).Nodup := ho.once.nodup_iff.mpr ho.distinct
  exact fun hdropped => (List.nodup_append.mp hnodup).2.2 id hid id hdropped rfl

-- What is done with a module that was not dropped goes on record.
theorem last_note (ho : s.Owned given hand) {e : Event} (he : e.module ∈ hand ++ s.places) :
    (e :: s.trace).Pairwise fun later earlier => ∀ id, earlier = .dropped id → later.module ≠ id := by
  refine List.pairwise_cons.mpr ⟨?_, ho.last⟩
  rintro earlier hmem id rfl heq
  rw [heq] at he
  exact ho.not_mem_drops he (List.mem_filterMap.mpr ⟨_, hmem, rfl⟩)

-- Modules may go from one place to another.
theorem moved (ho : s.Owned given hand) {t : Session α σ} {rest : List Nat} (htrace : t.trace = s.trace)
    (hloads : t.loads = s.loads)
    (hplaces : ∀ id, rest.count id + t.places.count id = hand.count id + s.places.count id) :
    t.Owned given rest where
  once := by
    have hperm : (rest ++ t.places).Perm (hand ++ s.places) :=
      List.perm_iff_count.mpr fun id => by simpa only [List.count_append] using hplaces id
    have hdrops : t.drops = s.drops := by rw [drops, htrace]; rfl
    rw [hdrops]
    exact (hperm.append_right s.drops).trans ho.once
  distinct := ho.distinct
  numbered := by rw [hloads]; exact ho.numbered
  last := by rw [htrace]; exact ho.last

-- Something is done with a module that is there.
theorem used (ho : s.Owned given hand) {e : Event} (hdropped : e.dropped? = none)
    (he : e.module ∈ hand ++ s.places) : (s.note e).Owned given hand where
  once := by
    have hdrops : (s.note e).drops = s.drops := List.filterMap_cons_none hdropped
    rw [hdrops]
    exact ho.once
  distinct := ho.distinct
  numbered := ho.numbered
  last := ho.last_note he

-- A module in hand is dropped.
theorem dropped {id : Nat} (ho : s.Owned given (id :: hand)) : (s.note (.dropped id)).Owned given hand where
  once := by
    have hdrops : (s.note (.dropped id)).drops = id :: s.drops := rfl
    rw [hdrops]
    exact List.perm_middle.trans ho.once
  distinct := ho.distinct
  numbered := ho.numbered
  last := ho.last_note List.mem_cons_self

-- A load gives a module, which the worker asks for its buffer at once.
theorem loaded (ho : s.Owned given hand) (size : Nat) :
    ({ s with loads := s.loads + 1 }.note (.alloc (s.loads + 1) size)).Owned
      ((s.loads + 1) :: given) ((s.loads + 1) :: hand) where
  once := ho.once.cons _
  distinct := List.nodup_cons.mpr
    ⟨fun hmem => Nat.not_succ_le_self _ (ho.numbered _ hmem), ho.distinct⟩
  numbered := fun id hid => by
    rcases List.mem_cons.mp hid with rfl | hid
    · exact Nat.le_refl _
    · exact Nat.le_succ_of_le (ho.numbered id hid)
  last := by
    refine List.pairwise_cons.mpr ⟨?_, ho.last⟩
    rintro earlier hmem id rfl rfl
    have hid : s.loads + 1 ∈ s.drops := List.mem_filterMap.mpr ⟨_, hmem, rfl⟩
    exact Nat.not_succ_le_self _ (ho.numbered _ (ho.once.mem_iff.mp (List.mem_append_right _ hid)))

-- A module is handed to the worker, or dropped at once.
theorem retire {m : Loaded σ} (ho : s.Owned given (m.id :: hand)) : (s.retire m).Owned given hand := by
  unfold Session.retire
  cases hr : s.request? (.retire m) with
  | none => exact ho.dropped
  | some next =>
    obtain ⟨requests, hpush, rfl⟩ := request?_eq_some hr
    have hretired : Request.retired requests.items = Request.retired s.requests.items ++ [m.id] := by
      rw [Queue.items_of_push? hpush, Request.retired_append]
      rfl
    refine ho.moved rfl rfl fun id => ?_
    simp only [count_places, hretired, List.count_append, List.count_cons, List.count_nil]
    omega

theorem dropActive {place : Option (Active σ)} (ho : s.Owned given (Active.ids place ++ hand)) :
    (s.dropActive place).Owned given hand := by
  cases place with
  | none => exact ho
  | some a => exact ho.dropped

theorem dropOutcome {o : LoadOutcome σ} (ho : s.Owned given (LoadOutcome.arriving [o] ++ hand)) :
    (s.dropOutcome o).Owned given hand := by
  cases o with
  | loaded p => exact ho.dropped
  | failed generation => exact ho

theorem dropRequest {r : Request α σ} (ho : s.Owned given (Request.retired [r] ++ hand)) :
    (s.dropRequest r).Owned given hand := by
  cases r with
  | instantiate generation source => exact ho
  | retire m => exact ho.dropped

-- What is in the active place makes way.
theorem install {a : Active σ} (ho : s.Owned given (a.module.id :: hand)) : (s.install a).Owned given hand := by
  -- the module that was there is in hand while it is dropped
  let cleared : Session α σ := { s with processor := { s.processor with active := none } }
  have hcleared : cleared.Owned given (Active.ids s.processor.active ++ a.module.id :: hand) := by
    refine ho.moved rfl rfl fun id => ?_
    simp only [count_places, List.count_append, List.count_nil, cleared, Active.ids_none]
    omega
  have hdropped := hcleared.dropActive
  obtain ⟨trace, htrace⟩ := s.dropActive_eq s.processor.active
  have heq : cleared.dropActive s.processor.active = { cleared with trace } := by
    have hsame : (cleared.dropActive s.processor.active).trace =
        (s.dropActive s.processor.active).trace := by
      cases s.processor.active <;> rfl
    obtain ⟨trace', htrace'⟩ := cleared.dropActive_eq s.processor.active
    rw [htrace', htrace] at hsame
    rw [htrace', show trace' = trace from hsame]
  rw [heq] at hdropped
  unfold Session.install
  dsimp only
  rw [htrace]
  refine hdropped.moved rfl rfl fun id => ?_
  simp only [count_places, List.count_cons, List.count_nil, cleared, Active.ids_none, Active.ids_some]
  omega

theorem restoreParked (ho : s.Owned given hand) : s.restoreParked.Owned given hand := by
  unfold Session.restoreParked
  split
  · rename_i a hparked
    refine Owned.install (ho.moved rfl rfl fun id => ?_)
    simp only [count_places, hparked, List.count_cons, List.count_nil, Active.ids_none, Active.ids_some]
    omega
  · exact ho.moved rfl rfl fun _ => rfl

theorem retireParked (ho : s.Owned given hand) : s.retireParked.Owned given hand := by
  unfold Session.retireParked
  split
  · rename_i a hparked
    refine Owned.retire (ho.moved rfl rfl fun id => ?_)
    simp only [count_places, hparked, List.count_cons, List.count_nil, Active.ids_none, Active.ids_some]
    omega
  · exact ho

-- The active module is parked, and one that was parked before is retired.
theorem park (ho : s.Owned given hand) : s.park.Owned given hand := by
  unfold Session.park
  split
  · exact ho
  · rename_i a hactive
    dsimp only
    split
    · rename_i b hparked
      refine Owned.retire (ho.moved rfl rfl fun id => ?_)
      simp only [count_places, hactive, hparked, List.count_cons, List.count_nil, Active.ids_none,
        Active.ids_some]
      omega
    · rename_i hparked
      refine ho.moved rfl rfl fun id => ?_
      simp only [count_places, hactive, hparked, List.count_cons, List.count_nil, Active.ids_none,
        Active.ids_some]
      omega

theorem receive (ho : s.Owned given hand) (source : α) : (s.receive source).Owned given hand := by
  have hparked := Owned.park (s := { s with processor := { s.processor with
    generation := s.processor.generation + 1 } }) (ho.moved rfl rfl fun _ => rfl)
  unfold Session.receive
  dsimp only
  generalize ({ s with processor := { s.processor with
    generation := s.processor.generation + 1 } } : Session α σ).park = parked at hparked ⊢
  split
  · rename_i next hr
    obtain ⟨requests, hpush, rfl⟩ := request?_eq_some hr
    -- a load on its way to the worker is no module
    have hretired : Request.retired requests.items = Request.retired parked.requests.items := by
      rw [Queue.items_of_push? hpush, Request.retired_append]
      exact List.append_nil _
    refine hparked.moved rfl rfl fun id => ?_
    simp only [count_places, hretired]
  · exact Owned.restoreParked (hparked.moved rfl rfl fun _ => rfl)

-- The module of an outcome goes into the slot or is retired.
theorem adopt {o : LoadOutcome σ} (ho : s.Owned given (LoadOutcome.arriving [o] ++ hand)) :
    (s.adopt o).Owned given hand := by
  unfold Session.adopt
  cases o with
  | loaded p =>
    dsimp only
    split
    · exact Owned.moved (Owned.install (a := p.activate) (Owned.retireParked ho)) rfl rfl fun _ => rfl
    · exact Owned.retire ho
  | failed generation =>
    dsimp only
    split
    · exact Owned.restoreParked ho
    · exact ho

theorem receive_all (ho : s.Owned given hand) (sources : List α) :
    (sources.foldl Session.receive s).Owned given hand := by
  induction sources generalizing s with
  | nil => exact ho
  | cons source sources ih => exact ih (ho.receive source)

-- Outcomes are taken on one by one; those still to come are in hand.
theorem adopt_all {os : List (LoadOutcome σ)} (ho : s.Owned given (LoadOutcome.arriving os ++ hand)) :
    (os.foldl Session.adopt s).Owned given hand := by
  induction os generalizing s with
  | nil => exact ho
  | cons o os ih =>
    refine ih (Owned.adopt (o := o) ?_)
    rwa [← List.append_assoc, ← LoadOutcome.arriving_append]

-- Within a quantum some outcomes are taken on and the others are at hand.
theorem adopting (ho : s.Owned given hand) (count : Nat) :
    ((s.outcomes.items.take count).foldl Session.adopt
      { s with outcomes := s.outcomes.clear }).Owned given
        (LoadOutcome.arriving (s.outcomes.items.drop count) ++ hand) := by
  refine adopt_all (ho.moved rfl rfl fun id => ?_)
  have hall : LoadOutcome.arriving s.outcomes.items = LoadOutcome.arriving (s.outcomes.items.take count)
      ++ LoadOutcome.arriving (s.outcomes.items.drop count) := by
    rw [← LoadOutcome.arriving_append, List.take_append_drop]
  have hnone : LoadOutcome.arriving s.outcomes.clear.items = [] := rfl
  simp only [count_places, hall, hnone, List.count_append, List.count_nil]
  omega

theorem opened (ho : s.Owned given hand) : s.opened.Owned given hand :=
  ho.moved rfl rfl fun _ => rfl

theorem drained (ho : s.Owned given hand) : s.counted.drain.Owned given hand := by
  have hreceived := ho.opened.receive_all s.control.items
  have hadopted := hreceived.adopting (s.control.items.foldl Session.receive s.opened).outcomes.items.length
  rw [List.take_length, List.drop_length] at hadopted
  exact hadopted

-- The queues go, request by request and then outcome by outcome.
theorem dropQueues (ho : s.Owned given hand) : s.dropQueues.Owned given hand := by
  have hrequests (rs : List (Request α σ)) (s : Session α σ) (hand : List Nat)
      (ho : s.Owned given (Request.retired rs ++ hand)) : (rs.foldl Session.dropRequest s).Owned given hand := by
    induction rs generalizing s with
    | nil => exact ho
    | cons r rs ih =>
      refine ih _ (Owned.dropRequest (r := r) ?_)
      rwa [← List.append_assoc, ← Request.retired_append]
  have houtcomes (os : List (LoadOutcome σ)) (s : Session α σ)
      (ho : s.Owned given (LoadOutcome.arriving os ++ hand)) : (os.foldl Session.dropOutcome s).Owned given hand := by
    induction os generalizing s with
    | nil => exact ho
    | cons o os ih =>
      refine ih _ (Owned.dropOutcome (o := o) ?_)
      rwa [← List.append_assoc, ← LoadOutcome.arriving_append]
  refine houtcomes _ _ (hrequests _ _ _ (ho.moved rfl rfl fun id => ?_))
  have hnone : Request.retired s.requests.clear.items = [] ∧
      LoadOutcome.arriving s.outcomes.clear.items = [] := ⟨rfl, rfl⟩
  simp only [count_places, hnone, List.count_append, List.count_nil]
  omega

theorem dropWorker (ho : s.Owned given hand) : s.dropWorker.Owned given hand := by
  have hgone : ({ s with workerAlive := false } : Session α σ).Owned given hand :=
    ho.moved rfl rfl fun _ => rfl
  unfold Session.dropWorker
  dsimp only
  split
  · exact hgone
  · exact hgone.dropQueues

theorem dropProcessor (ho : s.Owned given hand) : s.dropProcessor.Owned given hand := by
  let gone : Session α σ := { s with
    processorAlive := false
    processor := { s.processor with active := none, parked := none } }
  have hgone : gone.Owned given
      (Active.ids s.processor.active ++ (Active.ids s.processor.parked ++ hand)) := by
    refine ho.moved rfl rfl fun id => ?_
    simp only [count_places, gone, Active.ids_none, List.count_append, List.count_nil]
    omega
  have hslot : ((gone.dropActive s.processor.active).dropActive s.processor.parked).Owned given hand :=
    hgone.dropActive.dropActive
  unfold Session.dropProcessor
  dsimp only
  split
  · exact hslot
  · exact hslot.dropQueues

theorem report (ho : s.Owned given hand) (r : LoadReport) : (s.report r).Owned given hand := by
  obtain ⟨reports, hreport⟩ := s.report_eq r
  rw [hreport]
  exact ho.moved rfl rfl fun _ => rfl

theorem deliver {o : LoadOutcome σ} {next : Session α σ}
    (ho : s.Owned given (LoadOutcome.arriving [o] ++ hand)) (h : s.deliver o = some next) :
    next.Owned given hand := by
  unfold Session.deliver at h
  split at h
  · obtain ⟨outcomes, hpush, rfl⟩ := Option.map_eq_some_iff.mp h
    have harriving : LoadOutcome.arriving outcomes.items =
        LoadOutcome.arriving s.outcomes.items ++ LoadOutcome.arriving [o] := by
      rw [Queue.items_of_push? hpush, LoadOutcome.arriving_append]
    refine ho.moved rfl rfl fun id => ?_
    simp only [count_places, harriving, List.count_append]
    omega
  · cases h
    exact ho.dropOutcome

section Modules

variable [CompiledModule σ]

-- A load that is tried gives a module that is in the worker's hand, or one that is dropped, or none.
theorem prepare (ho : s.Owned given hand) (load : α → Except LoadError σ) (generation : Nat) (source : α) :
    (s.prepare load generation source).2.Owned (s.gives load (.instantiate generation source) ++ given)
      (Prepared.ids (s.prepare load generation source).1 ++ hand) := by
  unfold Session.prepare Session.gives
  dsimp only
  cases load source with
  | error e =>
    exact {
      once := ho.once
      distinct := ho.distinct
      numbered := fun id hid => Nat.le_succ_of_le (ho.numbered id hid)
      last := ho.last }
  | ok state =>
    have hloaded := ho.loaded s.scratchBytes
    dsimp only
    split
    · exact hloaded.dropped
    · have hentered := hloaded.used (e := .entered (s.loads + 1)) rfl List.mem_cons_self
      split
      · exact hentered.dropped
      · exact hentered

theorem handle {load : α → Except LoadError σ} {r : Request α σ} {next : Session α σ}
    (ho : s.Owned given (Request.retired [r] ++ hand)) (h : s.handle load r = some next) :
    next.Owned (s.gives load r ++ given) hand := by
  cases r with
  | retire m =>
    cases h
    exact ho.dropped
  | instantiate generation source =>
    have hprepared := Owned.prepare (s := s) ho load generation source
    unfold Session.handle at h
    dsimp only at h
    generalize s.prepare load generation source = tried at h hprepared
    obtain ⟨result, t⟩ := tried
    cases result with
    | ok p => exact hprepared.deliver (o := .loaded p) h
    | error e => exact (hprepared.report _).deliver (o := .failed generation) h

theorem handleNext {load : α → Except LoadError σ} {next : Session α σ} (ho : s.Owned given hand)
    (h : s.handleNext load = some next) : next.Owned (s.givesNext load ++ given) hand := by
  unfold Session.handleNext at h
  unfold Session.givesNext
  cases hitems : s.requests.items with
  | nil =>
    rw [hitems] at h
    cases h
    exact ho
  | cons r rest =>
    rw [hitems] at h
    let popped : Session α σ := { s with requests := { s.requests with items := rest } }
    have hpopped : popped.Owned given (Request.retired [r] ++ hand) := by
      have hretired : Request.retired (r :: rest) = Request.retired [r] ++ Request.retired rest :=
        Request.retired_append [r] rest
      refine ho.moved rfl rfl fun id => ?_
      simp only [count_places, popped, hitems, hretired, List.count_append]
      omega
    exact hpopped.handle h

-- The active module is stepped, and stays where it is.
theorem render (ho : s.Owned given hand) (channels : List (List Sample)) :
    (s.render channels).2.Owned given hand := by
  cases hactive : s.processor.active with
  | none =>
    unfold Session.render
    rw [hactive]
    exact ho
  | some a =>
    have hplace : a.module.id ∈ hand ++ s.places := by
      refine List.mem_append_right _ (List.mem_append_left _ (List.mem_append_right _ ?_))
      rw [hactive]
      exact List.mem_singleton_self _
    have hstepped := ho.used (e := .stepped a.module.id a.current s.quantum a.scratch) rfl hplace
    rw [render_eq_play hactive channels]
    refine hstepped.moved rfl rfl fun id => ?_
    simp only [count_places, note, hactive, Active.ids_some, a.play_id]

theorem process (ho : s.Owned given hand) (channels : List (List Sample)) :
    (s.process channels).2.Owned given hand := by
  have hdrained := ho.drained
  have hacknowledged : s.counted.drain.acknowledge.Owned given hand := by
    obtain ⟨acks, ackPending, hack⟩ := s.counted.drain.acknowledge_eq
    rw [hack]
    exact hdrained.moved rfl rfl fun _ => rfl
  have hrendered := hacknowledged.render channels
  have hcounted : (s.count fun c => { c with quanta := c.quanta + 1 }) = s.counted := rfl
  unfold Session.process
  rw [hcounted]
  dsimp only
  split
  · generalize s.counted.drain.acknowledge.render channels = rendered at hrendered ⊢
    obtain ⟨_ | filled, t⟩ := rendered
    · exact hrendered.moved rfl rfl fun _ => rfl
    · exact hrendered
  · exact hdrained.moved rfl rfl fun _ => rfl

end Modules

end Owned

/-- What is left of a session when parts of it have gone. -/
structure Vacated (s : Session α σ) : Prop where
  slot : s.processorAlive = false → s.processor.active = none ∧ s.processor.parked = none
  queues : s.processorAlive = false → s.workerAlive = false →
    s.requests.items = [] ∧ s.outcomes.items = []

-- When the processor and the worker have gone, there is no place left.
theorem Vacated.places_eq_nil {s : Session α σ} (hv : s.Vacated) (hprocessor : s.processorAlive = false)
    (hworker : s.workerAlive = false) : s.places = [] := by
  obtain ⟨hactive, hparked⟩ := hv.slot hprocessor
  obtain ⟨hrequests, houtcomes⟩ := hv.queues hprocessor hworker
  unfold places
  rw [hactive, hparked, hrequests, houtcomes]
  rfl

/-- The module that a move brings into the session, if it brings one. -/
def given (s : Session α σ) : Move α σ → List Nat
  | .turn (.handle load) => if s.workerAlive then s.givesNext load else []
  | _ => []

/-- Where the modules are that loads gave, in the middle of what the parts do as well. -/
structure OwnedThroughout [CompiledModule σ] (s : Session α σ) (given : List Nat) : Prop where
  between : s.Owned given []
  /-- Some loads are taken on. -/
  receiving : ∀ count, ((s.control.items.take count).foldl receive s.opened).Owned given []
  /-- All loads are taken on, and some outcomes; the other outcomes are at hand. -/
  adopting : ∀ count,
    let received := s.control.items.foldl receive s.opened
    ((received.outcomes.items.take count).foldl adopt
      { received with outcomes := received.outcomes.clear }).Owned given
        (LoadOutcome.arriving (received.outcomes.items.drop count))
  /-- A load is tried, and its module is with the worker, or is dropped. -/
  preparing : ∀ load generation source rest,
    s.requests.items = .instantiate generation source :: rest →
    let tried := { s with requests := { s.requests with items := rest } }.prepare load generation source
    tried.2.Owned (s.givesNext load ++ given) (Prepared.ids tried.1)
  /-- The worker has room for what comes of it. -/
  handles : ∀ load, (s.handleNext load).isSome = true
  /-- In the end all modules were dropped. -/
  emptied : s.processorAlive = false → s.workerAlive = false → s.places = [] ∧ s.drops.Perm given

end Session

namespace History

variable [CompiledModule σ] {h : History α σ} {ids : List Nat}

/-- The modules that loads gave over a run, the last first. -/
def given (h : History α σ) : List (Move α σ) → List Nat
  | [] => []
  | move :: moves => (h.move move).given moves ++ h.session.given move

-- A move that is not the worker's brings no module.
theorem given_of_idle {s : Session α σ} {move : Move α σ}
    (hidle : ∀ load, move = .turn (.handle load) → s.workerAlive = true → s.handleNext load = none)
    (hhandles : ∀ load, (s.handleNext load).isSome = true) : s.given move = [] := by
  unfold Session.given
  split
  · rw [workerAlive_of_idle hidle hhandles rfl]
    rfl
  · rfl

theorem owned_move (ho : h.session.Owned ids [])
    (hhandles : ∀ load, (h.session.handleNext load).isSome = true) (move : Move α σ) :
    (h.move move).session.Owned (h.session.given move ++ ids) [] := by
  have hmoved := h.moved move
  generalize (h.move move).session = next at hmoved ⊢
  cases hmoved with
  | processed channels halive => exact ho.process channels
  | handled halive hnext =>
    rw [Session.given, if_pos halive]
    exact ho.handleNext hnext
  | processorGone halive => exact ho.dropProcessor
  | workerGone halive => exact ho.dropWorker
  | aside controllerAlive sent control acks reports hidle =>
    rw [given_of_idle hidle hhandles]
    exact ho.moved rfl rfl fun _ => rfl

-- Nothing comes back into a place that was left.
theorem vacated_move (hv : h.session.Vacated)
    (hs : h.session.processorAlive = true → h.Sound h.session.outcomes.items) (move : Move α σ) :
    (h.move move).session.Vacated := by
  have hmoved := h.moved move
  generalize (h.move move).session = next at hmoved ⊢
  cases hmoved with
  | processed channels halive =>
    have hthere : ¬(h.process channels).session.processorAlive = false :=
      ne_false_of_eq_true ((hs halive).process channels).1.alive
    exact ⟨fun hgone => absurd hgone hthere, fun hgone => absurd hgone hthere⟩
  | handled halive hnext =>
    obtain ⟨requests, outcomes, reports, loads, trace, rfl⟩ := Session.handleNext_eq hnext
    exact ⟨hv.slot, fun _ hgone => absurd hgone (ne_false_of_eq_true halive)⟩
  | processorGone halive =>
    obtain ⟨requests, outcomes, trace, heq, hemptied⟩ := h.session.dropProcessor_eq
    rw [heq]
    exact ⟨fun _ => ⟨rfl, rfl⟩, fun _ => hemptied⟩
  | workerGone halive =>
    obtain ⟨requests, outcomes, trace, heq, hemptied⟩ := h.session.dropWorker_cases
    rw [heq]
    exact ⟨hv.slot, fun hprocessor _ => hemptied hprocessor⟩
  | aside controllerAlive sent control acks reports hidle => exact ⟨hv.slot, hv.queues⟩

/-- What every move keeps, where loads gave these modules. -/
structure Kept (h : History α σ) (ids : List Nat) : Prop where
  owned : h.session.Owned ids []
  vacated : h.session.Vacated
  alive : h.session.processorAlive = true → h.Sound h.session.outcomes.items ∧ Backlog h.session

namespace Kept

theorem handles (hk : h.Kept ids) (load : α → Except LoadError σ) :
    (h.session.handleNext load).isSome = true :=
  Session.handleNext_isSome (fun halive => (hk.alive halive).2) load

theorem move (hk : h.Kept ids) (move : Move α σ) :
    (h.move move).Kept (h.session.given move ++ ids) where
  owned := owned_move hk.owned hk.handles move
  vacated := vacated_move hk.vacated (fun halive => (hk.alive halive).1) move
  alive := fun halive => by
    obtain ⟨hs, hb⟩ := hk.alive (move_cases halive).1
    exact ⟨hs.move halive, hs.backlog_move hb halive⟩

theorem through (hk : h.Kept ids) (moves : List (Move α σ)) :
    (h.through moves).Kept (h.given moves ++ ids) := by
  induction moves generalizing h ids with
  | nil => exact hk
  | cons move moves ih =>
    have hnext := ih (hk.move move)
    rwa [← List.append_assoc] at hnext

omit [CompiledModule σ] in
-- A new session has no modules.
theorem link {config : Config} {s : Session α σ} (hlink : Session.link? config = some s) :
    (⟨s, []⟩ : History α σ).Kept [] where
  owned := by
    unfold Session.link? at hlink
    split at hlink
    · cases hlink
      exact ⟨.nil, .nil, nofun, .nil⟩
    · cases hlink
  vacated := by
    have halive : s.processorAlive = true := (Sound.link hlink).alive
    exact ⟨by rw [halive]; nofun, by rw [halive]; nofun⟩
  alive := fun _ => ⟨Sound.link hlink, backlog_link hlink⟩

theorem throughout (hk : h.Kept ids) : h.session.OwnedThroughout ids where
  between := hk.owned
  receiving := fun count => hk.owned.opened.receive_all _
  adopting := fun count => by
    have hadopting := (hk.owned.opened.receive_all h.session.control.items).adopting count
    rwa [List.append_nil] at hadopting
  preparing := fun load generation source rest hitems => by
    -- the load leaves the queue, and is no module
    have hpopped : ({ h.session with requests := { h.session.requests with items := rest } } :
        Session α σ).Owned ids [] := by
      have hretired : Request.retired h.session.requests.items = Request.retired rest := by
        rw [hitems]
        rfl
      exact hk.owned.moved rfl rfl fun id => by simp only [Session.count_places, hretired]
    have hprepared := hpopped.prepare load generation source
    have hgives : h.session.givesNext load = h.session.gives load (.instantiate generation source) := by
      unfold Session.givesNext
      rw [hitems]
    rw [List.append_nil] at hprepared
    rw [hgives]
    exact hprepared
  handles := hk.handles
  emptied := fun hprocessor hworker => by
    have hplaces := hk.vacated.places_eq_nil hprocessor hworker
    have honce := hk.owned.once
    rw [hplaces] at honce
    exact ⟨hplaces, honce⟩

end Kept

/-- Whatever happens in a session, in whatever order its parts go: every module that a load gave is in one
place until it is dropped, is dropped once, and nothing is done with it afterwards. When the processor and
the worker have gone, all were dropped. -/
theorem modules_owned_once {config : Config} {s : Session α σ} (hlink : Session.link? config = some s)
    (moves : List (Move α σ)) :
    (History.through ⟨s, []⟩ moves).session.OwnedThroughout (History.given ⟨s, []⟩ moves) := by
  have hkept := (Kept.link hlink).through moves
  rw [List.append_nil] at hkept
  exact hkept.throughout

/-- The second module has no buffer and is dropped at once, the first is parked for the third when the
processor goes, and the third lies in the queue of outcomes until the worker has gone as well. -/
theorem modules_owned_once_dropped :
    let load : Bool → Except LoadError CannedModule := fun allocates =>
      .ok ⟨[], if allocates then .ok 0 else .error (.alloc 4), .ok ⟨0⟩, []⟩
    let s : Session Bool CannedModule := {
      quantum := 1, scratchBytes := 4, control := .empty 2, requests := .empty 2, outcomes := .empty 2
      acks := .empty 1, reports := .empty 1 }
    let moves : List (Move Bool CannedModule) := [.turn (.load true), .turn (.process []),
      .turn (.handle load), .turn (.process []), .turn (.load false), .turn (.process []),
      .turn (.handle load), .turn (.load true), .turn (.process []), .turn (.handle load),
      .dropProcessor, .dropController, .dropWorker]
    let t := (History.through ⟨s, []⟩ moves).session
    Session.link? {
      quantumSize := 1, controlCapacity := 2, loaderCapacity := 2, eventCapacity := 1 } = some s ∧
    t.OwnedThroughout [3, 2, 1] ∧ t.drops = [3, 1, 2] := by
  intro load s moves t
  have hlink : Session.link? {
      quantumSize := 1, controlCapacity := 2, loaderCapacity := 2, eventCapacity := 1 } = some s := rfl
  have hgiven : History.given ⟨s, []⟩ moves = [3, 2, 1] := by decide +kernel
  have howned := modules_owned_once hlink moves
  rw [hgiven] at howned
  exact ⟨hlink, howned, by decide +kernel⟩

end History

end SampleStream
