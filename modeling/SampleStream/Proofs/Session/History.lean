import SampleStream.Proofs.Session.Effects

/-!
# Histories of a session

A history is a session together with what was decided about loads and modules so far, which the session
itself forgets. It grows by turns: the controller, the processor or the worker does one thing, in any
order. The deeds only watch; the sessions of a history are those that the operations give.
-/

namespace SampleStream

universe u v

/-- What was decided about a load or a module. -/
inductive Deed
  /-- The processor took a load on, and the worker's queue took it or refused it. -/
  | received (generation : Nat) (forwarded : Bool)
  /-- The module of the load became the active one. -/
  | adopted (generation id : Nat)
  /-- The module of the load came too late. -/
  | discarded (generation id : Nat)
  /-- It was taken note that the load failed. -/
  | failed (generation : Nat)
  /-- The module, adopted as that of the load, was stepped. -/
  | stepped (generation id : Nat)
deriving DecidableEq, Repr

namespace Deed

/-- The last load received, and whether it was forwarded. Deeds are in order, the newest first. -/
def latest? (deeds : List Deed) : Option (Nat × Bool) :=
  deeds.findSome? fun
    | .received generation forwarded => some (generation, forwarded)
    | _ => none

/-- The last load adopted, with its module. -/
def lastAdopted? (deeds : List Deed) : Option (Nat × Nat) :=
  deeds.findSome? fun
    | .adopted generation id => some (generation, id)
    | _ => none

/-- The load that a module was adopted for. -/
def generationOf? (deeds : List Deed) (id : Nat) : Option Nat :=
  deeds.findSome? fun
    | .adopted generation other => if other = id then some generation else none
    | _ => none

/-- The loads whose modules were stepped, the last step first. -/
def steppedGenerations (deeds : List Deed) : List Nat :=
  deeds.filterMap fun
    | .stepped generation _ => some generation
    | _ => none

/-- The modules that came back from the worker. -/
def arrived (deeds : List Deed) : List Nat :=
  deeds.filterMap fun
    | .adopted _ id | .discarded _ id => some id
    | _ => none

/-- The outcome of a load has been taken on. -/
def Settled (deeds : List Deed) (generation : Nat) : Prop :=
  .failed generation ∈ deeds ∨ ∃ id, .adopted generation id ∈ deeds ∨ .discarded generation id ∈ deeds

end Deed

/-- The modules stepped since an earlier state, the last first. -/
def Session.stepsSince {α : Type v} {σ : Type u} (s earlier : Session α σ) : List Nat :=
  s.steps.take (s.steps.length - earlier.steps.length)

/-- One thing that a part of a session does. The worker handles its requests one by one, and may load the
same source differently every time. -/
inductive Turn (α : Type v) (σ : Type u)
  | load (source : α)
  | process (channels : List (List Sample))
  | handle (load : α → Except LoadError σ)
  | tryReady
  | waitReady (ackFirst : Nat → Bool) (microseconds : Nat)

structure History (α : Type v) (σ : Type u) where
  session : Session α σ
  /-- The newest first. -/
  deeds : List Deed := []

namespace History

variable {α : Type v} {σ : Type u}

/-- The processor takes a load on. A refused load is counted as dropped. -/
def receive (h : History α σ) (source : α) : History α σ :=
  let next := h.session.receive source
  let forwarded := next.processor.stats.droppedLoads == h.session.processor.stats.droppedLoads
  ⟨next, .received next.processor.generation forwarded :: h.deeds⟩

/-- The processor takes an outcome on. -/
def adopt (h : History α σ) (o : LoadOutcome σ) : History α σ :=
  let deed := match o with
    | .loaded p =>
      if h.session.Current o then .adopted p.generation p.module.id
      else .discarded p.generation p.module.id
    | .failed generation => .failed generation
  ⟨h.session.adopt o, deed :: h.deeds⟩

/-- The processor takes on all that has arrived, loads first. -/
def drain (h : History α σ) : History α σ :=
  let s := h.session
  let received := s.control.items.foldl receive ⟨{ s with control := s.control.clear }, h.deeds⟩
  let s := received.session
  s.outcomes.items.foldl adopt ⟨{ s with outcomes := s.outcomes.clear }, received.deeds⟩

/-- The history within a quantum, when all that has arrived is taken on. -/
def taken (h : History α σ) : History α σ :=
  drain ⟨h.session.counted, h.deeds⟩

-- A load that is taken on goes on record as forwarded or as refused.
theorem receive_cases {h : History α σ} (source : α)
    (hslot : h.session.processor.active = none ∨ h.session.processor.parked = none) :
    (∃ requests,
      h.session.requests.push? (.instantiate (h.session.processor.generation + 1) source) =
        some requests ∧
      h.receive source = ⟨{ h.session with requests, processor := h.session.processor.begun },
        .received (h.session.processor.generation + 1) true :: h.deeds⟩) ∨
    h.receive source = ⟨{ h.session with processor := h.session.processor.denied },
      .received (h.session.processor.generation + 1) false :: h.deeds⟩ := by
  unfold receive
  rcases Session.receive_cases source hslot with ⟨requests, hpush, heq⟩ | heq
  · -- no load is counted as dropped
    have hforwarded : (h.session.processor.begun.stats.droppedLoads ==
        h.session.processor.stats.droppedLoads) = true := beq_self_eq_true _
    refine .inl ⟨requests, hpush, ?_⟩
    rw [heq]
    dsimp only
    rw [hforwarded]
    rfl
  · have hrefused : (h.session.processor.denied.stats.droppedLoads ==
        h.session.processor.stats.droppedLoads) = false := by
      rw [beq_eq_false_iff_ne]
      exact Nat.succ_ne_self _
    refine .inr ?_
    rw [heq]
    dsimp only
    rw [hrefused]
    rfl

variable [CompiledModule σ]

/-- A quantum: what has arrived is taken on, and then a module may be stepped. -/
def process (channels : List (List Sample)) (h : History α σ) : History α σ :=
  let next := (h.session.process channels).2
  let steps := (next.stepsSince h.session).filterMap fun id =>
    (Deed.generationOf? h.taken.deeds id).map (.stepped · id)
  ⟨next, steps ++ h.taken.deeds⟩

/-- The history after one more turn. A worker that waits for room leaves all as it is. -/
def turn (h : History α σ) : Turn α σ → History α σ
  | .load source => { h with session := (h.session.load source).2 }
  | .process channels => h.process channels
  | .handle load => { h with session := (h.session.handleNext load).getD h.session }
  | .tryReady => { h with session := h.session.tryReady.2 }
  | .waitReady ackFirst microseconds =>
    { h with session := (h.session.waitReady ackFirst microseconds).2 }

def after (h : History α σ) (turns : List (Turn α σ)) : History α σ :=
  turns.foldl turn h

omit [CompiledModule σ] in
-- The deeds only watch.
theorem drain_session (h : History α σ) : h.drain.session = h.session.drain := by
  -- each of the two folds gives the session of the fold without deeds
  have hreceive (sources : List α) (h : History α σ) :
      (sources.foldl receive h).session = sources.foldl Session.receive h.session := by
    induction sources generalizing h with
    | nil => rfl
    | cons source sources ih => exact ih (h.receive source)
  have hadopt (os : List (LoadOutcome σ)) (h : History α σ) :
      (os.foldl adopt h).session = os.foldl Session.adopt h.session := by
    induction os generalizing h with
    | nil => rfl
    | cons o os ih => exact ih (h.adopt o)
  unfold drain Session.drain
  rw [hadopt, hreceive]

theorem after_append (h : History α σ) (turns rest : List (Turn α σ)) :
    h.after (turns ++ rest) = (h.after turns).after rest :=
  List.foldl_append

-- Handling what is queued is handling one request after another.
theorem runPending_turns {load : α → Except LoadError σ} (h : History α σ) {count : Nat}
    {next : Session α σ} (hrun : h.session.runPending load = some (count, next)) :
    (h.after (List.replicate count (.handle load))).session = next := by
  -- the induction is on the requests left; only how many there are matters
  have hfold (l : List Nat) (h : History α σ) {next : Session α σ}
      (hnext : l.foldlM (fun s _ => s.handleNext load) h.session = some next) :
      (h.after (List.replicate l.length (.handle load))).session = next := by
    induction l generalizing h with
    | nil => exact Option.some.inj hnext
    | cons i l ih =>
      rw [List.foldlM_cons] at hnext
      obtain ⟨s, hs, hnext⟩ := Option.bind_eq_some_iff.mp hnext
      have hturn : (h.turn (.handle load)).session = s := by
        change (h.session.handleNext load).getD h.session = s
        rw [hs]
        rfl
      exact ih (h.turn (.handle load)) (by rw [hturn]; exact hnext)
  obtain ⟨s, hs, hnext⟩ := Option.bind_eq_some_iff.mp hrun
  cases hnext
  have hturns := hfold _ h hs
  rw [List.length_range] at hturns
  exact hturns

end History

end SampleStream
