import SampleStream.Proofs.Session.Ownership

/-!
# The calls of a module

The trace of a session says which calls were made, and a module answers each from the state that the calls
before it left. So what a module was asked and what it answered follows from the trace and the state that it
was made in (`Loaded.replay`). Only the worker and a step make calls: whatever else a part of a session does
leaves them as they are.
-/

namespace SampleStream

universe u v w

variable {α : Type v} {σ : Type u}

/-- A call of a module, and how it ended. -/
inductive Call
  | alloc (size : Nat) (result : Except ModuleError Pointer)
  | entry (result : Except ModuleError Handle)
  | step (handle : Handle) (quantum : Nat) (out : Pointer) (ending : Ending Handle)
deriving DecidableEq

namespace Call

/-- The buffer that the call gave. -/
def buffer? : Call → Option Pointer
  | .alloc _ (.ok ptr) => some ptr
  | _ => none

/-- The continuation that the call gave. -/
def continuation? : Call → Option Handle
  | .entry (.ok handle) => some handle
  | .step _ _ _ (.done next) => some next
  | _ => none

def isStep : Call → Bool
  | .step _ _ _ _ => true
  | _ => false

end Call

/-- Something was asked of the module, rather than that it was dropped. -/
def Event.isCall : Event → Bool
  | .dropped _ => false
  | _ => true

/-- The call that was made, with what the module answers in a state, and its state after that. -/
def Event.answer? [CompiledModule σ] (state : σ) : Event → Option (Call × σ)
  | .alloc _ size =>
    let (result, next) := CompiledModule.alloc state size
    some (.alloc size result, next)
  | .entered _ =>
    let (result, next) := CompiledModule.entry state
    some (.entry result, next)
  | .stepped _ handle quantum out =>
    let (ending, next) := CompiledModule.step state handle quantum out
    some (.step handle quantum out ending, next)
  | .dropped _ => none

namespace Loaded

variable [CompiledModule σ] {m : Loaded σ} {events : List Event} {e : Event}

/-- The calls of a module that was made in this state, and the state that they leave it in. The newest come
first, as in a trace. -/
def replay (m : Loaded σ) : List Event → List Call × σ
  | [] => ([], m.state)
  | e :: events =>
    let (calls, state) := m.replay events
    if e.module = m.id then
      match e.answer? state with
      | some (call, next) => (call :: calls, next)
      | none => (calls, state)
    else (calls, state)

theorem replay_cons {call : Call} {next : σ} (hid : e.module = m.id)
    (hcall : e.answer? (m.replay events).2 = some (call, next)) :
    m.replay (e :: events) = (call :: (m.replay events).1, next) := by
  rw [replay]
  dsimp only
  rw [if_pos hid, hcall]

theorem replay_alloc {calls : List Call} {state next : σ} {size : Nat} {result : Except ModuleError Pointer}
    (hbefore : m.replay events = (calls, state)) (halloc : CompiledModule.alloc state size = (result, next)) :
    m.replay (.alloc m.id size :: events) = (.alloc size result :: calls, next) := by
  rw [replay_cons rfl (by rw [Event.answer?]), hbefore, halloc]

theorem replay_entered {calls : List Call} {state next : σ} {result : Except ModuleError Handle}
    (hbefore : m.replay events = (calls, state)) (hentry : CompiledModule.entry state = (result, next)) :
    m.replay (.entered m.id :: events) = (.entry result :: calls, next) := by
  rw [replay_cons rfl (by rw [Event.answer?]), hbefore, hentry]

theorem replay_cons_of_ne (hid : e.module ≠ m.id) : m.replay (e :: events) = m.replay events := by
  rw [replay]
  dsimp only
  rw [if_neg hid]

theorem replay_cons_of_not_call (hcall : e.isCall = false) :
    m.replay (e :: events) = m.replay events := by
  cases e with
  | dropped id =>
    rw [replay]
    dsimp only
    split <;> rfl
  | _ => cases hcall

-- Only calls matter.
theorem replay_filter (m : Loaded σ) (events : List Event) :
    m.replay (events.filter Event.isCall) = m.replay events := by
  induction events with
  | nil => rfl
  | cons e events ih =>
    by_cases hcall : e.isCall = true
    · rw [List.filter_cons_of_pos hcall, replay, replay, ih]
    · rw [List.filter_cons_of_neg hcall, ih, replay_cons_of_not_call (Bool.eq_false_iff.mpr hcall)]

-- Neither do calls of other modules.
theorem replay_append_of_ne {earlier : List Event} (h : ∀ e ∈ events, e.module ≠ m.id) :
    m.replay (events ++ earlier) = m.replay earlier := by
  induction events with
  | nil => rfl
  | cons e events ih =>
    rw [List.forall_mem_cons] at h
    rw [List.cons_append, replay_cons_of_ne h.1, ih h.2]

end Loaded

namespace Session

variable {s : Session α σ}

/-- What modules were asked, the last first. -/
def calls (s : Session α σ) : List Event :=
  s.trace.filter Event.isCall

@[simp] theorem calls_dropActive (place : Option (Active σ)) (s : Session α σ) :
    (s.dropActive place).calls = s.calls := by
  cases place <;> rfl

@[simp] theorem calls_dropOutcome (s : Session α σ) (o : LoadOutcome σ) :
    (s.dropOutcome o).calls = s.calls := by
  cases o <;> rfl

@[simp] theorem calls_dropRequest (s : Session α σ) (r : Request α σ) :
    (s.dropRequest r).calls = s.calls := by
  cases r <;> rfl

@[simp] theorem calls_retire (m : Loaded σ) (s : Session α σ) : (s.retire m).calls = s.calls := by
  unfold retire
  cases hr : s.request? (.retire m) with
  | none => rfl
  | some next =>
    obtain ⟨requests, -, rfl⟩ := request?_eq_some hr
    rfl

@[simp] theorem calls_install (a : Active σ) (s : Session α σ) : (s.install a).calls = s.calls :=
  s.calls_dropActive s.processor.active

@[simp] theorem calls_restoreParked (s : Session α σ) : s.restoreParked.calls = s.calls := by
  unfold restoreParked
  split
  · rw [calls_install]
    rfl
  · rfl

@[simp] theorem calls_retireParked (s : Session α σ) : s.retireParked.calls = s.calls := by
  unfold retireParked
  split
  · rw [calls_retire]
    rfl
  · rfl

@[simp] theorem calls_park (s : Session α σ) : s.park.calls = s.calls := by
  unfold park
  split
  · rfl
  · dsimp only
    split
    · rw [calls_retire]
      rfl
    · rfl

@[simp] theorem calls_receive (s : Session α σ) (source : α) : (s.receive source).calls = s.calls := by
  have hparked := calls_park { s with processor := { s.processor with
    generation := s.processor.generation + 1 } }
  unfold receive
  dsimp only
  generalize ({ s with processor := { s.processor with
    generation := s.processor.generation + 1 } } : Session α σ).park = parked at hparked ⊢
  split
  · rename_i next hr
    obtain ⟨requests, -, rfl⟩ := request?_eq_some hr
    exact hparked
  · rw [calls_restoreParked]
    exact hparked

@[simp] theorem calls_adopt (s : Session α σ) (o : LoadOutcome σ) : (s.adopt o).calls = s.calls := by
  unfold adopt
  cases o with
  | loaded p =>
    dsimp only
    split
    · exact (calls_install p.activate s.retireParked).trans s.calls_retireParked
    · exact s.calls_retire p.module
  | failed generation =>
    dsimp only
    split
    · exact s.calls_restoreParked
    · rfl

theorem calls_foldl {β : Type w} {f : Session α σ → β → Session α σ}
    (hf : ∀ s b, (f s b).calls = s.calls) (bs : List β) (s : Session α σ) :
    (bs.foldl f s).calls = s.calls := by
  induction bs generalizing s with
  | nil => rfl
  | cons b bs ih => exact (ih (f s b)).trans (hf s b)

@[simp] theorem calls_drain (s : Session α σ) : s.drain.calls = s.calls := by
  let received := s.control.items.foldl receive { s with control := s.control.clear }
  have hreceived : received.calls = s.calls := calls_foldl calls_receive _ _
  exact (calls_foldl calls_adopt received.outcomes.items _).trans hreceived

@[simp] theorem calls_dropQueues (s : Session α σ) : s.dropQueues.calls = s.calls :=
  (calls_foldl calls_dropOutcome s.outcomes.items _).trans
    (calls_foldl calls_dropRequest s.requests.items _)

@[simp] theorem calls_dropWorker (s : Session α σ) : s.dropWorker.calls = s.calls := by
  unfold dropWorker
  dsimp only
  split
  · rfl
  · exact calls_dropQueues { s with workerAlive := false }

@[simp] theorem calls_dropProcessor (s : Session α σ) : s.dropProcessor.calls = s.calls := by
  let gone : Session α σ := { s with
    processorAlive := false
    processor := { s.processor with active := none, parked := none } }
  have hslot : ((gone.dropActive s.processor.active).dropActive s.processor.parked).calls = s.calls :=
    (calls_dropActive _ _).trans (gone.calls_dropActive _)
  unfold dropProcessor
  dsimp only
  split
  · exact hslot
  · exact (calls_dropQueues _).trans hslot

end Session

end SampleStream
