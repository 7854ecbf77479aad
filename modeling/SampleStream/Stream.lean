import SampleStream.Module

/-!
# Streams

Streams that keep their place as state and fill frames on demand: a constant, a sine, and a script of
prepared steps. A step may fail or panic halfway; what it wrote and where it stands then stay.
-/

namespace SampleStream

universe u

/-- What a step leaves behind. -/
structure Rendering (τ : Type u) where
  ending : Ending Unit
  frames : List Sample
  stream : τ

/-- A stream fills the frames it is given and never changes their number. -/
class NativeStream (τ : Type u) where
  step : τ → List Sample → Rendering τ
  length_step : ∀ s frames, (step s frames).frames.length = frames.length

/-- The same sample for ever. -/
structure Constant where
  value : Sample
deriving DecidableEq, Repr

instance : NativeStream Constant where
  step s frames := ⟨.done (), List.replicate frames.length s.value, s⟩
  length_step := by simp

/-- The sine of a phase that grows by the same amount with every sample. -/
structure Sine where
  frequency : Sample
  sampleRate : UInt32
  phase : Sample
deriving DecidableEq, Repr

namespace Sine

def new (frequency : Sample) (sampleRate : UInt32) : Sine :=
  ⟨frequency, sampleRate, .zero⟩

def increment (s : Sine) : Sample :=
  Sample.tau * s.frequency / Sample.ofNat s.sampleRate.toNat

/-- The sines of `n` phases from `phase` on, and the phase after them. -/
def wave (increment phase : Sample) : Nat → List Sample × Sample
  | 0 => ([], phase)
  | n + 1 =>
    let (rest, last) := wave increment ((phase + increment) % Sample.tau) n
    (phase.sin :: rest, last)

theorem length_wave (increment phase : Sample) (n : Nat) :
    (wave increment phase n).1.length = n := by
  induction n generalizing phase with
  | zero => rfl
  | succ n ih => simp [wave, ih]

end Sine

instance : NativeStream Sine where
  step s frames :=
    let (samples, phase) := Sine.wave s.increment s.phase frames.length
    ⟨.done (), samples, { s with phase }⟩
  length_step s frames := Sine.length_wave s.increment s.phase frames.length

/-- One prepared step: fills the frames, then overwrites the first ones, then ends. -/
structure Script.Action where
  fill : Option Sample
  samples : List Sample
  ending : Ending Unit
deriving Repr

/-- Prepared steps in order; the last repeats. Without any, a step does nothing and succeeds. -/
structure Script where
  actions : List Script.Action
deriving Repr

namespace Script

/-- The frames with `samples` written over the first of them. -/
def overwrite (samples frames : List Sample) : List Sample :=
  samples.take frames.length ++ frames.drop samples.length

theorem length_overwrite (samples frames : List Sample) :
    (overwrite samples frames).length = frames.length := by
  simp only [overwrite, List.length_append, List.length_take, List.length_drop]
  omega

def Action.frames (a : Action) (frames : List Sample) : List Sample :=
  overwrite a.samples (match a.fill with
    | some value => List.replicate frames.length value
    | none => frames)

theorem Action.length_frames (a : Action) (frames : List Sample) :
    (a.frames frames).length = frames.length := by
  unfold Action.frames
  rw [length_overwrite]
  cases a.fill <;> simp

end Script

/-- The element at the front of a list whose last element repeats, and the list after it. -/
def takeTurn {α : Type u} : List α → Option (α × List α)
  | [] => none
  | [a] => some (a, [a])
  | a :: rest => some (a, rest)

instance : NativeStream Script where
  step s frames :=
    match takeTurn s.actions with
    | none => ⟨.done (), frames, s⟩
    | some (a, rest) => ⟨a.ending, a.frames frames, ⟨rest⟩⟩
  length_step s frames := by
    split
    · rfl
    · exact Script.Action.length_frames _ frames

/-- Steps a stream once for every count, each time into zeroed frames; nothing once a step panics. -/
def renderChunks {τ : Type u} [NativeStream τ] (s : τ) :
    List Nat → Option (List (Except ModuleError (List Sample)))
  | [] => some []
  | n :: counts =>
    let r := NativeStream.step s (List.replicate n Sample.zero)
    match r.ending with
    | .done () => (renderChunks r.stream counts).map (.ok r.frames :: ·)
    | .failed e => (renderChunks r.stream counts).map (.error e :: ·)
    | .panicked => none

end SampleStream
