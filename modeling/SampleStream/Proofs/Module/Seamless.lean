import SampleStream.Proofs.Module.Native

/-!
# Seamless streams

A stream is seamless if nobody can tell from its samples how many it was asked for at a time: two calls, one
after the other, are one call for all of their frames. The constant and the sine are. So the samples that a
playback records are those of a single call.
-/

namespace SampleStream

universe u

variable {τ : Type u} [NativeStream τ]

variable (τ) in
/-- A call for some frames and one for the rest give what one call for all of them gives, whatever is in the
frames. -/
structure Seamless : Prop where
  nothing : ∀ stream : τ, NativeStream.step stream [] = ⟨.done (), [], stream⟩
  more : ∀ (stream : τ) (first rest : List Sample),
    let before := NativeStream.step stream first
    let after := NativeStream.step before.stream rest
    NativeStream.step stream (first ++ rest) = ⟨.done (), before.frames ++ after.frames, after.stream⟩
  fresh : ∀ (stream : τ) {frames others : List Sample}, others.length = frames.length →
    NativeStream.step stream others = NativeStream.step stream frames

theorem seamless_constant : Seamless Constant where
  nothing _ := rfl
  more stream first rest := by
    change (⟨.done (), List.replicate (first ++ rest).length stream.value, stream⟩ : Rendering Constant) =
      ⟨.done (), List.replicate first.length stream.value ++ List.replicate rest.length stream.value, stream⟩
    rw [List.replicate_append_replicate, List.length_append]
  fresh stream frames others hlength := by
    change (⟨.done (), List.replicate others.length stream.value, stream⟩ : Rendering Constant) =
      ⟨.done (), List.replicate frames.length stream.value, stream⟩
    rw [hlength]

-- A wave goes on from the phase that its beginning ends with.
theorem Sine.wave_add (increment phase : Sample) (first rest : Nat) :
    wave increment phase (first + rest) =
      ((wave increment phase first).1 ++ (wave increment (wave increment phase first).2 rest).1,
        (wave increment (wave increment phase first).2 rest).2) := by
  induction first generalizing phase with
  | zero => rw [Nat.zero_add]; rfl
  | succ first ih =>
    rw [Nat.succ_add]
    simp only [wave, ih, List.cons_append]

theorem seamless_sine : Seamless Sine where
  nothing _ := rfl
  more stream first rest := by
    -- the increment is that of the frequency and the rate, which no call changes
    have hwave := Sine.wave_add stream.increment stream.phase first.length rest.length
    rw [← List.length_append] at hwave
    change (⟨.done (), (Sine.wave stream.increment stream.phase (first ++ rest).length).1,
      { stream with phase := (Sine.wave stream.increment stream.phase (first ++ rest).length).2 }⟩ :
        Rendering Sine) = _
    rw [hwave]
    rfl
  fresh stream frames others hlength := by
    change (⟨.done (), (Sine.wave stream.increment stream.phase others.length).1,
      { stream with phase := (Sine.wave stream.increment stream.phase others.length).2 }⟩ :
        Rendering Sine) = _
    rw [hlength]
    rfl

/-- Fills chunks of frames, one after the other: the chunks as they are then, and the stream after them. None
once a call does not succeed. -/
def fillChunks (stream : τ) : List (List Sample) → Option (List (List Sample) × τ)
  | [] => some ([], stream)
  | chunk :: chunks =>
    let r := NativeStream.step stream chunk
    match r.ending with
    | .done () => (fillChunks r.stream chunks).map fun (filled, last) => (r.frames :: filled, last)
    | _ => none

/-- The samples of the next calls of a playback. -/
def Playback.recorded (p : Playback τ) : Nat → List Sample
  | 0 => []
  | calls + 1 => p.next.buffer ++ p.next.recorded calls

namespace Seamless

variable (hs : Seamless τ)
include hs

theorem ending_eq_done (stream : τ) (frames : List Sample) :
    (NativeStream.step stream frames).ending = .done () := by
  have hmore := congrArg Rendering.ending (hs.more stream frames [])
  rw [List.append_nil] at hmore
  exact hmore

-- Chunks are filled like the frames that they are cut from.
theorem fillChunks_eq (stream : τ) (chunks : List (List Sample)) : ∃ filled,
    fillChunks stream chunks = some (filled, (NativeStream.step stream chunks.flatten).stream) ∧
      filled.flatten = (NativeStream.step stream chunks.flatten).frames := by
  induction chunks generalizing stream with
  | nil =>
    rw [List.flatten_nil, hs.nothing]
    exact ⟨[], rfl, rfl⟩
  | cons chunk chunks ih =>
    obtain ⟨filled, hfill, hflatten⟩ := ih (NativeStream.step stream chunk).stream
    refine ⟨(NativeStream.step stream chunk).frames :: filled, ?_, ?_⟩
    · rw [fillChunks]
      dsimp only
      rw [hs.ending_eq_done, hfill, List.flatten_cons, hs.more]
      rfl
    · rw [List.flatten_cons, List.flatten_cons, hs.more, hflatten]

-- The calls of a playback are one call for as many frames as all of them have.
theorem recorded_eq (p : Playback τ) (calls : Nat) : p.recorded calls =
    (NativeStream.step p.stream (List.replicate (calls * p.buffer.length) .zero)).frames := by
  induction calls generalizing p with
  | zero =>
    rw [Nat.zero_mul, List.replicate_zero, hs.nothing]
    rfl
  | succ calls ih =>
    have hfirst : NativeStream.step p.stream (List.replicate p.buffer.length .zero) = p.call :=
      hs.fresh p.stream List.length_replicate
    rw [Playback.recorded, ih, p.length_next, Nat.succ_mul, Nat.add_comm,
      ← List.replicate_append_replicate, hs.more, hfirst]
    rfl

end Seamless

end SampleStream
