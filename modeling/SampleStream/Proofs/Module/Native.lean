import SampleStream.Module.Source

/-!
# Native modules play their streams

A stream that is called again and again on one buffer is a `Playback`. A native module that is stepped as it
should be keeps to the playback of its stream, call by call, and what it writes into its memory is read back
bit for bit.
-/

namespace SampleStream

universe u w

-- Every bit of a word is in one of its four bytes.
theorem word_of_bytes (w : BitVec 32) :
    (w.setWidth 8).setWidth 32 ||| ((w >>> 8).setWidth 8).setWidth 32 <<< 8
      ||| ((w >>> 16).setWidth 8).setWidth 32 <<< 16
      ||| ((w >>> 24).setWidth 8).setWidth 32 <<< 24 = w := by
  ext i hi
  simp only [BitVec.getElem_or, BitVec.getElem_setWidth, BitVec.getElem_shiftLeft,
    BitVec.getLsbD_setWidth, BitVec.getLsbD_ushiftRight, BitVec.getLsbD_eq_getElem hi]
  by_cases h8 : i < 8
  · simp [h8, show i < 16 by omega, show i < 24 by omega]
  by_cases h16 : i < 16
  · simp [h8, h16, show i - 8 < 8 by omega, show i < 24 by omega, show 8 + (i - 8) = i by omega,
      BitVec.getLsbD_eq_getElem hi]
  by_cases h24 : i < 24
  · simp [h8, h16, h24, show ¬i - 8 < 8 by omega, show i - 16 < 8 by omega,
      show 16 + (i - 16) = i by omega, BitVec.getLsbD_eq_getElem hi]
  · simp [h8, h16, h24, show ¬i - 8 < 8 by omega, show ¬i - 16 < 8 by omega,
      show i - 24 < 8 by omega, show 24 + (i - 24) = i by omega, BitVec.getLsbD_eq_getElem hi]

theorem decodeSamples_toBytes (s : Sample) (rest : List UInt8) :
    decodeSamples (s.toBytes ++ rest) = s :: decodeSamples rest := by
  have hs : Sample.ofBytes s.bits.toUInt8 (s.bits >>> 8).toUInt8 (s.bits >>> 16).toUInt8
      (s.bits >>> 24).toUInt8 = s :=
    congrArg Sample.mk (UInt32.toBitVec_inj.mp (word_of_bytes s.bits.toBitVec))
  change _ :: decodeSamples rest = _
  rw [hs]

theorem decodeSamples_encodeSamples (samples : List Sample) :
    decodeSamples (encodeSamples samples) = samples := by
  induction samples with
  | nil => rfl
  | cons s samples ih =>
    change decodeSamples (s.toBytes ++ encodeSamples samples) = _
    rw [decodeSamples_toBytes, ih]

theorem length_encodeSamples (samples : List Sample) :
    (encodeSamples samples).length = samples.length * sampleSize := by
  induction samples with
  | nil => rfl
  | cons s samples ih =>
    change (s.toBytes ++ encodeSamples samples).length = _
    have hbytes : s.toBytes.length = sampleSize := rfl
    rw [List.length_append, List.length_cons, hbytes, ih, Nat.succ_mul, Nat.add_comm]

theorem encodeSamples_append (samples more : List Sample) :
    encodeSamples (samples ++ more) = encodeSamples samples ++ encodeSamples more :=
  List.flatMap_append

-- What was written at a pointer is read back there, all of it or as much as is asked for.
theorem readSamples_written {before after : List UInt8} {samples : List Sample} {ptr : Pointer}
    (hptr : before.length = ptr.toNat) {count : Nat} (hcount : count ≤ samples.length) :
    readSamples (before ++ encodeSamples samples ++ after) ptr count = .ok (samples.take count) := by
  have hlength := length_encodeSamples samples
  have htake : (samples.take count).length = count := List.length_take_of_le hcount
  have hprefix : (encodeSamples samples ++ after).take (count * sampleSize) =
      encodeSamples (samples.take count) := by
    rw [← List.take_append_drop count samples, encodeSamples_append, List.append_assoc,
      List.take_append_drop]
    refine List.take_left' ?_
    rw [length_encodeSamples, htake]
  have hbound : ptr.toNat + count * sampleSize ≤
      (before ++ encodeSamples samples ++ after).length := by
    rw [List.length_append, List.length_append, hlength, hptr]
    have := Nat.mul_le_mul_right sampleSize hcount
    omega
  unfold readSamples
  dsimp only
  rw [if_pos hbound, List.append_assoc, ← hptr, List.drop_left, hprefix, decodeSamples_encodeSamples]

/-- The same end, with what is made of the result. -/
def Ending.map {α β : Type} (f : α → β) : Ending α → Ending β
  | .done result => .done (f result)
  | .failed e => .failed e
  | .panicked => .panicked

/-- A stream on the way, and the one buffer that all of its calls fill. -/
structure Playback (τ : Type u) where
  stream : τ
  buffer : List Sample

namespace Playback

variable {τ : Type u} [NativeStream τ]

/-- A stream before its first call: the buffer has so many samples, all zero. -/
def start {τ : Type u} (stream : τ) (size : Nat) : Playback τ :=
  ⟨stream, List.replicate size .zero⟩

/-- The next call of the stream. -/
def call (p : Playback τ) : Rendering τ :=
  NativeStream.step p.stream p.buffer

def next (p : Playback τ) : Playback τ :=
  ⟨p.call.stream, p.call.frames⟩

/-- The playback after so many calls, whether they succeeded or not. -/
def after (p : Playback τ) : Nat → Playback τ
  | 0 => p
  | calls + 1 => (p.after calls).next

theorem length_next (p : Playback τ) : p.next.buffer.length = p.buffer.length :=
  NativeStream.length_step p.stream p.buffer

theorem length_after (p : Playback τ) (calls : Nat) :
    (p.after calls).buffer.length = p.buffer.length := by
  induction calls with
  | zero => rfl
  | succ calls ih => rw [after, length_next, ih]

end Playback

namespace NativeModule

variable {τ : Type u}

/-- Where the buffer of a module begins that has no other. -/
def scratch : Pointer :=
  .ofNat guard

/-- The step gets past all checks of the module, so that it calls the stream. -/
structure Accepts (m : NativeModule τ) (handle : Handle) (quantum : Nat) (out : Pointer) : Prop where
  live : handle = m.live
  size : quantum * sampleSize < UInt64.size
  memory : out.toNat + quantum * sampleSize ≤ m.memory.length
  frames : quantum ≤ m.frames.length

/-- The module is where the playback is, and has the memory for its buffer. -/
structure InTune (m : NativeModule τ) (p : Playback τ) : Prop where
  stream : m.stream = p.stream
  frames : m.frames = p.buffer
  memory : m.memory.length = guard + p.buffer.length * sampleSize
  /-- Pointers reach all of the memory. -/
  small : m.memory.length < UInt32.size

theorem InTune.accepts {m : NativeModule τ} {p : Playback τ} (hm : m.InTune p) :
    m.Accepts m.live p.buffer.length scratch where
  live := rfl
  size := by
    have hmemory := hm.memory
    have hsmall := hm.small
    rw [UInt32.size] at hsmall
    rw [UInt64.size]
    omega
  memory := Nat.le_of_eq hm.memory.symm
  frames := Nat.le_of_eq (by rw [hm.frames])

theorem next_new (stream : τ) : (new stream).next = guard := by
  unfold new next
  rw [List.length_replicate]
  rfl

-- A new module is given its buffer if that is within the reach of pointers.
theorem alloc_new (stream : τ) {size : Nat} (hfits : guard + size * sampleSize < UInt32.size) :
    ∃ m : NativeModule τ, (new stream).alloc (size * sampleSize) = (.ok scratch, m) ∧
      m.InTune (.start stream size) := by
  have halloc : (new stream).alloc (size * sampleSize) =
      if guard + size * sampleSize < UInt32.size then
        (.ok scratch, { new stream with
          memory := List.replicate guard 0
            ++ List.replicate (guard + size * sampleSize - (List.replicate guard (0 : UInt8)).length) 0
          frames := [] ++ List.replicate (size * sampleSize / sampleSize - 0) .zero })
      else (.error (.alloc (size * sampleSize)), new stream) := by
    unfold alloc
    rw [next_new]
    rfl
  rw [if_pos hfits] at halloc
  have hmemory : (List.replicate guard (0 : UInt8) ++ List.replicate
      (guard + size * sampleSize - (List.replicate guard (0 : UInt8)).length) 0).length =
        guard + size * sampleSize := by
    rw [List.length_append, List.length_replicate, List.length_replicate]
    omega
  have hbuffer : (Playback.start stream size).buffer.length = size := List.length_replicate
  refine ⟨_, halloc, rfl, ?_, ?_, Nat.lt_of_le_of_lt (Nat.le_of_eq hmemory) hfits⟩
  · rw [Nat.sub_zero, Nat.mul_div_cancel size (by decide)]
    rfl
  · rw [hbuffer]
    exact hmemory

theorem alloc_new_refused (stream : τ) {size : Nat}
    (hlarge : ¬guard + size * sampleSize < UInt32.size) :
    (new stream).alloc (size * sampleSize) = (.error (.alloc (size * sampleSize)), new stream) := by
  unfold alloc
  rw [next_new]
  exact if_neg hlarge

section Accepted

variable {m : NativeModule τ} {handle : Handle} {quantum : Nat} {out : Pointer}

theorem Accepts.length_take (h : m.Accepts handle quantum out) :
    (m.memory.take out.toNat).length = out.toNat :=
  List.length_take_of_le (Nat.le_trans (Nat.le_add_right _ _) h.memory)

-- As many frames as were asked for fit exactly where they are written.
theorem Accepts.length_written (h : m.Accepts handle quantum out) {frames : List Sample}
    (hframes : frames.length = quantum) :
    (m.memory.take out.toNat ++ encodeSamples frames
      ++ m.memory.drop (out.toNat + quantum * sampleSize)).length = m.memory.length := by
  have hmemory := h.memory
  rw [List.length_append, List.length_append, h.length_take, length_encodeSamples, hframes,
    List.length_drop]
  omega

variable [NativeStream τ]

-- A step that is accepted calls the stream once, and writes the frames if the call succeeds.
theorem Accepts.step_eq (h : m.Accepts handle quantum out) : m.step handle quantum out =
    let r := NativeStream.step m.stream (m.frames.take quantum)
    let called := { m with stream := r.stream, frames := r.frames ++ m.frames.drop quantum }
    match r.ending with
    | .panicked => (.panicked, called)
    | .failed e => (.failed e, called)
    | .done () => (.done ⟨m.live.id + 1⟩, { called with
        memory := m.memory.take out.toNat ++ encodeSamples r.frames
          ++ m.memory.drop (out.toNat + quantum * sampleSize)
        live := ⟨m.live.id + 1⟩ }) := by
  have hbounds : ¬(m.memory.length < out.toNat + quantum * sampleSize ∨ m.frames.length < quantum) := by
    rintro (hshort | hshort)
    · exact Nat.not_lt.mpr h.memory hshort
    · exact Nat.not_lt.mpr h.frames hshort
  have hlive : ¬handle ≠ m.live := fun hstale => hstale h.live
  have hsize : ¬UInt64.size ≤ quantum * sampleSize := Nat.not_le.mpr h.size
  exact (if_neg hlive).trans ((if_neg hsize).trans (if_neg hbounds))

end Accepted

variable [NativeStream τ]

-- A step that is accepted is the next call of the stream, and ends as that does. When it succeeds, the
-- buffer is in the memory; otherwise the continuation stays.
theorem InTune.step {m : NativeModule τ} {p : Playback τ} (hm : m.InTune p) :
    ∃ next : NativeModule τ, m.step m.live p.buffer.length scratch =
        (p.call.ending.map fun _ => next.live, next) ∧
      next.InTune p.next ∧ (p.call.ending ≠ .done () → next.live = m.live) ∧
      (p.call.ending = .done () → ∀ count ≤ p.buffer.length,
        readSamples next.memory scratch count = .ok (p.next.buffer.take count)) := by
  have haccepts := hm.accepts
  have hlength : p.next.buffer.length = p.buffer.length := p.length_next
  have hcall : NativeStream.step m.stream (m.frames.take p.buffer.length) = p.call := by
    rw [hm.stream, hm.frames, List.take_length]
    rfl
  -- the buffer covers all frames, so that no frame keeps what was in it
  have hframes : p.call.frames ++ m.frames.drop p.buffer.length = p.next.buffer := by
    rw [hm.frames, List.drop_length, List.append_nil]
    rfl
  rw [haccepts.step_eq, hcall]
  dsimp only
  rw [hframes]
  cases p.call.ending with
  | panicked =>
    refine ⟨_, rfl, ⟨rfl, rfl, ?_, hm.small⟩, fun _ => rfl, nofun⟩
    rw [hlength]
    exact hm.memory
  | failed e =>
    refine ⟨_, rfl, ⟨rfl, rfl, ?_, hm.small⟩, fun _ => rfl, nofun⟩
    rw [hlength]
    exact hm.memory
  | done result =>
    have hmemory := haccepts.length_written hlength
    refine ⟨⟨p.call.stream, _, p.next.buffer, ⟨m.live.id + 1⟩⟩, rfl, ⟨rfl, rfl, ?_, ?_⟩,
      fun hnot => absurd rfl hnot, ?_⟩
    · rw [hlength]
      exact hmemory.trans hm.memory
    · exact Nat.lt_of_le_of_lt (Nat.le_of_eq hmemory) hm.small
    · intro _ count hcount
      exact readSamples_written haccepts.length_take (Nat.le_trans hcount (Nat.le_of_eq hlength.symm))

end NativeModule

/-- Native modules of one kind among all modules of a session. -/
structure Embedding (τ : Type u) (σ : Type w) [NativeStream τ] [CompiledModule σ] where
  wrap : NativeModule τ → σ
  memory : ∀ m, CompiledModule.memory (wrap m) = m.memory
  alloc : ∀ m size, CompiledModule.alloc (wrap m) size = (m.alloc size).map id wrap
  entry : ∀ m, CompiledModule.entry (wrap m) = (.ok m.live, wrap m)
  step : ∀ m handle quantum out,
    CompiledModule.step (wrap m) handle quantum out = (m.step handle quantum out).map id wrap

namespace AnyModule

def constants : Embedding Constant AnyModule :=
  ⟨.constant, fun _ => rfl, fun _ _ => rfl, fun _ => rfl, fun _ _ _ _ => rfl⟩

def sines : Embedding Sine AnyModule :=
  ⟨.sine, fun _ => rfl, fun _ _ => rfl, fun _ => rfl, fun _ _ _ _ => rfl⟩

def scripts : Embedding Script AnyModule :=
  ⟨.script, fun _ => rfl, fun _ _ => rfl, fun _ => rfl, fun _ _ _ _ => rfl⟩

end AnyModule

end SampleStream
