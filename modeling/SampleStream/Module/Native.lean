import SampleStream.Stream

/-!
# Native modules

A native stream behind the interface of compiled modules. Samples go through the memory, and every
successful step gives out a fresh handle and makes the one before it stale.
-/

namespace SampleStream

universe u

structure NativeModule (τ : Type u) where
  stream : τ
  memory : List UInt8
  /-- The frames that the stream fills. -/
  frames : List Sample
  /-- The only handle that may be stepped. -/
  live : Handle

namespace NativeModule

/-- Bytes at the beginning of the memory that no buffer covers. -/
def guard : Nat := 8

def new {τ : Type u} (stream : τ) : NativeModule τ where
  stream
  memory := List.replicate guard 0
  frames := []
  live := ⟨0⟩

variable {τ : Type u}

/-- Where the next buffer begins: the end of the memory, rounded up to whole samples. -/
def next (m : NativeModule τ) : Nat :=
  (m.memory.length + (sampleSize - 1)) / sampleSize * sampleSize

/-- Memory ends below the reach of pointers, so a buffer that would end beyond it is refused. -/
def alloc (m : NativeModule τ) (size : Nat) : Except ModuleError Pointer × NativeModule τ :=
  let stop := m.next + size
  if stop < UInt32.size then
    (.ok (.ofNat m.next),
      { m with
        memory := m.memory ++ List.replicate (stop - m.memory.length) 0
        frames := m.frames ++ List.replicate (size / sampleSize - m.frames.length) .zero })
  else (.error (.alloc size), m)

/-- Steps the stream and, if it succeeds, writes its frames at the pointer. The handle is looked at
first, then the size of the quantum, then its place; a step that is refused does not reach the stream. -/
def step [NativeStream τ] (m : NativeModule τ) (handle : Handle) (quantum : Nat) (out : Pointer) :
    Ending Handle × NativeModule τ :=
  let length := quantum * sampleSize
  if handle ≠ m.live then (.failed (.staleHandle handle), m)
  else if UInt64.size ≤ length then (.panicked, m)
  else if m.memory.length < out.toNat + length ∨ m.frames.length < quantum then
    (.failed (.outOfBounds out length m.memory.length), m)
  else
    let r := NativeStream.step m.stream (m.frames.take quantum)
    let m := { m with stream := r.stream, frames := r.frames ++ m.frames.drop quantum }
    match r.ending with
    | .panicked => (.panicked, m)
    | .failed e => (.failed e, m)
    | .done () =>
      let live : Handle := ⟨m.live.id + 1⟩
      (.done live,
        { m with
          memory := m.memory.take out.toNat ++ encodeSamples r.frames
            ++ m.memory.drop (out.toNat + length)
          live })

end NativeModule

instance {τ : Type u} [NativeStream τ] : CompiledModule (NativeModule τ) where
  memory := NativeModule.memory
  alloc := NativeModule.alloc
  entry m := (.ok m.live, m)
  step := NativeModule.step

end SampleStream
