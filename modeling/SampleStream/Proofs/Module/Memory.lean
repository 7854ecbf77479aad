import Mathlib.Algebra.Order.Ring.Nat
import SampleStream.Proofs.Module.Native

/-!
# The memory of native modules

Whatever a native module is asked, in whatever order: its memory only grows, each buffer that it gives out is
fresh, and the only bytes that change are those that a successful step writes. One handle can be stepped at a
time. A call that is refused leaves memory and handle as they are, so that it can be made again
(`memory_disciplined`).
-/

namespace SampleStream

universe u

namespace Sample

/-- The byte of the word with the weight `256 ^ place`. -/
def byte (s : Sample) (place : Nat) : UInt8 :=
  .ofNat (s.bits.toNat / 256 ^ place)

theorem toBytes_getElem? (s : Sample) {place : Nat} (h : place < sampleSize) :
    s.toBytes[place]? = some (s.byte place) := by
  have hbyte (shift : UInt32) (hshift : shift.toNat = 8 * place) :
      (s.bits >>> shift).toUInt8 = s.byte place := by
    apply UInt8.toNat_inj.mp
    have hlt : shift.toNat < 32 := by
      rw [hshift]
      unfold sampleSize at h
      omega
    rw [UInt32.toNat_toUInt8, UInt32.toNat_shiftRight, Nat.mod_eq_of_lt hlt, hshift, byte,
      UInt8.toNat_ofNat', Nat.shiftRight_eq_div_pow, Nat.pow_mul]
  match place, h with
  | 0, _ =>
    have hzero := hbyte 0 rfl
    rw [← hzero]
    simp [toBytes]
  | 1, _ => exact congrArg some (hbyte 8 rfl)
  | 2, _ => exact congrArg some (hbyte 16 rfl)
  | 3, _ => exact congrArg some (hbyte 24 rfl)

end Sample

-- The bytes of a sample stand one behind the other, those of the samples before it in front of them.
theorem encodeSamples_getElem? {samples : List Sample} {i place : Nat} {s : Sample}
    (hs : samples[i]? = some s) (hplace : place < sampleSize) :
    (encodeSamples samples)[i * sampleSize + place]? = some (s.byte place) := by
  induction samples generalizing i with
  | nil => simp at hs
  | cons first samples ih =>
    show (first.toBytes ++ encodeSamples samples)[i * sampleSize + place]? = _
    have hfirst : first.toBytes.length = sampleSize := rfl
    cases i with
    | zero =>
      obtain rfl : first = s := by simpa using hs
      rw [Nat.zero_mul, Nat.zero_add, List.getElem?_append_left (by rw [hfirst]; exact hplace)]
      exact first.toBytes_getElem? hplace
    | succ i =>
      rw [Nat.succ_mul, List.getElem?_append_right (by omega), hfirst,
        show i * sampleSize + sampleSize + place - sampleSize = i * sampleSize + place by omega]
      exact ih (by simpa using hs)

/-- The samples stand in a memory from the pointer on, the byte of the least weight of each in front, and
the rest of the memory is as it was before. -/
structure Written (before after : List UInt8) (out : Pointer) (samples : List Sample) : Prop where
  length : after.length = before.length
  byte : ∀ i s, samples[i]? = some s → ∀ place < sampleSize,
    after[out.toNat + (i * sampleSize + place)]? = some (s.byte place)
  rest : ∀ place, place < out.toNat ∨ out.toNat + samples.length * sampleSize ≤ place →
    after[place]? = before[place]?
  read : readSamples after out samples.length = .ok samples

theorem written_of_fits {memory : List UInt8} {out : Pointer} {samples : List Sample}
    (h : out.toNat + samples.length * sampleSize ≤ memory.length) :
    Written memory (memory.take out.toNat ++ encodeSamples samples
      ++ memory.drop (out.toNat + samples.length * sampleSize)) out samples := by
  have htake : (memory.take out.toNat).length = out.toNat := List.length_take_of_le (by omega)
  have hencode := length_encodeSamples samples
  refine ⟨?_, fun i s hs place hplace => ?_, fun place hplace => ?_, ?_⟩
  · simp only [List.length_append, htake, hencode, List.length_drop]
    omega
  · have hi : i < samples.length := (List.getElem?_eq_some_iff.mp hs).1
    have hroom : i * sampleSize + sampleSize ≤ samples.length * sampleSize := by
      rw [← Nat.succ_mul]
      exact Nat.mul_le_mul_right sampleSize hi
    rw [List.append_assoc, List.getElem?_append_right (by omega), htake, Nat.add_sub_cancel_left,
      List.getElem?_append_left (by omega)]
    exact encodeSamples_getElem? hs hplace
  · rcases hplace with hlow | hhigh
    · rw [List.append_assoc, List.getElem?_append_left (by omega), List.getElem?_take_of_lt hlow]
    · rw [List.getElem?_append_right (by rw [List.length_append]; omega), List.getElem?_drop,
        List.length_append, htake, hencode]
      congr 1
      omega
  · rw [readSamples_written htake (Nat.le_refl _), List.take_length]

/-- A run of bytes in a memory. -/
structure Region where
  start : Nat
  size : Nat

namespace Region

def stop (r : Region) : Nat := r.start + r.size

def Disjoint (r s : Region) : Prop :=
  r.stop ≤ s.start ∨ s.stop ≤ r.start

end Region

namespace NativeModule

/-- What a module can be asked. -/
inductive Call
  | alloc (size : Nat)
  | entry
  | step (handle : Handle) (quantum : Nat) (out : Pointer)

inductive Answer
  | buffer (result : Except ModuleError Pointer)
  | start (result : Except ModuleError Handle)
  | stepped (ending : Ending Handle)

/-- A call with its answer, and the module before and after. -/
structure Event (τ : Type u) where
  before : NativeModule τ
  call : Call
  answer : Answer
  after : NativeModule τ

variable {τ : Type u}

/-- The buffer that the call gave out, if it gave one. -/
def Event.buffer? (e : Event τ) : Option Region :=
  match e.call, e.answer with
  | .alloc size, .buffer (.ok ptr) => some ⟨ptr.toNat, size⟩
  | _, _ => none

/-- Whether the call stepped the stream with success. -/
def Event.advances (e : Event τ) : Bool :=
  match e.answer with
  | .stepped (.done _) => true
  | _ => false

/-- A step of the live handle that is to write anywhere within the buffer passes all checks. -/
def Serves (m : NativeModule τ) (buffer : Region) : Prop :=
  ∀ quantum (out : Pointer), buffer.start ≤ out.toNat →
    out.toNat + quantum * sampleSize ≤ buffer.stop → m.Accepts m.live quantum out

-- The buffer is within reach of pointers, and there is a frame for each of its samples.
theorem serves_of_le {m : NativeModule τ} {buffer : Region} (hreach : m.memory.length < UInt32.size)
    (hinside : buffer.stop ≤ m.memory.length) (hframes : buffer.size / sampleSize ≤ m.frames.length) :
    m.Serves buffer := by
  intro quantum out hstart hstop
  have hfits : quantum * sampleSize ≤ buffer.size := by
    unfold Region.stop at hstop
    omega
  refine ⟨rfl, ?_, Nat.le_trans hstop hinside, ?_⟩
  · exact Nat.lt_trans (Nat.lt_of_le_of_lt (by omega) hreach) (by decide)
  · exact Nat.le_trans ((Nat.le_div_iff_mul_le (by decide)).mpr hfits) hframes

-- What is within memory and frames stays so as these grow.
theorem Serves.mono {m next : NativeModule τ} {buffer : Region} (h : m.Serves buffer)
    (hmemory : m.memory.length ≤ next.memory.length) (hframes : m.frames.length ≤ next.frames.length) :
    next.Serves buffer := by
  intro quantum out hstart hstop
  obtain ⟨-, hsize, hinside, hroom⟩ := h quantum out hstart hstop
  exact ⟨rfl, hsize, Nat.le_trans hinside hmemory, Nat.le_trans hroom hframes⟩

/-- The module has given out a buffer: fresh zeros behind all that was there, with frames to fill them from. -/
structure Grows (m next : NativeModule τ) (buffer : Region) : Prop where
  aligned : sampleSize ∣ buffer.start
  guarded : guard ≤ buffer.start
  fresh : m.memory.length ≤ buffer.start
  inside : buffer.stop ≤ next.memory.length
  memory : ∃ more, next.memory = m.memory ++ List.replicate more 0
  frames : ∃ more, next.frames = m.frames ++ List.replicate more .zero
  serves : next.Serves buffer
  stream : next.stream = m.stream
  live : next.live = m.live

section Calls

variable [NativeStream τ]

/-- What the module answers, and the module after it. -/
def answer (m : NativeModule τ) : Call → Answer × NativeModule τ
  | .alloc size => (CompiledModule.alloc m size).map .buffer id
  | .entry => (CompiledModule.entry m).map .start id
  | .step handle quantum out => (CompiledModule.step m handle quantum out).map .stepped id

def event (m : NativeModule τ) (call : Call) : Event τ :=
  ⟨m, call, (m.answer call).1, (m.answer call).2⟩

/-- The calls, one after the other. -/
def events (m : NativeModule τ) : List Call → List (Event τ)
  | [] => []
  | call :: calls => m.event call :: (m.event call).after.events calls

/-- The module after the calls. -/
def after (m : NativeModule τ) : List Call → NativeModule τ
  | [] => m
  | call :: calls => (m.event call).after.after calls

end Calls

/-- How a call may change a module, and how it may not. -/
structure Event.Disciplined [NativeStream τ] (e : Event τ) : Prop where
  given : ∀ size ptr, e.call = .alloc size → e.answer = .buffer (.ok ptr) →
    e.before.Grows e.after ⟨ptr.toNat, size⟩
  /-- a buffer is refused for want of room only -/
  denied : ∀ size error, e.call = .alloc size → e.answer = .buffer (.error error) →
    e.after = e.before ∧ error = .alloc size ∧ UInt32.size ≤ e.before.next + size
  started : e.call = .entry → e.answer = .start (.ok e.before.live) ∧ e.after = e.before
  /-- a handle that is not the live one does not reach the stream -/
  stale : ∀ handle quantum out, e.call = .step handle quantum out → handle ≠ e.before.live →
    e.answer = .stepped (.failed (.staleHandle handle)) ∧ e.after = e.before
  /-- nor does a place that is not all in the memory, or longer than any buffer -/
  outside : ∀ handle quantum out, e.call = .step handle quantum out → handle = e.before.live →
    quantum * sampleSize < UInt64.size →
    e.before.memory.length < out.toNat + quantum * sampleSize ∨ e.before.frames.length < quantum →
    e.answer = .stepped (.failed (.outOfBounds out (quantum * sampleSize) e.before.memory.length)) ∧
      e.after = e.before
  /-- what passes the checks is what the stream makes of it -/
  reached : ∀ handle quantum out, e.call = .step handle quantum out →
    e.before.Accepts handle quantum out →
    let r := NativeStream.step e.before.stream (e.before.frames.take quantum)
    e.answer = .stepped (r.ending.map fun _ => ⟨e.before.live.id + 1⟩) ∧ e.after.stream = r.stream
  /-- a step that succeeds writes the samples of the stream and makes its handle stale -/
  stepped : ∀ handle quantum out successor, e.call = .step handle quantum out →
    e.answer = .stepped (.done successor) →
    handle = e.before.live ∧ e.after.live = successor ∧ successor ≠ handle ∧
    let samples := (NativeStream.step e.before.stream (e.before.frames.take quantum)).frames
    samples.length = quantum ∧ Written e.before.memory e.after.memory out samples
  /-- any other step can be made again -/
  unstepped : ∀ handle quantum out, e.call = .step handle quantum out → e.advances = false →
    e.after.memory = e.before.memory ∧ e.after.live = e.before.live ∧
    (e.after.Accepts handle quantum out ↔ e.before.Accepts handle quantum out)

/-- What all calls of a module keep to, from the first one on, and how they leave it. -/
structure Orderly [NativeStream τ] (m : NativeModule τ) (es : List (Event τ)) (last : NativeModule τ) :
    Prop where
  each : ∀ e ∈ es, e.Disciplined
  grows : ∀ e ∈ es, e.before.memory.length ≤ e.after.memory.length ∧
    e.after.memory.length < UInt32.size
  apart : (es.filterMap Event.buffer?).Pairwise Region.Disjoint
  behind : ∀ r ∈ es.filterMap Event.buffer?, m.memory.length ≤ r.start
  inside : ∀ r ∈ es.filterMap Event.buffer?, r.stop ≤ last.memory.length
  kept : m.memory.length ≤ last.memory.length
  ready : m.frames.length ≤ last.frames.length
  /-- each buffer can be stepped ever after, with the handle that is live then -/
  serves : ∀ r ∈ es.filterMap Event.buffer?, last.Serves r
  /-- handles count the steps that succeed -/
  live : last.live.id = m.live.id + .ofNat (es.countP Event.advances)

section Alloc

theorem dvd_next (m : NativeModule τ) : sampleSize ∣ m.next :=
  Nat.dvd_mul_left _ _

theorem length_le_next (m : NativeModule τ) : m.memory.length ≤ m.next := by
  unfold next sampleSize
  omega

theorem alloc_of_lt {m : NativeModule τ} {size : Nat} (hguard : guard ≤ m.memory.length)
    (hfits : m.next + size < UInt32.size) : ∃ ptr next, m.alloc size = (.ok ptr, next) ∧
      m.Grows next ⟨ptr.toNat, size⟩ ∧ next.memory.length < UInt32.size := by
  have hptr : (UInt32.ofNat m.next).toNat = m.next := UInt32.toNat_ofNat_of_lt' (by omega)
  have hnext := m.length_le_next
  have hlength : (m.memory ++ List.replicate (m.next + size - m.memory.length) 0).length =
      m.next + size := by
    rw [List.length_append, List.length_replicate]
    omega
  have hframes : (m.frames ++ List.replicate (size / sampleSize - m.frames.length) Sample.zero).length =
      max m.frames.length (size / sampleSize) := by
    rw [List.length_append, List.length_replicate]
    omega
  have hinside : (UInt32.ofNat m.next).toNat + size ≤
      (m.memory ++ List.replicate (m.next + size - m.memory.length) 0).length := by
    rw [hptr, hlength]
  refine ⟨.ofNat m.next, _, if_pos hfits,
    ⟨?_, ?_, ?_, hinside, ⟨_, rfl⟩, ⟨_, rfl⟩, serves_of_le ?_ hinside ?_, rfl, rfl⟩, ?_⟩
  · show sampleSize ∣ (UInt32.ofNat m.next).toNat
    rw [hptr]
    exact m.dvd_next
  · show guard ≤ (UInt32.ofNat m.next).toNat
    omega
  · show m.memory.length ≤ (UInt32.ofNat m.next).toNat
    omega
  · show (m.memory ++ List.replicate _ 0).length < UInt32.size
    omega
  · exact hframes ▸ Nat.le_max_right _ _
  · show (m.memory ++ List.replicate _ 0).length < UInt32.size
    omega

theorem alloc_of_le {m : NativeModule τ} {size : Nat} (hlarge : UInt32.size ≤ m.next + size) :
    m.alloc size = (.error (.alloc size), m) :=
  if_neg (Nat.not_lt.mpr hlarge)

end Alloc

section Step

variable [NativeStream τ] {m : NativeModule τ} {handle : Handle} {quantum : Nat} {out : Pointer}

theorem step_of_stale (h : handle ≠ m.live) :
    m.step handle quantum out = (.failed (.staleHandle handle), m) :=
  if_pos h

theorem step_of_outside (hlive : handle = m.live) (hsize : quantum * sampleSize < UInt64.size)
    (houtside : m.memory.length < out.toNat + quantum * sampleSize ∨ m.frames.length < quantum) :
    m.step handle quantum out =
      (.failed (.outOfBounds out (quantum * sampleSize) m.memory.length), m) := by
  have hfresh : ¬handle ≠ m.live := fun h => h hlive
  exact (if_neg hfresh).trans ((if_neg (Nat.not_le.mpr hsize)).trans (if_pos houtside))

-- A step that does not pass the checks changes nothing at all.
theorem step_of_not_accepts (h : ¬m.Accepts handle quantum out) :
    ∃ ending, m.step handle quantum out = (ending, m) ∧ ∀ successor, ending ≠ .done successor := by
  by_cases hlive : handle = m.live
  · by_cases hsize : quantum * sampleSize < UInt64.size
    · have houtside : m.memory.length < out.toNat + quantum * sampleSize ∨ m.frames.length < quantum := by
        by_contra hboth
        rw [not_or, Nat.not_lt, Nat.not_lt] at hboth
        exact h ⟨hlive, hsize, hboth.1, hboth.2⟩
      exact ⟨_, step_of_outside hlive hsize houtside, nofun⟩
    · have hfresh : ¬handle ≠ m.live := fun h => h hlive
      exact ⟨.panicked, (if_neg hfresh).trans (if_pos (Nat.not_lt.mp hsize)), nofun⟩
  · exact ⟨_, step_of_stale hlive, nofun⟩

-- What a step that passes the checks leaves, by how the stream ends.
theorem Accepts.step_cases (h : m.Accepts handle quantum out) {r : Rendering τ}
    (hr : NativeStream.step m.stream (m.frames.take quantum) = r) :
    ∃ next, m.step handle quantum out = (r.ending.map fun _ => ⟨m.live.id + 1⟩, next) ∧
      next.stream = r.stream ∧ next.frames.length = m.frames.length ∧
      (r.ending = .done () → next.live = ⟨m.live.id + 1⟩ ∧ r.frames.length = quantum ∧
        Written m.memory next.memory out r.frames) ∧
      (r.ending ≠ .done () → next.live = m.live ∧ next.memory = m.memory) := by
  have hframes : r.frames.length = quantum := by
    rw [← hr, NativeStream.length_step, List.length_take_of_le h.frames]
  have hlength : (r.frames ++ m.frames.drop quantum).length = m.frames.length := by
    have hle := h.frames
    rw [List.length_append, List.length_drop, hframes]
    omega
  have hwritten : Written m.memory (m.memory.take out.toNat ++ encodeSamples r.frames
      ++ m.memory.drop (out.toNat + quantum * sampleSize)) out r.frames := by
    have hfits := h.memory
    rw [← hframes] at hfits ⊢
    exact written_of_fits hfits
  rw [h.step_eq, hr]
  obtain ⟨ending, frames, stream⟩ := r
  cases ending with
  | panicked => exact ⟨_, rfl, rfl, hlength, nofun, fun _ => ⟨rfl, rfl⟩⟩
  | failed e => exact ⟨_, rfl, rfl, hlength, nofun, fun _ => ⟨rfl, rfl⟩⟩
  | done result =>
    exact ⟨_, rfl, rfl, hlength, fun _ => ⟨rfl, hframes, hwritten⟩, fun hne => absurd rfl hne⟩

end Step

section Discipline

variable [NativeStream τ]

theorem event_alloc {m next : NativeModule τ} {size : Nat} {result : Except ModuleError Pointer}
    (h : m.alloc size = (result, next)) :
    m.event (.alloc size) = ⟨m, .alloc size, .buffer result, next⟩ := by
  simp only [event, answer, CompiledModule.alloc, h, Prod.map]
  rfl

theorem event_step {m next : NativeModule τ} {handle : Handle} {quantum : Nat} {out : Pointer}
    {ending : Ending Handle} (h : m.step handle quantum out = (ending, next)) :
    m.event (.step handle quantum out) = ⟨m, .step handle quantum out, .stepped ending, next⟩ := by
  simp only [event, answer, CompiledModule.step, h, Prod.map]
  rfl

theorem disciplined_alloc {m : NativeModule τ} (hguard : guard ≤ m.memory.length) (size : Nat) :
    (m.event (.alloc size)).Disciplined := by
  by_cases hfits : m.next + size < UInt32.size
  · obtain ⟨ptr, next, halloc, hgrows, -⟩ := alloc_of_lt hguard hfits
    rw [event_alloc halloc]
    refine ⟨fun size' ptr' hcall hanswer => ?_, nofun, nofun, nofun, nofun, nofun, nofun, nofun⟩
    cases hcall
    cases hanswer
    exact hgrows
  · have hlarge := Nat.not_lt.mp hfits
    rw [event_alloc (alloc_of_le hlarge)]
    refine ⟨nofun, fun size' error hcall hanswer => ?_, nofun, nofun, nofun, nofun, nofun, nofun⟩
    cases hcall
    cases hanswer
    exact ⟨rfl, rfl, hlarge⟩

-- The handle after a live one is another, also where it starts again at zero.
theorem next_ne (handle : Handle) : (⟨handle.id + 1⟩ : Handle) ≠ handle := by
  intro h
  have hid : handle.id + 1 = handle.id := congrArg Handle.id h
  simp at hid

section Steps

variable {m : NativeModule τ} {handle : Handle} {quantum : Nat} {out : Pointer}

theorem Accepts.disciplined_step (h : m.Accepts handle quantum out) :
    (m.event (.step handle quantum out)).Disciplined := by
  obtain ⟨r, hr⟩ : ∃ r, NativeStream.step m.stream (m.frames.take quantum) = r := ⟨_, rfl⟩
  obtain ⟨next, hstep, hstream, hframes, hdone, hundone⟩ := h.step_cases hr
  rw [event_step hstep]
  refine ⟨nofun, nofun, nofun, fun handle' quantum' out' hcall hstale => ?stale,
    fun handle' quantum' out' hcall hlive hsize houtside => ?outside,
    fun handle' quantum' out' hcall _ => ?reached,
    fun handle' quantum' out' successor hcall hanswer => ?stepped,
    fun handle' quantum' out' hcall hstays => ?unstepped⟩ <;> cases hcall
  case stale => exact absurd h.live hstale
  case outside =>
    rcases houtside with hshort | hshort
    · exact absurd h.memory (Nat.not_le.mpr hshort)
    · exact absurd h.frames (Nat.not_le.mpr hshort)
  case reached =>
    subst hr
    exact ⟨rfl, hstream⟩
  case stepped =>
    have hending : r.ending = .done () := by
      cases hr' : r.ending <;> simp [hr', Ending.map] at hanswer
      rfl
    obtain ⟨hlive, hlength, hwritten⟩ := hdone hending
    simp only [hending, Ending.map] at hanswer
    cases hanswer
    subst hr
    exact ⟨h.live, hlive, h.live ▸ next_ne m.live, hlength, hwritten⟩
  case unstepped =>
    have hending : r.ending ≠ .done () := by
      intro hending
      simp [Event.advances, hending, Ending.map] at hstays
    obtain ⟨hlive, hmemory⟩ := hundone hending
    refine ⟨hmemory, hlive, fun _ => h, fun _ => ⟨?_, h.size, ?_, ?_⟩⟩
    · rw [hlive]
      exact h.live
    · rw [hmemory]
      exact h.memory
    · rw [hframes]
      exact h.frames

theorem disciplined_step_of_not_accepts (h : ¬m.Accepts handle quantum out) :
    (m.event (.step handle quantum out)).Disciplined := by
  obtain ⟨ending, hstep, hending⟩ := step_of_not_accepts h
  rw [event_step hstep]
  refine ⟨nofun, nofun, nofun, fun handle' quantum' out' hcall hstale => ?stale,
    fun handle' quantum' out' hcall hlive hsize houtside => ?outside,
    fun handle' quantum' out' hcall haccepts => ?reached,
    fun handle' quantum' out' successor hcall hanswer => ?stepped,
    fun _ _ _ hcall _ => ⟨rfl, rfl, Iff.rfl⟩⟩ <;> cases hcall
  case stale =>
    have houtcome := hstep.symm.trans (step_of_stale hstale)
    exact ⟨congrArg (fun r => Answer.stepped r.1) houtcome, rfl⟩
  case outside =>
    have houtcome := hstep.symm.trans (step_of_outside hlive hsize houtside)
    exact ⟨congrArg (fun r => Answer.stepped r.1) houtcome, rfl⟩
  case reached => exact absurd haccepts h
  case stepped =>
    cases hanswer
    exact absurd rfl (hending successor)

end Steps

theorem disciplined_event {m : NativeModule τ} (hguard : guard ≤ m.memory.length) (call : Call) :
    (m.event call).Disciplined := by
  cases call with
  | alloc size => exact disciplined_alloc hguard size
  | entry =>
    exact ⟨nofun, nofun, fun _ => ⟨rfl, rfl⟩, nofun, nofun, nofun, nofun, nofun⟩
  | step handle quantum out =>
    by_cases haccepts : m.Accepts handle quantum out
    · exact haccepts.disciplined_step
    · exact disciplined_step_of_not_accepts haccepts

-- No call makes the memory smaller, and none takes it beyond the reach of pointers.
theorem grows_event {m : NativeModule τ} (hguard : guard ≤ m.memory.length)
    (hsmall : m.memory.length < UInt32.size) (call : Call) :
    m.memory.length ≤ (m.event call).after.memory.length ∧
      (m.event call).after.memory.length < UInt32.size := by
  cases call with
  | entry => exact ⟨Nat.le_refl _, hsmall⟩
  | alloc size =>
    by_cases hfits : m.next + size < UInt32.size
    · obtain ⟨ptr, next, halloc, hgrows, hless⟩ := alloc_of_lt hguard hfits
      rw [event_alloc halloc]
      have hfresh := hgrows.fresh
      have hinside := hgrows.inside
      simp only [Region.stop] at hfresh hinside
      refine ⟨?_, hless⟩
      show m.memory.length ≤ next.memory.length
      omega
    · rw [event_alloc (alloc_of_le (Nat.not_lt.mp hfits))]
      exact ⟨Nat.le_refl _, hsmall⟩
  | step handle quantum out =>
    have hsame : (m.event (.step handle quantum out)).after.memory.length = m.memory.length := by
      by_cases haccepts : m.Accepts handle quantum out
      · obtain ⟨next, hstep, -, -, hdone, hundone⟩ := haccepts.step_cases rfl
        rw [event_step hstep]
        by_cases hending : (NativeStream.step m.stream (m.frames.take quantum)).ending = .done ()
        · exact (hdone hending).2.2.length
        · exact congrArg List.length (hundone hending).2
      · obtain ⟨ending, hstep, -⟩ := step_of_not_accepts haccepts
        rw [event_step hstep]
    rw [hsame]
    exact ⟨Nat.le_refl _, hsmall⟩

-- Nor are there ever fewer frames.
theorem length_frames_event (m : NativeModule τ) (call : Call) :
    m.frames.length ≤ (m.event call).after.frames.length := by
  cases call with
  | entry => exact Nat.le_refl _
  | alloc size =>
    change _ ≤ (m.alloc size).2.frames.length
    unfold alloc
    dsimp only
    split
    · exact (List.prefix_append _ _).length_le
    · exact Nat.le_refl _
  | step handle quantum out =>
    by_cases haccepts : m.Accepts handle quantum out
    · obtain ⟨next, hstep, -, hframes, -, -⟩ := haccepts.step_cases rfl
      rw [event_step hstep]
      exact Nat.le_of_eq hframes.symm
    · obtain ⟨ending, hstep, -⟩ := step_of_not_accepts haccepts
      rw [event_step hstep]

-- The handle moves on by one with every step that succeeds, and stays otherwise.
theorem live_event (m : NativeModule τ) (call : Call) :
    (m.event call).after.live.id = m.live.id + if (m.event call).advances then 1 else 0 := by
  cases call with
  | entry => simp [event, answer, CompiledModule.entry, Event.advances]
  | alloc size =>
    have hlive : (m.alloc size).2.live = m.live := by
      unfold alloc
      dsimp only
      split <;> rfl
    simpa [event, answer, CompiledModule.alloc, Event.advances] using congrArg Handle.id hlive
  | step handle quantum out =>
    by_cases haccepts : m.Accepts handle quantum out
    · obtain ⟨next, hstep, -, -, hdone, hundone⟩ := haccepts.step_cases rfl
      rw [event_step hstep]
      cases hending : (NativeStream.step m.stream (m.frames.take quantum)).ending with
      | done result => simp [Event.advances, Ending.map, (hdone hending).1]
      | failed e =>
        simp [Event.advances, Ending.map, (hundone (by rw [hending]; nofun)).1]
      | panicked =>
        simp [Event.advances, Ending.map, (hundone (by rw [hending]; nofun)).1]
    · obtain ⟨ending, hstep, hending⟩ := step_of_not_accepts haccepts
      rw [event_step hstep]
      cases ending with
      | done successor => exact absurd rfl (hending successor)
      | _ => simp [Event.advances]

theorem Event.Disciplined.grows {e : Event τ} (h : e.Disciplined) {buffer : Region}
    (hbuffer : e.buffer? = some buffer) : e.before.Grows e.after buffer := by
  unfold Event.buffer? at hbuffer
  split at hbuffer
  · rename_i size ptr hcall hanswer
    cases hbuffer
    exact h.given size ptr hcall hanswer
  · cases hbuffer

-- A call in front of calls that keep to the rules: its buffer ends in the memory that the others find.
theorem Orderly.cons {m last : NativeModule τ} {call : Call} {es : List (Event τ)}
    (hguard : guard ≤ m.memory.length) (hsmall : m.memory.length < UInt32.size)
    (h : Orderly (m.event call).after es last) : Orderly m (m.event call :: es) last := by
  have hdisciplined := disciplined_event hguard call
  have hgrows := grows_event hguard hsmall call
  have hkept := h.kept
  have hready := h.ready
  have hbuffers (r : Region) (hr : r ∈ (m.event call :: es).filterMap Event.buffer?) :
      m.Grows (m.event call).after r ∨ r ∈ es.filterMap Event.buffer? := by
    rw [List.filterMap_cons] at hr
    split at hr
    · exact .inr hr
    · rename_i buffer hbuffer
      obtain rfl | hr := List.mem_cons.mp hr
      · exact .inl (hdisciplined.grows hbuffer)
      · exact .inr hr
  refine ⟨List.forall_mem_cons.mpr ⟨hdisciplined, h.each⟩, List.forall_mem_cons.mpr ⟨hgrows, h.grows⟩,
    ?_, fun r hr => ?_, fun r hr => ?_, Nat.le_trans hgrows.1 hkept,
    Nat.le_trans (m.length_frames_event call) hready, fun r hr => ?_, ?_⟩
  · rw [List.filterMap_cons]
    split
    · exact h.apart
    · rename_i buffer hbuffer
      refine List.pairwise_cons.mpr ⟨fun r hr => .inl ?_, h.apart⟩
      exact Nat.le_trans (hdisciplined.grows hbuffer).inside (h.behind r hr)
  · obtain hnew | hold := hbuffers r hr
    · exact hnew.fresh
    · exact Nat.le_trans hgrows.1 (h.behind r hold)
  · obtain hnew | hold := hbuffers r hr
    · exact Nat.le_trans hnew.inside hkept
    · exact h.inside r hold
  · obtain hnew | hold := hbuffers r hr
    · exact hnew.serves.mono hkept hready
    · exact h.serves r hold
  · rw [h.live, live_event, List.countP_cons]
    split
    · rw [UInt64.ofNat_add, UInt64.add_assoc, UInt64.add_comm 1]
      rfl
    · simp

theorem orderly_events {m : NativeModule τ} (hguard : guard ≤ m.memory.length)
    (hsmall : m.memory.length < UInt32.size) (calls : List Call) :
    Orderly m (m.events calls) (m.after calls) := by
  induction calls generalizing m with
  | nil =>
    refine ⟨nofun, nofun, .nil, nofun, nofun, Nat.le_refl _, Nat.le_refl _, nofun, ?_⟩
    show m.live.id = m.live.id + 0
    rw [UInt64.add_zero]
  | cons call calls ih =>
    have hgrows := grows_event hguard hsmall call
    exact (ih (Nat.le_trans hguard hgrows.1) hgrows.2).cons hguard hsmall

/-- A new module keeps to the rules whatever it is asked: every buffer that it gives out is aligned, lies
behind the guard and all earlier buffers and inside the memory, which only grows, by zeros, and stays within
the reach of pointers; and from then on a step of the live handle there reaches the stream. A step succeeds
with the live handle only, writes the samples of the stream at its place and nothing else, where they are read
back bit for bit, and makes its handle stale; any other step leaves memory and handle, and does not reach the
stream if its handle is stale or its place is outside. -/
theorem memory_disciplined (stream : τ) (calls : List Call) :
    Orderly (new stream) ((new stream).events calls) ((new stream).after calls) :=
  orderly_events (Nat.le_refl _) (by show 8 < UInt32.size; decide) calls

-- A handle is stale as soon as it has been stepped, and a buffer that would be too long changes nothing.
example : ((new (⟨.zero⟩ : Constant)).events
    [.alloc 8, .step ⟨0⟩ 2 8, .step ⟨0⟩ 2 8, .alloc UInt32.size, .step ⟨1⟩ 2 8]).map Event.advances =
      [false, true, false, false, true] := by decide

end Discipline

end NativeModule

end SampleStream
