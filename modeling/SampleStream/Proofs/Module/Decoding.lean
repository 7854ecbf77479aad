import Mathlib.Algebra.Group.Nat.Defs
import Mathlib.Data.List.Forall2
import SampleStream.Session.Processor

/-!
# Decoding a module's memory

What a channel is filled with, sample by sample: each is the word of the four bytes at its place in the
memory, the least significant first, and zeros stand behind the quantum. Channels are decoded one after the
other (`fillInPlace`), and silence leaves nothing of those that were filled before one of them failed.
-/

namespace SampleStream

/-- The sample that stands at a place in a memory, with the byte of the least weight first; none where four
bytes are not left. -/
def sampleAt? (memory : List UInt8) (place : Nat) : Option Sample :=
  match memory.drop place with
  | a :: b :: c :: d :: _ =>
    some ⟨.ofNat (a.toNat + 2 ^ 8 * b.toNat + 2 ^ 16 * c.toNat + 2 ^ 24 * d.toNat)⟩
  | _ => none

-- What is shifted past all bits of a number is added to it.
theorem or_shiftLeft {low k : Nat} (h : low < 2 ^ k) (high : Nat) :
    low ||| high <<< k = low + 2 ^ k * high := by
  rw [Nat.or_comm, Nat.shiftLeft_eq, Nat.mul_comm, ← Nat.two_pow_add_eq_or_of_lt h, Nat.add_comm]

-- A byte has room in a word up to the place of the highest byte.
theorem toNat_shiftLeft_byte (b : UInt8) {k : UInt32} (hk : k.toNat ≤ 24) :
    (b.toUInt32 <<< k).toNat = b.toNat <<< k.toNat := by
  have hroom : b.toNat <<< k.toNat < 2 ^ 32 := by
    rw [Nat.shiftLeft_eq]
    calc b.toNat * 2 ^ k.toNat
      _ < 2 ^ 8 * 2 ^ k.toNat := Nat.mul_lt_mul_of_pos_right b.toNat_lt (Nat.two_pow_pos _)
      _ ≤ 2 ^ 8 * 2 ^ 24 := Nat.mul_le_mul_left _ (Nat.pow_le_pow_right (by decide) hk)
      _ = 2 ^ 32 := by decide
  rw [UInt32.toNat_shiftLeft, UInt8.toNat_toUInt32, Nat.mod_eq_of_lt (by omega : k.toNat < 32),
    Nat.mod_eq_of_lt hroom]

theorem Sample.ofBytes_eq (a b c d : UInt8) : Sample.ofBytes a b c d =
    ⟨.ofNat (a.toNat + 2 ^ 8 * b.toNat + 2 ^ 16 * c.toNat + 2 ^ 24 * d.toNat)⟩ := by
  have ha := a.toNat_lt
  have hb := b.toNat_lt
  have hc := c.toNat_lt
  have hd := d.toNat_lt
  have hword : (a.toUInt32 ||| b.toUInt32 <<< 8 ||| c.toUInt32 <<< 16 ||| d.toUInt32 <<< 24).toNat =
      a.toNat + 2 ^ 8 * b.toNat + 2 ^ 16 * c.toNat + 2 ^ 24 * d.toNat := by
    rw [UInt32.toNat_or, UInt32.toNat_or, UInt32.toNat_or, UInt8.toNat_toUInt32,
      toNat_shiftLeft_byte b (by decide), toNat_shiftLeft_byte c (by decide),
      toNat_shiftLeft_byte d (by decide)]
    change a.toNat ||| b.toNat <<< 8 ||| c.toNat <<< 16 ||| d.toNat <<< 24 = _
    have hlow : a.toNat + 2 ^ 8 * b.toNat < 2 ^ 16 := by omega
    have hmiddle : a.toNat + 2 ^ 8 * b.toNat + 2 ^ 16 * c.toNat < 2 ^ 24 := by omega
    rw [or_shiftLeft ha, or_shiftLeft hlow, or_shiftLeft hmiddle]
  refine congrArg Sample.mk (UInt32.toNat_inj.mp (hword.trans ?_))
  rw [UInt32.toNat_ofNat_of_lt' (by change _ < 2 ^ 32; omega)]

theorem sampleAt?_eq_none {memory : List UInt8} {place : Nat} (h : memory.length < place + sampleSize) :
    sampleAt? memory place = none := by
  unfold sampleAt?
  split
  · rename_i a b c d rest hdrop
    have hlength := congrArg List.length hdrop
    simp only [List.length_drop, List.length_cons, sampleSize] at hlength h
    omega
  · rfl

-- The bytes past a sample make no difference to it.
theorem sampleAt?_take {memory : List UInt8} {place length : Nat} (h : place + sampleSize ≤ length) :
    sampleAt? (memory.take length) place = sampleAt? memory place := by
  obtain ⟨more, rfl⟩ := Nat.exists_eq_add_of_le h
  have hdrop : (memory.take (place + sampleSize + more)).drop place =
      (memory.drop place).take (more + 4) := by
    rw [List.drop_take, Nat.add_assoc, Nat.add_sub_cancel_left, Nat.add_comm]
    rfl
  unfold sampleAt?
  rw [hdrop]
  rcases memory.drop place with _ | ⟨a, _ | ⟨b, _ | ⟨c, _ | ⟨d, rest⟩⟩⟩⟩ <;> rfl

theorem length_lt_of_short {bytes : List UInt8}
    (hshort : ∀ a b c d rest, bytes = a :: b :: c :: d :: rest → False) : bytes.length < sampleSize := by
  rcases bytes with _ | ⟨a, _ | ⟨b, _ | ⟨c, _ | ⟨d, rest⟩⟩⟩⟩
  · simp [sampleSize]
  · simp [sampleSize]
  · simp [sampleSize]
  · simp [sampleSize]
  · exact absurd rfl (hshort a b c d rest)

-- The samples that bytes stand for are those at the multiples of four.
theorem decodeSamples_getElem? (bytes : List UInt8) (i : Nat) :
    (decodeSamples bytes)[i]? = sampleAt? bytes (i * sampleSize) := by
  induction bytes using decodeSamples.induct generalizing i with
  | case1 a b c d rest ih =>
    rw [decodeSamples]
    cases i with
    | zero => exact congrArg some (Sample.ofBytes_eq a b c d)
    | succ i =>
      have hplace : (i + 1) * sampleSize = i * sampleSize + 4 := Nat.succ_mul i sampleSize
      rw [List.getElem?_cons_succ, ih, hplace]
      rfl
  | case2 bytes hshort =>
    have hlength := length_lt_of_short hshort
    rw [decodeSamples.eq_2 bytes hshort, sampleAt?_eq_none (Nat.lt_add_left _ hlength)]
    rfl

theorem length_decodeSamples (bytes : List UInt8) :
    (decodeSamples bytes).length = bytes.length / sampleSize := by
  induction bytes using decodeSamples.induct with
  | case1 a b c d rest ih =>
    rw [decodeSamples, List.length_cons, ih]
    simp only [List.length_cons, sampleSize]
    omega
  | case2 bytes hshort =>
    rw [decodeSamples.eq_2 bytes hshort, Nat.div_eq_of_lt (length_lt_of_short hshort)]
    rfl

/-- The part of a channel that a quantum reaches lies inside the memory. -/
def Fits (memory : List UInt8) (scratch : Pointer) (quantum : Nat) (channel : List Sample) : Prop :=
  scratch.toNat + min quantum channel.length * sampleSize ≤ memory.length

instance (memory : List UInt8) (scratch : Pointer) (quantum : Nat) (channel : List Sample) :
    Decidable (Fits memory scratch quantum channel) :=
  inferInstanceAs (Decidable (_ ≤ _))

/-- What stands in a channel after its samples were decoded: those of the memory as far as the quantum
reaches, and zeros behind it. -/
structure Decoded (memory : List UInt8) (scratch : Pointer) (quantum : Nat)
    (channel after : List Sample) : Prop where
  fits : Fits memory scratch quantum channel
  length : after.length = channel.length
  sample : ∀ i < min quantum channel.length,
    ∃ s, after[i]? = some s ∧ sampleAt? memory (scratch.toNat + i * sampleSize) = some s
  zero : ∀ i, quantum ≤ i → i < channel.length → after[i]? = some .zero

-- Channels agree as far as they both reach.
theorem Decoded.agree {memory : List UInt8} {scratch : Pointer} {quantum : Nat}
    {channel after channel' after' : List Sample} (h : Decoded memory scratch quantum channel after)
    (h' : Decoded memory scratch quantum channel' after') {i : Nat} (hi : i < after.length)
    (hi' : i < after'.length) : after[i]? = after'[i]? := by
  rw [h.length] at hi
  rw [h'.length] at hi'
  by_cases hquantum : i < quantum
  · obtain ⟨s, hs, hat⟩ := h.sample i (Nat.lt_min.mpr ⟨hquantum, hi⟩)
    obtain ⟨s', hs', hat'⟩ := h'.sample i (Nat.lt_min.mpr ⟨hquantum, hi'⟩)
    rw [hs, hs', ← hat, hat']
  · rw [h.zero i (Nat.le_of_not_lt hquantum) hi, h'.zero i (Nat.le_of_not_lt hquantum) hi']

theorem readSamples_getElem? {memory : List UInt8} {ptr : Pointer} {count i : Nat} (hi : i < count) :
    (decodeSamples ((memory.drop ptr.toNat).take (count * sampleSize)))[i]? =
      sampleAt? memory (ptr.toNat + i * sampleSize) := by
  have hroom : i * sampleSize + sampleSize ≤ count * sampleSize := by
    rw [← Nat.succ_mul]
    exact Nat.mul_le_mul_right sampleSize hi
  rw [decodeSamples_getElem?, sampleAt?_take hroom, sampleAt?, List.drop_drop]
  rfl

namespace Session

theorem fillChannel_of_fits {memory : List UInt8} {scratch : Pointer} {quantum : Nat}
    {channel : List Sample} (h : Fits memory scratch quantum channel) :
    ∃ after, fillChannel memory scratch quantum channel = .ok after ∧
      Decoded memory scratch quantum channel after := by
  let n := min quantum channel.length
  let samples := decodeSamples ((memory.drop scratch.toNat).take (n * sampleSize))
  have hread : readSamples memory scratch n = .ok samples := if_pos h
  have hlength : samples.length = n := by
    have hbytes : ((memory.drop scratch.toNat).take (n * sampleSize)).length = n * sampleSize := by
      rw [List.length_take, List.length_drop]
      have hfits : scratch.toNat + n * sampleSize ≤ memory.length := h
      omega
    rw [length_decodeSamples, hbytes, Nat.mul_div_cancel _ (by decide)]
  have hle : n ≤ channel.length := Nat.min_le_right _ _
  refine ⟨samples ++ List.replicate (channel.length - n) .zero, ?_, h, ?_, fun i hi => ?_, ?_⟩
  · unfold fillChannel
    dsimp only
    rw [hread]
    rfl
  · rw [List.length_append, List.length_replicate, hlength]
    omega
  · have hsome : i < samples.length := hlength.symm ▸ hi
    refine ⟨samples[i], ?_, ?_⟩
    · rw [List.getElem?_append_left hsome, List.getElem?_eq_getElem hsome]
    · rw [← readSamples_getElem? hi]
      exact List.getElem?_eq_getElem hsome
  · intro i hquantum hi
    have hn : n ≤ i := Nat.le_trans (Nat.min_le_left _ _) hquantum
    rw [List.getElem?_append_right (hlength.symm ▸ hn), List.getElem?_replicate, if_pos (by omega)]

theorem fillChannel_of_not_fits {memory : List UInt8} {scratch : Pointer} {quantum : Nat}
    {channel : List Sample} (h : ¬Fits memory scratch quantum channel) :
    ∃ error, fillChannel memory scratch quantum channel = .error error := by
  have hread : readSamples memory scratch (min quantum channel.length) =
      .error (.outOfBounds scratch (min quantum channel.length * sampleSize) memory.length) := if_neg h
  refine ⟨.outOfBounds scratch (min quantum channel.length * sampleSize) memory.length, ?_⟩
  unfold fillChannel
  dsimp only
  rw [hread]
  rfl

/-- Channels that are filled where they are, one after the other, up to the first that does not fit; and
whether all of them are filled. -/
def fillInPlace (memory : List UInt8) (scratch : Pointer) (quantum : Nat) :
    List (List Sample) → List (List Sample) × Bool
  | [] => ([], true)
  | channel :: rest =>
    match fillChannel memory scratch quantum channel with
    | .ok after =>
      let (left, all) := fillInPlace memory scratch quantum rest
      (after :: left, all)
    | .error _ => (channel :: rest, false)

variable {memory : List UInt8} {scratch : Pointer} {quantum : Nat}

theorem mapM_fillChannel (channels : List (List Sample)) :
    (channels.mapM (fillChannel memory scratch quantum)).toOption =
      if (fillInPlace memory scratch quantum channels).2 then
        some (fillInPlace memory scratch quantum channels).1
      else none := by
  induction channels with
  | nil => rfl
  | cons channel rest ih =>
    rw [List.mapM_cons, fillInPlace]
    cases fillChannel memory scratch quantum channel with
    | error error => rfl
    | ok after =>
      dsimp only
      cases hrest : rest.mapM (fillChannel memory scratch quantum) with
      | error error =>
        rw [hrest] at ih
        split at ih
        · cases ih
        · rename_i hall
          rw [if_neg hall]
          rfl
      | ok filled =>
        rw [hrest] at ih
        split at ih
        · rename_i hall
          cases ih
          rw [if_pos hall]
          rfl
        · cases ih

-- All channels are filled exactly if all of them fit.
theorem fillInPlace_all_iff (channels : List (List Sample)) :
    (fillInPlace memory scratch quantum channels).2 = true ↔
      ∀ channel ∈ channels, Fits memory scratch quantum channel := by
  induction channels with
  | nil => simp [fillInPlace]
  | cons channel rest ih =>
    rw [List.forall_mem_cons, fillInPlace]
    by_cases h : Fits memory scratch quantum channel
    · obtain ⟨after, hfill, -⟩ := fillChannel_of_fits h
      rw [hfill]
      simpa [h] using ih
    · obtain ⟨error, hfill⟩ := fillChannel_of_not_fits h
      rw [hfill]
      simp [h]

theorem decoded_of_fillInPlace {channels : List (List Sample)}
    (h : ∀ channel ∈ channels, Fits memory scratch quantum channel) :
    List.Forall₂ (Decoded memory scratch quantum) channels
      (fillInPlace memory scratch quantum channels).1 := by
  induction channels with
  | nil => exact .nil
  | cons channel rest ih =>
    rw [List.forall_mem_cons] at h
    obtain ⟨after, hfill, hdecoded⟩ := fillChannel_of_fits h.1
    rw [fillInPlace, hfill]
    exact .cons hdecoded (ih h.2)

theorem exists_decoded_of_mem {channels filled : List (List Sample)}
    (h : List.Forall₂ (Decoded memory scratch quantum) channels filled) {after : List Sample}
    (hafter : after ∈ filled) : ∃ channel, Decoded memory scratch quantum channel after := by
  induction h with
  | nil => cases hafter
  | @cons channel after' rest rest' hd hrest ih =>
    obtain rfl | hafter := List.mem_cons.mp hafter
    · exact ⟨channel, hd⟩
    · exact ih hafter

theorem map_length_of_decoded {channels filled : List (List Sample)}
    (h : List.Forall₂ (Decoded memory scratch quantum) channels filled) :
    filled.map List.length = channels.map List.length := by
  induction h with
  | nil => rfl
  | cons hd rest ih => rw [List.map_cons, List.map_cons, hd.length, ih]

-- Neither decoding nor silence asks for anything but how long the channels are.
theorem mapM_fillChannel_congr {channels others : List (List Sample)}
    (h : others.map List.length = channels.map List.length) :
    others.mapM (fillChannel memory scratch quantum) =
      channels.mapM (fillChannel memory scratch quantum) := by
  let fill (n : Nat) := fillChannel memory scratch quantum (List.replicate n .zero)
  have hfill (channels : List (List Sample)) :
      channels.mapM (fillChannel memory scratch quantum) = (channels.map List.length).mapM fill := by
    rw [List.mapM_map]
    refine congrArg (channels.mapM ·) (funext fun channel => ?_)
    unfold fill fillChannel
    simp
  rw [hfill, hfill, h]

theorem silence_congr {channels others : List (List Sample)}
    (h : others.map List.length = channels.map List.length) : silence others = silence channels := by
  have hsilence (channels : List (List Sample)) :
      silence channels = (channels.map List.length).map fun n => List.replicate n .zero := by
    rw [List.map_map]
    rfl
  rw [hsilence, hsilence, h]

theorem map_length_silence (channels : List (List Sample)) :
    (silence channels).map List.length = channels.map List.length := by
  simp [silence]

-- Filling keeps the lengths, so that silence leaves nothing of the channels that were filled.
theorem map_length_fillInPlace (channels : List (List Sample)) :
    (fillInPlace memory scratch quantum channels).1.map List.length = channels.map List.length := by
  induction channels with
  | nil => rfl
  | cons channel rest ih =>
    rw [fillInPlace]
    by_cases h : Fits memory scratch quantum channel
    · obtain ⟨after, hfill, hdecoded⟩ := fillChannel_of_fits h
      rw [hfill]
      dsimp only
      rw [List.map_cons, List.map_cons, ih, hdecoded.length]
    · obtain ⟨error, hfill⟩ := fillChannel_of_not_fits h
      rw [hfill]

end Session

end SampleStream
