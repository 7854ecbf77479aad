import SampleStream.Proofs.Front

/-!
# Scanning bytes

The scan again, on the encoding of the text: it looks at single bytes, keeps its place by their number, and cuts
a piece out of the text only when it knows where the piece ends. A cut outside the text or inside a character
gives nothing, and neither does the scan then. It always gives something, the same as `tokenize`
(`ByteScan.tokenize?_eq`), since what it looks for are characters of one byte, and since it moves the end of what it
refuses to the next character (`ByteScan.invalid?_char`).
-/

namespace SampleStream

namespace ByteScan

/-- The bytes of a text, each as the character of that number. -/
def bytes (source : List Char) : List Char :=
  (source.flatMap String.utf8EncodeChar).map Char.ofUInt8

/-- Whether a place lies between characters. -/
def isBoundary (source : List Char) (place : Nat) : Bool :=
  place ≤ utf8Length source && (takeBytes? place source).isSome

/-- The text between two places, if it can be cut there. -/
def slice? (source : List Char) (start stop : Nat) : Option (List Char) :=
  if start ≤ stop && isBoundary source start && isBoundary source stop then
    Span.slice? ⟨start, stop⟩ source
  else none

/-- A lexeme and the place behind it, or why there is none; nothing if the text cannot be cut. -/
abbrev Step := Option (Except SyntaxError (Lexeme × Nat))

section

variable (source : List Char)

def peek? (place : Nat) : Option Char :=
  (bytes source)[place]?

/-- The place behind the bytes of the class that come next. -/
def past (p : Char → Bool) (place : Nat) : Nat :=
  place + (((bytes source).drop place).takeWhile p).length

/-- Refuses what stands between the start and the place reached. It is one byte at least, and its end moves to the
end of the character that it falls into. -/
def invalid? (start place : Nat) : Step := do
  let size := utf8Length source
  let least := min (max place (start + 1)) size
  let stop := ((List.range' least (size + 1 - least)).find? (isBoundary source)).getD size
  let text ← slice? source start stop
  some (.error ⟨⟨start, stop⟩, .invalidToken (.ofList text)⟩)

def word? (start : Nat) : Step := do
  let stop := past source Scan.isWordChar start
  let text ← slice? source start stop
  if text.all Scan.isLower then
    match Keyword.ofText? (.ofList text) with
    | some k => some (.ok (.keyword k, stop))
    | none => some (.ok (.name (.ofList text), stop))
  else invalid? source start stop

/-- A number with a point, from behind the point on. -/
def sample? (start place : Nat) : Step :=
  let stop := past source Numeral.isDigit place
  if (peek? source stop).any Scan.isWordChar then invalid? source start (past source Scan.isWordChar stop)
  else do
    let text ← slice? source start stop
    match Sample.ofText? (.ofList text) with
    | some s =>
      if s.isFinite then some (.ok (.sample s, stop))
      else some (.error ⟨⟨start, stop⟩, .sampleOutOfRange (.ofList text)⟩)
    | none => invalid? source start stop

/-- A number without a point, which must not have a sign. -/
def index? (negative : Bool) (start stop : Nat) : Step :=
  if negative || (peek? source stop).any Scan.isWordChar then
    invalid? source start (past source Scan.isWordChar stop)
  else do
    let text ← slice? source start stop
    let n := Numeral.value text
    if n < UInt64.size then some (.ok (.index (.ofNat n), stop))
    else some (.error ⟨⟨start, stop⟩, .integerOutOfRange (.ofList text)⟩)

/-- A number that starts with its sign, if it has one, and has its first digit at the place reached. -/
def number? (start place : Nat) : Step :=
  let stop := past source Numeral.isDigit place
  if peek? source stop == some '.' then sample? source start (stop + 1)
  else index? source (peek? source start == some '-') start stop

/-- What begins with the byte at the start. -/
def piece? (start : Nat) (c : Char) : Step :=
  if Scan.isWordStart c then word? source start
  else if Numeral.isDigit c then number? source start start
  else match (peek? source (start + 1)).bind (Scan.double? c) with
    | some s => some (.ok (.symbol s, start + 2))
    | none =>
      if c == '-' && (peek? source (start + 1)).any Numeral.isDigit then number? source start (start + 1)
      else match Scan.single? c with
        | some s => some (.ok (.symbol s, start + 1))
        | none => invalid? source start (start + 1)

/-- The token behind the blanks that come next. -/
def next? (place : Nat) : Option (Except SyntaxError Token) :=
  let start := past source Scan.isBlank place
  let step : Step := match peek? source start with
    | none => some (.ok (.done, start))
    | some c => piece? source start c
  step.map fun result => result.map fun (l, stop) => ⟨l, ⟨start, stop⟩⟩

/-- The tokens from a place on, and the complaint that ended the scan if there was one. -/
def run? (place : Nat) : Option (List Token × Option SyntaxError) :=
  match next? source place with
  | none => none
  | some (.error e) => some ([], some e)
  | some (.ok t) =>
    if t.lexeme = .done then some ([t], none)
    else if place < t.span.stop ∧ place < utf8Length source then
      (run? t.span.stop).map fun (ts, e) => (t :: ts, e)
    else none
termination_by utf8Length source - place

end

/-- The scan of a whole text, as `tokenize` has it. -/
def tokenize? (source : String) : Option (Except SyntaxError (List Token)) :=
  (run? source.toList 0).map fun (ts, e) => match e with
    | some e => .error e
    | none => .ok ts

theorem bytes_cons (c : Char) (cs : List Char) :
    bytes (c :: cs) = (String.utf8EncodeChar c).map Char.ofUInt8 ++ bytes cs := by
  rw [bytes, List.flatMap_cons, List.map_append, bytes]

theorem bytes_append (cs ds : List Char) : bytes (cs ++ ds) = bytes cs ++ bytes ds := by
  rw [bytes, List.flatMap_append, List.map_append, bytes, bytes]

theorem length_bytes (cs : List Char) : (bytes cs).length = utf8Length cs := by
  induction cs with
  | nil => rfl
  | cons c cs ih =>
    rw [bytes_cons, List.length_append, List.length_map, String.length_utf8EncodeChar, ih, utf8Length]

theorem drop_bytes (front cs : List Char) : (bytes (front ++ cs)).drop (utf8Length front) = bytes cs := by
  rw [bytes_append, ← length_bytes, List.drop_left]

-- A character below 128 is its own byte, and any other one has no such bytes.
theorem bytes_of_ascii {c : Char} (h : c.toNat < 128) (cs : List Char) : bytes (c :: cs) = c :: bytes cs := by
  have hencode : String.utf8EncodeChar c = [UInt8.ofNat c.toNat] := by
    rw [String.utf8EncodeChar]
    exact if_pos (Nat.le_of_lt_succ h)
  have hbyte : Char.ofUInt8 (UInt8.ofNat c.toNat) = c := by
    apply Char.ext
    apply UInt32.toNat_inj.mp
    change (UInt8.ofNat c.toNat).toNat = c.toNat
    rw [UInt8.toNat_ofNat']
    exact Nat.mod_eq_of_lt (by omega)
  rw [bytes_cons, hencode, List.map_singleton, hbyte, List.singleton_append]

theorem bytes_of_not_ascii {c : Char} (h : ¬c.toNat < 128) (cs : List Char) :
    ∃ b bs, bytes (c :: cs) = b :: bs ∧ 128 ≤ b.toNat := by
  have hhead : ∃ b bs, String.utf8EncodeChar c = b :: bs ∧ 128 ≤ b.toNat := by
    have hlarge : ¬c.val.toNat ≤ 127 := fun hle => h (Nat.lt_succ_of_le hle)
    rw [String.utf8EncodeChar, if_neg hlarge]
    split
    · exact ⟨_, _, rfl, by rw [UInt8.toNat_ofNat']; omega⟩
    · split
      · exact ⟨_, _, rfl, by rw [UInt8.toNat_ofNat']; omega⟩
      · exact ⟨_, _, rfl, by rw [UInt8.toNat_ofNat']; omega⟩
  obtain ⟨b, bs, hencode, hb⟩ := hhead
  exact ⟨.ofUInt8 b, _, by rw [bytes_cons, hencode]; rfl, hb⟩

theorem bytes_eq_self {cs : List Char} (h : ∀ c ∈ cs, c.toNat < 128) : bytes cs = cs := by
  induction cs with
  | nil => rfl
  | cons c cs ih =>
    rw [List.forall_mem_cons] at h
    rw [bytes_of_ascii h.1, ih h.2]

/-- A class of characters that are bytes. -/
def IsAscii (p : Char → Bool) : Prop :=
  ∀ c, p c = true → c.toNat < 128

variable {p : Char → Bool} {front cs : List Char}

theorem IsAscii.takeWhile_bytes (hp : IsAscii p) (cs : List Char) : (bytes cs).takeWhile p = cs.takeWhile p := by
  induction cs with
  | nil => rfl
  | cons c cs ih =>
    by_cases hc : c.toNat < 128
    · rw [bytes_of_ascii hc, List.takeWhile_cons, List.takeWhile_cons, ih]
    · obtain ⟨b, bs, hbytes, hb⟩ := bytes_of_not_ascii hc cs
      have hnot : ¬p c = true := fun h => hc (hp c h)
      have hnot' : ¬p b = true := fun h => Nat.not_lt.mpr hb (hp b h)
      rw [hbytes, List.takeWhile_cons, List.takeWhile_cons, if_neg hnot, if_neg hnot']

theorem IsAscii.length_takeWhile (hp : IsAscii p) (cs : List Char) :
    (cs.takeWhile p).length = utf8Length (cs.takeWhile p) := by
  have hascii : ∀ c ∈ cs.takeWhile p, c.toNat < 128 := fun c hc => hp c (List.mem_takeWhile_imp hc)
  rw [← length_bytes, bytes_eq_self hascii]

theorem IsAscii.past_append (hp : IsAscii p) (front cs : List Char) :
    past (front ++ cs) p (utf8Length front) = utf8Length (front ++ cs.takeWhile p) := by
  rw [past, drop_bytes, hp.takeWhile_bytes, hp.length_takeWhile, utf8Length_append]

theorem peek?_append (front cs : List Char) : peek? (front ++ cs) (utf8Length front) = (bytes cs).head? := by
  rw [peek?, ← drop_bytes front cs, List.head?_drop]

-- The first byte is the first character, or neither of them is looked for.
theorem head?_bytes (cs : List Char) : (bytes cs).head? = cs.head? ∨
    ∃ b c, (bytes cs).head? = some b ∧ cs.head? = some c ∧ ¬b.toNat < 128 ∧ ¬c.toNat < 128 := by
  cases cs with
  | nil => exact .inl rfl
  | cons c cs =>
    by_cases hc : c.toNat < 128
    · exact .inl (by rw [bytes_of_ascii hc]; rfl)
    · obtain ⟨b, bs, hbytes, hb⟩ := bytes_of_not_ascii hc cs
      exact .inr ⟨b, c, by rw [hbytes]; rfl, rfl, Nat.not_lt.mpr hb, hc⟩

theorem IsAscii.any_head? (hp : IsAscii p) (cs : List Char) : (bytes cs).head?.any p = cs.head?.any p := by
  obtain hsame | ⟨b, c, hb, hc, hnotb, hnotc⟩ := head?_bytes cs
  · rw [hsame]
  · have hpb : p b = false := by
      rw [← Bool.not_eq_true]
      exact fun h => hnotb (hp b h)
    have hpc : p c = false := by
      rw [← Bool.not_eq_true]
      exact fun h => hnotc (hp c h)
    rw [hb, hc, Option.any_some, Option.any_some, hpb, hpc]

theorem head?_bytes_eq_iff {d : Char} (hd : d.toNat < 128) (cs : List Char) :
    (bytes cs).head? = some d ↔ cs.head? = some d := by
  obtain hsame | ⟨b, c, hb, hc, hnotb, hnotc⟩ := head?_bytes cs
  · rw [hsame]
  · rw [hb, hc, Option.some_inj, Option.some_inj]
    exact ⟨fun h => absurd (h ▸ hd) hnotb, fun h => absurd (h ▸ hd) hnotc⟩

theorem takeBytes?_append_add (front cs : List Char) (k : Nat) :
    takeBytes? (utf8Length front + k) (front ++ cs) = (takeBytes? k cs).map (front ++ ·) := by
  induction front with
  | nil =>
    rw [utf8Length, Nat.zero_add, List.nil_append]
    exact Option.map_id'.symm
  | cons c front ih =>
    obtain ⟨n, hn⟩ : ∃ n, utf8Length (c :: front) + k = n + 1 :=
      Nat.exists_eq_add_one.mpr (Nat.add_pos_left (utf8Length_pos (List.cons_ne_nil c front)) k)
    have hrest : n + 1 - c.utf8Size = utf8Length front + k := by
      rw [utf8Length] at hn
      omega
    have hsize : c.utf8Size ≤ n + 1 := by
      rw [utf8Length] at hn
      omega
    rw [hn, List.cons_append, takeBytes?, if_pos hsize, hrest, ih, Option.map_map]
    rfl

theorem isBoundary_append (front cs : List Char) : isBoundary (front ++ cs) (utf8Length front) = true := by
  rw [isBoundary, takeBytes?_append, utf8Length_append]
  simp

theorem not_isBoundary_append {k : Nat} {c : Char} (hpos : 0 < k) (hlt : k < c.utf8Size) (front cs : List Char) :
    isBoundary (front ++ c :: cs) (utf8Length front + k) = false := by
  obtain ⟨k, rfl⟩ := Nat.exists_eq_add_one.mpr hpos
  rw [isBoundary, takeBytes?_append_add, takeBytes?, if_neg (by omega)]
  simp

theorem slice?_append (front text after : List Char) :
    slice? (front ++ text ++ after) (utf8Length front) (utf8Length (front ++ text)) = some text := by
  have hstart : isBoundary (front ++ text ++ after) (utf8Length front) = true := by
    rw [List.append_assoc]
    exact isBoundary_append front (text ++ after)
  have hle : utf8Length front ≤ utf8Length (front ++ text) := by
    rw [utf8Length_append]
    exact Nat.le_add_right _ _
  rw [slice?, hstart, isBoundary_append (front ++ text) after, decide_eq_true hle, utf8Length_append]
  exact Span.slice?_append front text after

-- What is refused ends at the first place that is reached and lies between characters.
theorem invalid?_eq {front text after : List Char} {place : Nat} (hne : text ≠ [])
    (hplace : place ≤ utf8Length (front ++ text))
    (hinside : ∀ i, place ≤ i → utf8Length front < i → i < utf8Length (front ++ text) →
      isBoundary (front ++ text ++ after) i = false) :
    invalid? (front ++ text ++ after) (utf8Length front) place =
      some (.error ⟨⟨utf8Length front, utf8Length (front ++ text)⟩, .invalidToken (.ofList text)⟩) := by
  have hlt : utf8Length front < utf8Length (front ++ text) := by
    rw [utf8Length_append]
    exact Nat.lt_add_of_pos_right (utf8Length_pos hne)
  have hsize : utf8Length (front ++ text) ≤ utf8Length (front ++ text ++ after) := by
    rw [utf8Length_append (front ++ text)]
    exact Nat.le_add_right _ _
  have hfind : (List.range' (min (max place (utf8Length front + 1)) (utf8Length (front ++ text ++ after)))
      (utf8Length (front ++ text ++ after) + 1 -
        min (max place (utf8Length front + 1)) (utf8Length (front ++ text ++ after)))).find?
      (isBoundary (front ++ text ++ after)) = some (utf8Length (front ++ text)) := by
    rw [List.find?_range'_eq_some]
    refine ⟨isBoundary_append (front ++ text) after, ?_, fun i hi hstop => ?_⟩
    · rw [List.mem_range'_1]
      omega
    · rw [hinside i (by omega) (by omega) hstop]
      rfl
  simp only [invalid?, hfind, Option.getD_some, slice?_append]
  rfl

theorem invalid?_text {text : List Char} (hne : text ≠ []) (front after : List Char) :
    invalid? (front ++ text ++ after) (utf8Length front) (utf8Length (front ++ text)) =
      some (.error ⟨⟨utf8Length front, utf8Length (front ++ text)⟩, .invalidToken (.ofList text)⟩) :=
  invalid?_eq hne (Nat.le_refl _) fun _ hi _ hstop => absurd hi (Nat.not_le.mpr hstop)

-- A byte that begins a character is refused with all of the character.
theorem invalid?_char (front : List Char) (c : Char) (after : List Char) :
    invalid? (front ++ [c] ++ after) (utf8Length front) (utf8Length front + 1) =
      some (.error ⟨⟨utf8Length front, utf8Length (front ++ [c])⟩, .invalidToken (.ofList [c])⟩) := by
  have hlength : utf8Length (front ++ [c]) = utf8Length front + c.utf8Size := by
    rw [utf8Length_append, utf8Length, utf8Length, Nat.add_zero]
  have hsize := c.utf8Size_pos
  refine invalid?_eq (List.cons_ne_nil c []) (by omega) fun _ _ hi hstop => ?_
  obtain ⟨k, rfl⟩ := Nat.exists_eq_add_of_lt hi
  rw [List.append_assoc, Nat.add_assoc]
  exact not_isBoundary_append (Nat.succ_pos k) (by omega) front after

/-- What a piece that stands behind a front says. -/
def outcome (front : List Char) (piece : Scan.Cut) : Except SyntaxError (Lexeme × Nat) :=
  match piece.reading with
  | .error flaw => .error ⟨⟨utf8Length front, utf8Length (front ++ piece.text)⟩, flaw.cause piece.text⟩
  | .ok l => .ok (l, utf8Length (front ++ piece.text))

theorem isAscii_isLower : IsAscii Scan.isLower := by
  intro c h
  have hz : c ≤ 'z' := by
    rw [Scan.isLower, Bool.and_eq_true, decide_eq_true_eq, decide_eq_true_eq] at h
    exact h.2
  exact Nat.lt_of_le_of_lt (Char.le_def.mp hz) (by decide)

theorem isAscii_isDigit : IsAscii Numeral.isDigit := by
  intro c h
  have hnine : c ≤ '9' := by
    rw [Numeral.isDigit, Bool.and_eq_true, decide_eq_true_eq, decide_eq_true_eq] at h
    exact h.2
  exact Nat.lt_of_le_of_lt (Char.le_def.mp hnine) (by decide)

theorem isAscii_isWordStart : IsAscii Scan.isWordStart := by
  intro c h
  rw [Scan.isWordStart, Bool.or_eq_true, Bool.or_eq_true] at h
  obtain (hlower | hupper) | hline := h
  · exact isAscii_isLower c hlower
  · rw [Bool.and_eq_true, decide_eq_true_eq, decide_eq_true_eq] at hupper
    exact Nat.lt_of_le_of_lt (Char.le_def.mp hupper.2) (by decide)
  · rw [beq_iff_eq] at hline
    rw [hline]
    decide

theorem isAscii_isWordChar : IsAscii Scan.isWordChar := by
  intro c h
  rw [Scan.isWordChar, Bool.or_eq_true] at h
  exact h.elim (isAscii_isWordStart c) (isAscii_isDigit c)

theorem isAscii_isBlank : IsAscii Scan.isBlank := by
  intro c h
  simp only [Scan.isBlank, Bool.or_eq_true, beq_iff_eq] at h
  rcases h with (((rfl | rfl) | rfl) | rfl) | rfl <;> decide

theorem append_run (front : List Char) (p : Char → Bool) (cs : List Char) :
    front ++ cs = front ++ cs.takeWhile p ++ cs.dropWhile p := by
  rw [List.append_assoc, List.takeWhile_append_dropWhile]

theorem word?_eq (front : List Char) {cs : List Char} (hne : cs.takeWhile Scan.isWordChar ≠ []) :
    word? (front ++ cs) (utf8Length front) = some (outcome front (Scan.word cs)) := by
  have hpast := isAscii_isWordChar.past_append front cs
  have hslice := slice?_append front (cs.takeWhile Scan.isWordChar) (cs.dropWhile Scan.isWordChar)
  have hinvalid := invalid?_text hne front (cs.dropWhile Scan.isWordChar)
  rw [← append_run] at hslice hinvalid
  simp only [word?, hpast, hslice, hinvalid]
  dsimp only [Option.bind_eq_bind, Option.bind_some, outcome, Scan.word]
  split
  · cases Keyword.ofText? (.ofList (cs.takeWhile Scan.isWordChar)) <;> rfl
  · rfl

theorem any_head?_eq_runsOn (cs : List Char) : (bytes cs).head?.any Scan.isWordChar = Scan.runsOn cs := by
  rw [isAscii_isWordChar.any_head?]
  cases cs <;> rfl

theorem refused?_eq {text : List Char} (hne : text ≠ []) (front rest : List Char) :
    invalid? (front ++ text ++ rest) (utf8Length front)
        (past (front ++ text ++ rest) Scan.isWordChar (utf8Length (front ++ text))) =
      some (outcome front (Scan.refused text rest)) := by
  have hne' : text ++ rest.takeWhile Scan.isWordChar ≠ [] := by simp [hne]
  have hinvalid := invalid?_text hne' front (rest.dropWhile Scan.isWordChar)
  rw [← List.append_assoc, ← append_run] at hinvalid
  rw [isAscii_isWordChar.past_append, hinvalid]
  simp [outcome, Scan.refused, Scan.Flaw.cause]

theorem sample?_eq (negative : Bool) {whole : List Char} (hne : whole ≠ [])
    (hwhole : ∀ c ∈ whole, Numeral.isDigit c = true) (front rest : List Char) :
    let text := Scan.sign negative ++ whole ++ '.' :: rest.takeWhile Numeral.isDigit
    let after := rest.dropWhile Numeral.isDigit
    let s := Sample.ofPoint negative whole (rest.takeWhile Numeral.isDigit)
    sample? (front ++ (Scan.sign negative ++ whole ++ '.' :: rest)) (utf8Length front)
        (utf8Length (front ++ (Scan.sign negative ++ whole)) + 1) =
      some (outcome front (if Scan.runsOn after then Scan.refused text after
        else ⟨text, after, if s.isFinite then .ok (.sample s) else .error .sampleRange⟩)) := by
  intro text after s
  obtain ⟨source, hsource⟩ : ∃ source, source = front ++ (Scan.sign negative ++ whole ++ '.' :: rest) := ⟨_, rfl⟩
  have hcut : source = front ++ text ++ after := by
    rw [hsource]
    simp [text, after]
  have hstop := isAscii_isDigit.past_append (front ++ (Scan.sign negative ++ whole ++ ['.'])) rest
  have hplace : utf8Length (front ++ (Scan.sign negative ++ whole ++ ['.'])) =
      utf8Length (front ++ (Scan.sign negative ++ whole)) + 1 := by
    rw [← List.append_assoc, utf8Length_append]
    rfl
  have hbehind : front ++ (Scan.sign negative ++ whole ++ ['.']) ++ rest = source := by
    rw [hsource]
    simp
  have hread : front ++ (Scan.sign negative ++ whole ++ ['.']) ++ rest.takeWhile Numeral.isDigit = front ++ text := by
    simp [text]
  have hpeek := peek?_append (front ++ text) after
  have htext : text ≠ [] := by simp [text]
  have hrefused := refused?_eq htext front after
  have hslice := slice?_append front text after
  have hvalue : Sample.ofText? (.ofList text) = some s :=
    Sample.ofText?_point negative hne hwhole fun d hd => List.mem_takeWhile_imp hd
  rw [hplace, hbehind, hread] at hstop
  rw [← hcut] at hpeek hrefused hslice
  rw [← hsource]
  simp only [sample?, hstop, hpeek, any_head?_eq_runsOn, hrefused, hslice]
  split
  · rfl
  · dsimp only [Option.bind_eq_bind, Option.bind_some]
    rw [hvalue]
    dsimp only [outcome]
    split <;> rfl

theorem index?_eq (negative : Bool) {whole : List Char} (hne : whole ≠ []) (front rest : List Char) :
    let text := Scan.sign negative ++ whole
    let n := Numeral.value whole
    index? (front ++ (text ++ rest)) negative (utf8Length front) (utf8Length (front ++ text)) =
      some (outcome front (if negative || Scan.runsOn rest then Scan.refused text rest
        else ⟨text, rest, if n < UInt64.size then .ok (.index (.ofNat n)) else .error .integerRange⟩)) := by
  intro text n
  have htext : text ≠ [] := by simp [text, hne]
  rw [← List.append_assoc]
  simp only [index?, peek?_append, any_head?_eq_runsOn, refused?_eq htext, slice?_append]
  split
  · rfl
  · rename_i hruns
    rw [Bool.or_eq_true, not_or, Bool.not_eq_true] at hruns
    obtain ⟨rfl, -⟩ := hruns
    dsimp only [Option.bind_eq_bind, Option.bind_some, outcome]
    change (if n < UInt64.size then _ else _) = _
    split <;> rfl

theorem number?_eq (negative : Bool) (front : List Char) {c : Char} (hc : Numeral.isDigit c = true)
    (cs : List Char) : number? (front ++ (Scan.sign negative ++ c :: cs)) (utf8Length front)
        (utf8Length (front ++ Scan.sign negative)) =
      some (outcome front (Scan.number negative (c :: cs))) := by
  have hne : (c :: cs).takeWhile Numeral.isDigit ≠ [] := by simp [hc]
  have hdigits : ∀ d ∈ (c :: cs).takeWhile Numeral.isDigit, Numeral.isDigit d = true :=
    fun d hd => List.mem_takeWhile_imp hd
  have hstop := isAscii_isDigit.past_append (front ++ Scan.sign negative) (c :: cs)
  have hpeek := peek?_append (front ++ (Scan.sign negative ++ (c :: cs).takeWhile Numeral.isDigit))
    ((c :: cs).dropWhile Numeral.isDigit)
  rw [List.append_assoc, List.append_assoc] at hstop
  rw [List.append_assoc, List.append_assoc, List.takeWhile_append_dropWhile] at hpeek
  simp only [number?, hstop, hpeek]
  by_cases hpoint : ((c :: cs).dropWhile Numeral.isDigit).head? = some '.'
  · obtain ⟨rest, hrest⟩ := List.head?_eq_some_iff.mp hpoint
    have hbehind : Scan.sign negative ++ (c :: cs).takeWhile Numeral.isDigit ++ '.' :: rest =
        Scan.sign negative ++ c :: cs := by
      rw [List.append_assoc, ← hrest, List.takeWhile_append_dropWhile]
    have hsample := sample?_eq negative hne hdigits front rest
    rw [hbehind] at hsample
    rw [if_pos (by rw [beq_iff_eq, head?_bytes_eq_iff (by decide), hpoint]), Scan.number_of_point negative hrest]
    exact hsample
  · have hsign : (peek? (front ++ (Scan.sign negative ++ c :: cs)) (utf8Length front) == some '-') = negative := by
      rw [Bool.eq_iff_iff, beq_iff_eq, peek?_append, head?_bytes_eq_iff (by decide)]
      cases negative with
      | false =>
        have hminus : c ≠ '-' := by
          rintro rfl
          cases hc
        simp [Scan.sign, hminus]
      | true => simp [Scan.sign]
    have hindex := index?_eq negative hne front ((c :: cs).dropWhile Numeral.isDigit)
    dsimp only at hindex
    rw [List.append_assoc, List.takeWhile_append_dropWhile] at hindex
    rw [if_neg (by rwa [beq_iff_eq, head?_bytes_eq_iff (by decide)]), Scan.number_of_no_point negative hpoint, hsign]
    exact hindex

theorem isAscii_of_mem_text (s : Symbol) : ∀ c ∈ s.text.toList, c.toNat < 128 := by
  have hall : s.text.toList.all (fun c => c.toNat < 128) = true := by cases s <;> decide
  simpa using hall

theorem double?_ascii {c d : Char} {s : Symbol} (h : Scan.double? c d = some s) : c.toNat < 128 ∧ d.toNat < 128 := by
  have hmem := isAscii_of_mem_text s
  rw [(Scan.double?_cases h).2.2.2.2] at hmem
  exact ⟨hmem c (by simp), hmem d (by simp)⟩

theorem single?_ascii {c : Char} {s : Symbol} (h : Scan.single? c = some s) : c.toNat < 128 := by
  have hmem := isAscii_of_mem_text s
  rw [(Scan.single?_cases h).2.2.2.2] at hmem
  exact hmem c (by simp)

/-- Nothing that is looked for begins with it, as with any character or byte past the first 128. -/
structure Foreign (c : Char) : Prop where
  isWordStart : ¬Scan.isWordStart c = true
  isDigit : ¬Numeral.isDigit c = true
  minus : ¬(c == '-') = true
  single : Scan.single? c = none
  double : ∀ d, Scan.double? c d = none

theorem foreign {c : Char} (h : ¬c.toNat < 128) : Foreign c where
  isWordStart := fun hc => h (isAscii_isWordStart c hc)
  isDigit := fun hc => h (isAscii_isDigit c hc)
  minus := by
    rw [beq_iff_eq]
    rintro rfl
    exact h (by decide)
  single := by
    cases hs : Scan.single? c with
    | none => rfl
    | some s => exact absurd (single?_ascii hs) h
  double d := by
    cases hs : Scan.double? c d with
    | none => rfl
    | some s => exact absurd (double?_ascii hs).1 h

theorem Foreign.cut {c : Char} (h : Foreign c) (cs : List Char) :
    Scan.cut c cs = ⟨[c], cs, .error .invalid⟩ := by
  have hone : Scan.oneChar c cs = ⟨[c], cs, .error .invalid⟩ := by
    rw [Scan.oneChar, h.single]
  rw [Scan.cut, if_neg h.isWordStart, if_neg h.isDigit, Scan.symbol.eq_def]
  cases cs with
  | nil => exact hone
  | cons d cs => simp only [h.double, h.minus, Bool.false_and, hone, Bool.false_eq_true, if_false]

theorem Foreign.piece? {b : Char} (h : Foreign b) (source : List Char) (start : Nat) :
    ByteScan.piece? source start b = invalid? source start (start + 1) := by
  have hdouble : (peek? source (start + 1)).bind (Scan.double? b) = none := by
    cases peek? source (start + 1) with
    | none => rfl
    | some d => exact h.double d
  rw [ByteScan.piece?, if_neg h.isWordStart, if_neg h.isDigit, hdouble]
  simp only [h.minus, h.single, Bool.false_and, Bool.false_eq_true, if_false]

theorem utf8Length_append_singleton {c : Char} (h : c.toNat < 128) (front : List Char) :
    utf8Length (front ++ [c]) = utf8Length front + 1 := by
  rw [utf8Length_append, ← length_bytes [c], bytes_of_ascii h]
  rfl

theorem oneChar?_eq (front : List Char) (c : Char) (cs : List Char) :
    (match Scan.single? c with
      | some s => some (.ok (.symbol s, utf8Length front + 1))
      | none => invalid? (front ++ c :: cs) (utf8Length front) (utf8Length front + 1)) =
      some (outcome front (Scan.oneChar c cs)) := by
  unfold outcome Scan.oneChar
  cases hs : Scan.single? c with
  | some s => simp only [utf8Length_append_singleton (single?_ascii hs)]
  | none =>
    have hinvalid := invalid?_char front c cs
    rwa [List.append_assoc] at hinvalid

-- A piece that is no word and begins with no digit is a symbol, or a number with its sign, or it is refused.
theorem symbol?_eq (front : List Char) {c : Char} (hc : c.toNat < 128) (hword : ¬Scan.isWordStart c = true)
    (hdigit : ¬Numeral.isDigit c = true) (cs : List Char) :
    piece? (front ++ c :: cs) (utf8Length front) c = some (outcome front (Scan.symbol c cs)) := by
  have hplace := utf8Length_append_singleton hc front
  have hpeek : peek? (front ++ c :: cs) (utf8Length front + 1) = (bytes cs).head? := by
    rw [← hplace, ← peek?_append (front ++ [c]) cs, List.append_assoc]
    rfl
  rw [piece?, if_neg hword, if_neg hdigit, hpeek, isAscii_isDigit.any_head?]
  have hdouble : (bytes cs).head?.bind (Scan.double? c) = cs.head?.bind (Scan.double? c) := by
    obtain hsame | ⟨b, d, hb, hd, hnotb, hnotd⟩ := head?_bytes cs
    · rw [hsame]
    · have hnone {e : Char} (he : ¬e.toNat < 128) : Scan.double? c e = none := by
        cases hs : Scan.double? c e with
        | none => rfl
        | some s => exact absurd (double?_ascii hs).2 he
      rw [hb, hd]
      exact (hnone hnotb).trans (hnone hnotd).symm
  have hone := oneChar?_eq front c cs
  rw [hdouble]
  cases cs with
  | nil =>
    simp only [List.head?_nil, Option.bind_none, Option.any_none, Bool.and_false, Bool.false_eq_true, if_false]
    exact hone
  | cons d rest =>
    simp only [List.head?_cons, Option.bind_some, Option.any_some]
    rw [Scan.symbol]
    cases hs : Scan.double? c d with
    | some s =>
      have hlength : utf8Length (front ++ [c, d]) = utf8Length front + 2 := by
        rw [List.append_cons, utf8Length_append_singleton (double?_ascii hs).2, hplace]
      simp only [outcome, hlength]
    | none =>
      by_cases hsign : (c == '-' && Numeral.isDigit d) = true
      · dsimp only
        rw [if_pos hsign]
        refine (if_pos hsign).trans ?_
        rw [Bool.and_eq_true, beq_iff_eq] at hsign
        obtain ⟨rfl, hd⟩ := hsign
        rw [← hplace]
        exact number?_eq true front hd rest
      · dsimp only
        rw [if_neg hsign]
        exact (if_neg hsign).trans hone

-- The first byte of a piece is all that is looked at to choose its class.
theorem piece?_eq (front : List Char) (c : Char) (cs : List Char) : ∃ b, (bytes (c :: cs)).head? = some b ∧
    piece? (front ++ c :: cs) (utf8Length front) b = some (outcome front (Scan.cut c cs)) := by
  by_cases hc : c.toNat < 128
  · refine ⟨c, by rw [bytes_of_ascii hc]; rfl, ?_⟩
    by_cases hword : Scan.isWordStart c = true
    · have hne : (c :: cs).takeWhile Scan.isWordChar ≠ [] := by
        simp [Scan.isWordChar, hword]
      rw [piece?, Scan.cut, if_pos hword, if_pos hword]
      exact word?_eq front hne
    · by_cases hdigit : Numeral.isDigit c = true
      · have hnumber := number?_eq false front hdigit cs
        rw [piece?, Scan.cut, if_neg hword, if_neg hword, if_pos hdigit, if_pos hdigit]
        rwa [Scan.sign, if_neg Bool.false_ne_true, List.append_nil, List.nil_append] at hnumber
      · rw [Scan.cut, if_neg hword, if_neg hdigit]
        exact symbol?_eq front hc hword hdigit cs
  · obtain ⟨b, bs, hbytes, hb⟩ := bytes_of_not_ascii hc cs
    have hinvalid := invalid?_char front c cs
    rw [List.append_assoc] at hinvalid
    refine ⟨b, by rw [hbytes]; rfl, ?_⟩
    rw [(foreign (Nat.not_lt.mpr hb)).piece?, (foreign hc).cut]
    exact hinvalid

theorem next?_of_past {source : List Char} {place start : Nat} (h : past source Scan.isBlank place = start) :
    next? source place = (match peek? source start with
      | none => some (.ok (.done, start))
      | some c => piece? source start c : Step).map fun result => result.map fun (l, stop) => ⟨l, ⟨start, stop⟩⟩ := by
  subst h
  rfl

theorem next?_blank {c : Char} (hc : Scan.isBlank c = true) (front cs : List Char) :
    next? (front ++ c :: cs) (utf8Length front) = next? (front ++ c :: cs) (utf8Length (front ++ [c])) := by
  have hpast := isAscii_isBlank.past_append front (c :: cs)
  have hbehind := isAscii_isBlank.past_append (front ++ [c]) cs
  rw [List.takeWhile_cons, if_pos hc] at hpast
  rw [← List.append_cons, ← List.append_cons] at hbehind
  rw [next?_of_past hpast, next?_of_past hbehind]

theorem next?_piece {c : Char} (hc : Scan.isBlank c = false) (front cs : List Char) :
    next? (front ++ c :: cs) (utf8Length front) = some ((outcome front (Scan.cut c cs)).map fun (l, stop) =>
      ⟨l, ⟨utf8Length front, stop⟩⟩) := by
  have hpast := isAscii_isBlank.past_append front (c :: cs)
  rw [List.takeWhile_cons, if_neg (by simp [hc]), List.append_nil] at hpast
  obtain ⟨b, hb, hpiece⟩ := piece?_eq front c cs
  rw [next?_of_past hpast, peek?_append, hb]
  simp only [hpiece, Option.map_some]

theorem next?_end (front : List Char) :
    next? front (utf8Length front) = some (.ok ⟨.done, .point (utf8Length front)⟩) := by
  have hpast := isAscii_isBlank.past_append front []
  have hpeek := peek?_append front []
  rw [List.append_nil] at hpast hpeek
  rw [List.takeWhile_nil, List.append_nil] at hpast
  rw [next?_of_past hpast, hpeek]
  rfl

section

variable {source : List Char} {place : Nat}

theorem run?_of_error {e : SyntaxError} (h : next? source place = some (.error e)) :
    run? source place = some ([], some e) := by
  rw [run?, h]

theorem run?_of_done {span : Span} (h : next? source place = some (.ok ⟨.done, span⟩)) :
    run? source place = some ([⟨.done, span⟩], none) := by
  rw [run?, h]
  exact if_pos rfl

theorem run?_of_token {t : Token} (h : next? source place = some (.ok t)) (hdone : t.lexeme ≠ .done)
    (hstop : place < t.span.stop) (hinside : t.span.stop ≤ utf8Length source) :
    run? source place = (run? source t.span.stop).map fun (ts, e) => (t :: ts, e) := by
  rw [run?, h]
  dsimp only
  rw [if_neg hdone, if_pos ⟨hstop, Nat.lt_of_lt_of_le hstop hinside⟩]

end

-- Behind blanks the same comes next as in front of them, so that a run may begin there too.
theorem run?_front {after cs : List Char} {offset : Nat} {ts : List Token} (h : Front after offset cs ts)
    (us : List Token) (e : Option SyntaxError) : ∀ front, utf8Length front = offset →
    (∀ place ≤ utf8Length (front ++ cs),
      next? (front ++ cs ++ after) place = next? (front ++ cs ++ after) (utf8Length (front ++ cs)) →
        run? (front ++ cs ++ after) place = some (us, e)) →
    ∀ place ≤ offset, next? (front ++ cs ++ after) place = next? (front ++ cs ++ after) offset →
      run? (front ++ cs ++ after) place = some (ts ++ us, e) := by
  induction h with
  | nil =>
    intro front hfront hend place hplace hnext
    rw [List.append_nil] at hend hnext ⊢
    rw [← hfront] at hplace hnext
    exact hend place hplace hnext
  | @blank offset c cs ts hc rest ih =>
    intro front hfront hend place hplace hnext
    have hlength : utf8Length (front ++ [c]) = offset + 1 := by
      rw [utf8Length_append_singleton (isAscii_isBlank c hc), hfront]
    have hblank := next?_blank hc front (cs ++ after)
    rw [← List.cons_append, ← List.append_assoc, hfront, hlength] at hblank
    have hrun := ih (front ++ [c]) hlength
    rw [← List.append_cons] at hrun
    exact hrun hend place (Nat.le_succ_of_le hplace) (hnext.trans hblank)
  | @lexeme offset l text cs ts first apart rest ih =>
    intro front hfront hend place hplace hnext
    have hlength : utf8Length (front ++ text) = offset + utf8Length text := by
      rw [utf8Length_append, hfront]
    have hpos := utf8Length_pos first.ne_nil
    have hrun := ih (front ++ text) hlength
    rw [List.append_assoc front text cs] at hrun
    have hsource : front ++ (text ++ cs) ++ after = front ++ (text ++ (cs ++ after)) := by simp
    obtain ⟨c, ds, htext, hblank, hcut⟩ := Scan.cutsTo_of_spelling first apart
    have htoken := next?_piece hblank front ds
    rw [hcut, outcome, hlength, ← htext, hfront, ← hsource, ← hnext] at htoken
    have hinside : offset + utf8Length text ≤ utf8Length (front ++ (text ++ cs) ++ after) := by
      rw [hsource, ← List.append_assoc, utf8Length_append, hlength]
      exact Nat.le_add_right _ _
    rw [run?_of_token htoken first.ne_done (by dsimp only; omega) hinside,
      hrun hend _ (Nat.le_refl _) rfl]
    rfl

/-- A scan that is refused has read the tokens of the front. -/
theorem run?_of_refuses {front rest : List Char} {c : Char} {ts : List Token} {e : SyntaxError}
    (hfront : Front (c :: rest) 0 front ts) (h : Scan.Refuses (utf8Length front) c rest e) :
    run? (front ++ c :: rest) 0 = some (ts, some e) := by
  obtain ⟨hblank, flaw, hreading, rfl⟩ := h
  have hnext := next?_piece hblank front rest
  rw [outcome, hreading, utf8Length_append] at hnext
  have hrun := run?_front hfront [] (some ⟨⟨utf8Length front, _⟩, flaw.cause (Scan.cut c rest).text⟩) [] rfl
    fun place _ hplace => run?_of_error (hplace.trans hnext)
  rw [List.append_nil] at hrun
  exact hrun 0 (Nat.le_refl _) rfl

theorem run?_of_closed {cs : List Char} {ts : List Token} (h : Front [] 0 cs ts) :
    run? cs 0 = some (ts ++ [⟨.done, .point (utf8Length cs)⟩], none) := by
  have hnext := next?_end cs
  have hrun := run?_front h [⟨.done, .point (utf8Length cs)⟩] none [] rfl
  rw [List.nil_append, List.append_nil] at hrun
  exact hrun (fun place _ hplace => run?_of_done (hplace.trans hnext)) 0 (Nat.le_refl _) rfl

/-- No cut falls inside a character, whatever the text is, and what the bytes say is what the characters say. -/
theorem tokenize?_eq (source : String) : tokenize? source = some (tokenize source) := by
  obtain ⟨front, after, ts, hsource, hfront, rfl | ⟨c, rest, e, rfl, hrefuses, herror⟩⟩ :=
    Scan.front_of_tokens 0 source.toList
  · rw [List.append_nil] at hsource
    rw [tokenize?, tokenize, hsource, run?_of_closed hfront, hfront.closed, Nat.zero_add]
    rfl
  · rw [Nat.zero_add] at hrefuses
    rw [tokenize?, tokenize, herror, hsource, run?_of_refuses hfront hrefuses]
    rfl

example : tokenize? "é" = some (.error ⟨⟨0, 2⟩, .invalidToken "é"⟩) := by decide +kernel

end ByteScan

end SampleStream
