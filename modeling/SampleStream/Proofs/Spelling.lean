import Mathlib.Data.List.TakeWhile
import SampleStream.Token.Scan

/-!
# Texts and their lexemes

How lexemes stand in a source text: each in a spelling of its class, any blanks between them, and next to
each other only where the cut between them is clear. `Spells` is this relation, and scanning decides it:
a text is scanned to the lexemes that it spells (`tokens_of_spells`), and a text that is scanned spells
what it is scanned to (`spells_of_tokens`), each lexeme at its place in the text (`Placed`).
-/

namespace SampleStream

/-- A name that a source text can hold. -/
structure IsWord (x : String) : Prop where
  ne_nil : x.toList ≠ []
  lower : x.toList.all Scan.isLower = true
  free : Keyword.ofText? x = none

/-- The ways to write a lexeme. Leading zeros are no matter, nor are digits that rounding drops. -/
inductive Spelling : Lexeme → List Char → Prop
  | name {x : String} (h : IsWord x) : Spelling (.name x) x.toList
  | keyword (k : Keyword) : Spelling (.keyword k) k.text.toList
  | symbol (s : Symbol) : Spelling (.symbol s) s.text.toList
  | index {ds : List Char} (hne : ds ≠ []) (hds : ∀ c ∈ ds, Numeral.isDigit c = true)
      (hsize : Numeral.value ds < UInt64.size) :
      Spelling (.index (.ofNat (Numeral.value ds))) ds
  | sample (negative : Bool) {whole fraction : List Char} (hne : whole ≠ [])
      (hwhole : ∀ c ∈ whole, Numeral.isDigit c = true)
      (hfraction : ∀ c ∈ fraction, Numeral.isDigit c = true)
      (hfinite : (Sample.ofPoint negative whole fraction).isFinite = true) :
      Spelling (.sample (.ofPoint negative whole fraction))
        (Scan.sign negative ++ whole ++ '.' :: fraction)

/-- What may follow a lexeme without a blank. -/
def Apart : Lexeme → List Char → Prop
  | .name _, cs | .keyword _, cs | .sample _, cs => Scan.runsOn cs = false
  | .index _, cs => Scan.runsOn cs = false ∧ cs.head? ≠ some '.'
  | .symbol .colon, cs => cs.head? ≠ some ':'
  | .symbol .equals, cs => cs.head? ≠ some '>'
  | _, _ => True

/-- The text is made of spellings of the lexemes in order, and of blanks. -/
inductive Spells : List Char → List Lexeme → Prop
  | nil : Spells [] []
  | blank {c : Char} {cs : List Char} {ls : List Lexeme} (hc : Scan.isBlank c = true)
      (rest : Spells cs ls) : Spells (c :: cs) ls
  | lexeme {l : Lexeme} {text cs : List Char} {ls : List Lexeme} (first : Spelling l text)
      (apart : Apart l cs) (rest : Spells cs ls) : Spells (text ++ cs) (l :: ls)

/-- The tokens of a text that begins at `offset`: each lexeme with the place of its spelling, and the end. -/
inductive Placed : Nat → List Char → List Token → Prop
  | nil {offset : Nat} : Placed offset [] [⟨.done, .point offset⟩]
  | blank {offset : Nat} {c : Char} {cs : List Char} {ts : List Token} (hc : Scan.isBlank c = true)
      (rest : Placed (offset + 1) cs ts) : Placed offset (c :: cs) ts
  | lexeme {offset : Nat} {l : Lexeme} {text cs : List Char} {ts : List Token} (first : Spelling l text)
      (apart : Apart l cs) (rest : Placed (offset + utf8Length text) cs ts) :
      Placed offset (text ++ cs) (⟨l, ⟨offset, offset + utf8Length text⟩⟩ :: ts)

namespace Scan

/-- The first character, if there is one, is none of the class. -/
def Stops (p : Char → Bool) (cs : List Char) : Prop :=
  ∀ c ∈ cs.head?, p c = false

theorem Stops.takeWhile_append {p : Char → Bool} {cs : List Char} (h : Stops p cs) {run : List Char}
    (hrun : ∀ c ∈ run, p c = true) : (run ++ cs).takeWhile p = run := by
  rw [List.takeWhile_append_of_pos hrun]
  cases cs with
  | nil => simp
  | cons c cs => simp [List.takeWhile, h c rfl]

theorem Stops.dropWhile_append {p : Char → Bool} {cs : List Char} (h : Stops p cs) {run : List Char}
    (hrun : ∀ c ∈ run, p c = true) : (run ++ cs).dropWhile p = cs := by
  rw [List.dropWhile_append_of_pos hrun]
  cases cs with
  | nil => rfl
  | cons c cs => simp [List.dropWhile, h c rfl]

theorem stops_dropWhile (p : Char → Bool) (cs : List Char) : Stops p (cs.dropWhile p) := by
  intro c hc
  have hhead := List.head?_dropWhile_not p cs
  rw [hc] at hhead
  simpa using hhead

theorem stops_point (cs : List Char) : Stops Numeral.isDigit ('.' :: cs) := by
  intro c hc
  cases hc
  decide

theorem runsOn_eq_false_iff {cs : List Char} : runsOn cs = false ↔ Stops isWordChar cs := by
  cases cs with
  | nil => simp [Stops, runsOn]
  | cons c cs => simp [Stops, runsOn]

theorem isWordChar_of_isDigit {c : Char} (h : Numeral.isDigit c = true) : isWordChar c = true := by
  simp [isWordChar, h]

theorem isWordStart_of_isLower {c : Char} (h : isLower c = true) : isWordStart c = true := by
  simp [isWordStart, h]

theorem isWordChar_of_isLower {c : Char} (h : isLower c = true) : isWordChar c = true := by
  simp [isWordChar, isWordStart_of_isLower h]

theorem Stops.isDigit {cs : List Char} (h : Stops isWordChar cs) : Stops Numeral.isDigit cs := by
  intro c hc
  cases hdigit : Numeral.isDigit c with
  | false => rfl
  | true =>
    have hword := h c hc
    rw [isWordChar_of_isDigit hdigit] at hword
    cases hword

theorem isBlank_cases {c : Char} (h : isBlank c = true) :
    isWordStart c = false ∧ Numeral.isDigit c = false ∧ c ≠ '-' := by
  simp only [isBlank, Bool.or_eq_true, beq_iff_eq] at h
  rcases h with (((rfl | rfl) | rfl) | rfl) | rfl <;> decide

theorem isWordStart_of_isDigit {c : Char} (h : Numeral.isDigit c = true) : isWordStart c = false := by
  have hlow : 48 ≤ c.toNat ∧ c.toNat ≤ 57 := by
    simpa [Numeral.isDigit, Char.le_def, UInt32.le_iff_toNat_le] using h
  have hne : c ≠ '_' := by rintro rfl; exact absurd hlow (by decide)
  simp only [isWordStart, isLower, Bool.or_eq_false_iff, Bool.and_eq_false_iff, decide_eq_false_iff_not,
    beq_eq_false_iff_ne, Char.le_def, UInt32.le_iff_toNat_le]
  refine ⟨⟨.inl ?_, .inl ?_⟩, hne⟩
  · change ¬ 97 ≤ c.toNat
    omega
  · change ¬ 65 ≤ c.toNat
    omega

theorem single?_cases {c : Char} {s : Symbol} (h : single? c = some s) :
    isBlank c = false ∧ isWordStart c = false ∧ Numeral.isDigit c = false ∧ c ≠ '-' ∧
      s.text.toList = [c] := by
  unfold single? at h
  split at h <;> cases h <;> decide

theorem double?_cases {c d : Char} {s : Symbol} (h : double? c d = some s) :
    isBlank c = false ∧ isWordStart c = false ∧ Numeral.isDigit c = false ∧
      Numeral.isDigit d = false ∧ s.text.toList = [c, d] := by
  unfold double? at h
  split at h <;> cases h <;> decide

theorem text_cases (s : Symbol) :
    (∃ c, s.text.toList = [c] ∧ single? c = some s) ∨
      ∃ c d, s.text.toList = [c, d] ∧ double? c d = some s := by
  cases s with
  | arrow => exact .inr ⟨_, _, rfl, rfl⟩
  | colonColon => exact .inr ⟨_, _, rfl, rfl⟩
  | fatArrow => exact .inr ⟨_, _, rfl, rfl⟩
  | _ => exact .inl ⟨_, rfl, rfl⟩

theorem apart_symbol_iff (s : Symbol) (cs : List Char) : Apart (.symbol s) cs ↔
    (s = .colon → cs.head? ≠ some ':') ∧ (s = .equals → cs.head? ≠ some '>') := by
  cases s with
  | colon => exact ⟨fun h => ⟨fun _ => h, nofun⟩, fun h => h.1 rfl⟩
  | equals => exact ⟨fun h => ⟨nofun, fun _ => h⟩, fun h => h.2 rfl⟩
  | _ => exact ⟨fun _ => ⟨nofun, nofun⟩, fun _ => trivial⟩

-- A symbol of one character is apart from what does not make it a symbol of two.
theorem apart_single_iff {c : Char} {s : Symbol} (h : single? c = some s) (cs : List Char) :
    Apart (.symbol s) cs ↔ ∀ d ∈ cs.head?, double? c d = none := by
  have hdouble (d : Char) : double? c d = none ↔ (s = .colon → d ≠ ':') ∧ (s = .equals → d ≠ '>') := by
    unfold single? at h
    unfold double?
    split at h <;> cases h <;> split <;> simp_all
  rw [apart_symbol_iff]
  simp only [hdouble]
  constructor
  · rintro ⟨hcolon, hequals⟩ d hd
    exact ⟨fun hs hchar => hcolon hs (hchar ▸ hd), fun hs hchar => hequals hs (hchar ▸ hd)⟩
  · intro hall
    exact ⟨fun hs hd => (hall ':' hd).1 hs rfl, fun hs hd => (hall '>' hd).2 hs rfl⟩

/-- The text with its rest is cut behind the text, which says the lexeme. -/
def CutsTo (l : Lexeme) (text rest : List Char) : Prop :=
  ∃ c cs, text ++ rest = c :: cs ∧ isBlank c = false ∧ cut c cs = ⟨text, rest, .ok l⟩

theorem isBlank_of_isWordStart {c : Char} (h : isWordStart c = true) : isBlank c = false := by
  cases hc : isBlank c with
  | false => rfl
  | true => rw [(isBlank_cases hc).1] at h; cases h

theorem isBlank_of_isDigit {c : Char} (h : Numeral.isDigit c = true) : isBlank c = false := by
  cases hc : isBlank c with
  | false => rfl
  | true => rw [(isBlank_cases hc).2.1] at h; cases h

theorem eq_text_of_ofText? {word : String} {k : Keyword} (h : Keyword.ofText? word = some k) :
    word = k.text := by
  unfold Keyword.ofText? at h
  split_ifs at h <;> cases h <;> assumption

theorem cutsTo_word {l : Lexeme} {text rest : List Char} (hne : text ≠ [])
    (hlower : ∀ c ∈ text, isLower c = true) (hrest : runsOn rest = false)
    (hl : (match Keyword.ofText? (String.ofList text) with
      | some k => Lexeme.keyword k
      | none => .name (String.ofList text)) = l) : CutsTo l text rest := by
  obtain ⟨c, cs, rfl⟩ := List.exists_cons_of_ne_nil hne
  have hc : isWordStart c = true := isWordStart_of_isLower (hlower c List.mem_cons_self)
  have hword : ∀ d ∈ c :: cs, isWordChar d = true := fun d hd => isWordChar_of_isLower (hlower d hd)
  have hstops := runsOn_eq_false_iff.mp hrest
  refine ⟨c, cs ++ rest, rfl, isBlank_of_isWordStart hc, ?_⟩
  rw [cut, if_pos hc, word, ← List.cons_append, hstops.takeWhile_append hword,
    hstops.dropWhile_append hword]
  rw [if_pos (List.all_eq_true.mpr hlower), ← hl]
  cases Keyword.ofText? (String.ofList (c :: cs)) <;> rfl

theorem cutsTo_symbol (s : Symbol) {rest : List Char} (h : Apart (.symbol s) rest) :
    CutsTo (.symbol s) s.text.toList rest := by
  obtain ⟨c, htext, hs⟩ | ⟨c, d, htext, hs⟩ := text_cases s
  · obtain ⟨hblank, hword, hdigit, hminus, -⟩ := single?_cases hs
    rw [htext]
    refine ⟨c, rest, rfl, hblank, ?_⟩
    rw [cut, if_neg (by simp [hword]), if_neg (by simp [hdigit]), symbol.eq_def]
    have hone : oneChar c rest = ⟨[c], rest, .ok (.symbol s)⟩ := by
      rw [oneChar, hs]
    cases rest with
    | nil => exact hone
    | cons d rest =>
      have hnone := (apart_single_iff hs _).mp h d rfl
      simp only [hnone]
      rw [if_neg (by simp [hminus])]
      exact hone
  · obtain ⟨hblank, hword, hdigit, -, -⟩ := double?_cases hs
    rw [htext]
    refine ⟨c, d :: rest, rfl, hblank, ?_⟩
    rw [cut, if_neg (by simp [hword]), if_neg (by simp [hdigit]), symbol]
    simp only [hs]

-- A number begins with its first digit, or with the sign in front of it.
theorem cut_number (negative : Bool) {c : Char} (hc : Numeral.isDigit c = true) (cs : List Char) :
    ∃ d ds, sign negative ++ c :: cs = d :: ds ∧ isBlank d = false ∧
      cut d ds = number negative (c :: cs) := by
  have hstart := isWordStart_of_isDigit hc
  cases negative with
  | false =>
    refine ⟨c, cs, rfl, isBlank_of_isDigit hc, ?_⟩
    rw [cut, if_neg (by simp [hstart]), if_pos hc]
  | true =>
    have hdouble : double? '-' c = none := by
      unfold double?
      split
      · exact absurd hc (by decide)
      all_goals simp_all
    refine ⟨'-', c :: cs, rfl, by decide, ?_⟩
    rw [cut, if_neg (by decide), if_neg (by decide), symbol]
    simp only [hdouble]
    rw [if_pos (by simp [hc])]

theorem cutsTo_of_number (negative : Bool) {l : Lexeme} {text rest cs : List Char} (hne : cs ≠ [])
    (hdigit : ∀ c ∈ cs.head?, Numeral.isDigit c = true) (htext : text ++ rest = sign negative ++ cs)
    (h : number negative cs = ⟨text, rest, .ok l⟩) : CutsTo l text rest := by
  obtain ⟨c, cs, rfl⟩ := List.exists_cons_of_ne_nil hne
  obtain ⟨d, ds, hfront, hblank, hcut⟩ := cut_number negative (hdigit c rfl) cs
  exact ⟨d, ds, htext.trans hfront, hblank, hcut.trans h⟩

theorem head?_append_digits {ds : List Char} (hne : ds ≠ [])
    (hds : ∀ c ∈ ds, Numeral.isDigit c = true) (rest : List Char) :
    ∀ c ∈ (ds ++ rest).head?, Numeral.isDigit c = true := by
  obtain ⟨d, ds, rfl⟩ := List.exists_cons_of_ne_nil hne
  intro c hc
  cases hc
  exact hds d List.mem_cons_self

theorem cutsTo_index {ds rest : List Char} (hne : ds ≠ [])
    (hds : ∀ c ∈ ds, Numeral.isDigit c = true) (hsize : Numeral.value ds < UInt64.size)
    (hrest : runsOn rest = false) (hpoint : rest.head? ≠ some '.') :
    CutsTo (.index (.ofNat (Numeral.value ds))) ds rest := by
  have hstops := (runsOn_eq_false_iff.mp hrest).isDigit
  refine cutsTo_of_number false (by simp [hne]) (head?_append_digits hne hds rest) rfl ?_
  rw [number, hstops.takeWhile_append hds, hstops.dropWhile_append hds]
  dsimp only
  split
  · simp at hpoint
  · simp [hrest, hsize, sign]

-- A number with a point is cut off as a whole, and its range decides.
theorem cut_point (negative : Bool) {whole fraction rest : List Char} (hne : whole ≠ [])
    (hwhole : ∀ c ∈ whole, Numeral.isDigit c = true) (hfraction : ∀ c ∈ fraction, Numeral.isDigit c = true)
    (hrest : runsOn rest = false) :
    ∃ c cs, sign negative ++ whole ++ '.' :: fraction ++ rest = c :: cs ∧ isBlank c = false ∧
      cut c cs = ⟨sign negative ++ whole ++ '.' :: fraction, rest,
        if (Sample.ofPoint negative whole fraction).isFinite then .ok (.sample (.ofPoint negative whole fraction))
        else .error .sampleRange⟩ := by
  have hstops := (runsOn_eq_false_iff.mp hrest).isDigit
  have hpoint := stops_point (fraction ++ rest)
  obtain ⟨c, cs, rfl⟩ := List.exists_cons_of_ne_nil hne
  obtain ⟨d, ds, hfront, hblank, hcut⟩ :=
    cut_number negative (hwhole c List.mem_cons_self) (cs ++ '.' :: (fraction ++ rest))
  refine ⟨d, ds, by rw [← hfront]; simp, hblank, ?_⟩
  rw [hcut, ← List.cons_append, number_of_point negative (hpoint.dropWhile_append hwhole),
    hpoint.takeWhile_append hwhole, hstops.takeWhile_append hfraction, hstops.dropWhile_append hfraction, hrest]
  rfl

theorem cutsTo_sample (negative : Bool) {whole fraction rest : List Char} (hne : whole ≠ [])
    (hwhole : ∀ c ∈ whole, Numeral.isDigit c = true)
    (hfraction : ∀ c ∈ fraction, Numeral.isDigit c = true)
    (hfinite : (Sample.ofPoint negative whole fraction).isFinite = true)
    (hrest : runsOn rest = false) :
    CutsTo (.sample (.ofPoint negative whole fraction)) (sign negative ++ whole ++ '.' :: fraction)
      rest := by
  obtain ⟨c, cs, htext, hblank, hcut⟩ := cut_point negative hne hwhole hfraction hrest
  rw [if_pos hfinite] at hcut
  exact ⟨c, cs, htext, hblank, hcut⟩

theorem cutsTo_of_spelling {l : Lexeme} {text rest : List Char} (h : Spelling l text)
    (hapart : Apart l rest) : CutsTo l text rest := by
  cases h with
  | name h => exact cutsTo_word h.ne_nil (List.all_eq_true.mp h.lower) hapart (by simp [h.free])
  | keyword k =>
    have hne : k.text.toList ≠ [] := by cases k <;> decide
    have hlower : k.text.toList.all isLower = true := by cases k <;> decide
    exact cutsTo_word hne (List.all_eq_true.mp hlower) hapart (by simp [Keyword.ofText?_text])
  | symbol s => exact cutsTo_symbol s hapart
  | index hne hds hsize => exact cutsTo_index hne hds hsize hapart.1 hapart.2
  | sample negative hne hwhole hfraction hfinite =>
    exact cutsTo_sample negative hne hwhole hfraction hfinite hapart

theorem spelling_of_word {c : Char} {cs : List Char} {l : Lexeme} (hc : isWordStart c = true)
    (h : (word (c :: cs)).reading = .ok l) :
    Spelling l (word (c :: cs)).text ∧ Apart l (word (c :: cs)).rest := by
  have hrest := runsOn_eq_false_iff.mpr (stops_dropWhile isWordChar (c :: cs))
  have hne : (c :: cs).takeWhile isWordChar ≠ [] := by
    have hword : isWordChar c = true := by simp [isWordChar, hc]
    simp [hword]
  simp only [word] at h ⊢
  generalize (c :: cs).takeWhile isWordChar = text at h hne ⊢
  split at h
  · rename_i hlower
    rw [List.all_eq_true] at hlower
    cases hk : Keyword.ofText? (String.ofList text) with
    | some k =>
      rw [hk] at h
      cases h
      have htext : text = k.text.toList := by
        rw [← eq_text_of_ofText? hk, String.toList_ofList]
      exact ⟨htext ▸ .keyword k, hrest⟩
    | none =>
      rw [hk] at h
      cases h
      have hword : IsWord (String.ofList text) :=
        ⟨by rwa [String.toList_ofList], by rwa [String.toList_ofList, List.all_eq_true], hk⟩
      refine ⟨?_, hrest⟩
      simpa using Spelling.name hword
  · cases h

-- The digits of a number that is no piece to be refused are a spelling with their sign.
theorem spelling_of_number {negative : Bool} {c : Char} {cs : List Char} {l : Lexeme}
    (hc : Numeral.isDigit c = true) (h : (number negative (c :: cs)).reading = .ok l) :
    Spelling l (number negative (c :: cs)).text ∧ Apart l (number negative (c :: cs)).rest := by
  have hne : (c :: cs).takeWhile Numeral.isDigit ≠ [] := by simp [hc]
  have hwhole : ∀ d ∈ (c :: cs).takeWhile Numeral.isDigit, Numeral.isDigit d = true :=
    fun d hd => List.mem_takeWhile_imp hd
  unfold number at h ⊢
  dsimp only at h ⊢
  generalize (c :: cs).takeWhile Numeral.isDigit = whole at h hne hwhole ⊢
  split at h
  · -- a point follows, and the digits begin a sample
    rename_i rest hrest
    split at h
    · cases h
    · rename_i hruns
      rw [Bool.not_eq_true] at hruns
      split at h
      · rename_i hfinite
        cases h
        simp only [hruns]
        exact ⟨.sample negative hne hwhole (fun d hd => List.mem_takeWhile_imp hd) hfinite, hruns⟩
      · cases h
  · -- no point follows, and they are an index
    rename_i rest hrest
    split at h
    · cases h
    · rename_i hruns
      rw [Bool.not_eq_true, Bool.or_eq_false_iff] at hruns
      obtain ⟨rfl, hruns⟩ := hruns
      split at h
      · rename_i hsize
        cases h
        simp only [hruns]
        refine ⟨.index hne hwhole hsize, hruns, fun hpoint => ?_⟩
        simp only [Bool.or_self, Bool.false_eq_true, if_false] at hpoint
        obtain ⟨rest, hpoint⟩ := List.head?_eq_some_iff.mp hpoint
        exact hrest rest hpoint
      · cases h

theorem spelling_of_symbol {c : Char} {cs : List Char} {l : Lexeme}
    (h : (symbol c cs).reading = .ok l) :
    Spelling l (symbol c cs).text ∧ Apart l (symbol c cs).rest := by
  -- a character is a symbol by itself only where it begins none of two characters
  have hone (hnone : ∀ d ∈ cs.head?, double? c d = none) (h : (oneChar c cs).reading = .ok l) :
      Spelling l (oneChar c cs).text ∧ Apart l (oneChar c cs).rest := by
    unfold oneChar at h ⊢
    cases hs : single? c with
    | none => rw [hs] at h; cases h
    | some s =>
      rw [hs] at h
      cases h
      refine ⟨?_, (apart_single_iff hs cs).mpr hnone⟩
      rw [← (single?_cases hs).2.2.2.2]
      exact .symbol s
  unfold symbol at h ⊢
  split at h
  · exact hone (by simp) h
  · rename_i d rest
    cases hs : double? c d with
    | some s =>
      rw [hs] at h
      cases h
      simp only
      rw [← (double?_cases hs).2.2.2.2]
      refine ⟨.symbol s, ?_⟩
      unfold double? at hs
      split at hs <;> cases hs <;> trivial
    | none =>
      rw [hs] at h
      simp only at h ⊢
      split at h
      · rename_i hsign
        rw [if_pos hsign]
        rw [Bool.and_eq_true] at hsign
        exact spelling_of_number hsign.2 h
      · rename_i hsign
        rw [if_neg hsign]
        refine hone (fun e he => ?_) h
        cases he
        exact hs

theorem spelling_of_cut {c : Char} {cs : List Char} {l : Lexeme} (h : (cut c cs).reading = .ok l) :
    Spelling l (cut c cs).text ∧ Apart l (cut c cs).rest := by
  unfold cut at h ⊢
  by_cases hword : isWordStart c = true
  · rw [if_pos hword] at h ⊢
    exact spelling_of_word hword h
  · rw [if_neg hword] at h ⊢
    by_cases hdigit : Numeral.isDigit c = true
    · rw [if_pos hdigit] at h ⊢
      exact spelling_of_number hdigit h
    · rw [if_neg hdigit] at h ⊢
      exact spelling_of_symbol h

-- A text that spells lexemes is scanned to them and the end of the text.
theorem tokens_of_spells {cs : List Char} {ls : List Lexeme} (h : Spells cs ls) :
    ∀ offset, ∃ ts, tokens offset cs = .ok ts ∧ ts.map Token.lexeme = ls ++ [.done] := by
  induction h with
  | nil => exact fun offset => ⟨_, by rw [tokens], rfl⟩
  | blank hc rest ih =>
    intro offset
    rw [tokens, if_pos hc]
    exact ih (offset + 1)
  | @lexeme l text cs ls first apart rest ih =>
    intro offset
    obtain ⟨c, ds, htext, hblank, hcut⟩ := cutsTo_of_spelling first apart
    obtain ⟨ts, hts, hmap⟩ := ih (offset + utf8Length text)
    rw [htext, tokens, if_neg (by simp [hblank])]
    simp only [hcut, hts]
    exact ⟨_, rfl, by simp [hmap]⟩

theorem placed_of_tokens (offset : Nat) (cs : List Char) : ∀ {ts : List Token},
    tokens offset cs = .ok ts → Placed offset cs ts := by
  fun_induction tokens offset cs with
  | case1 offset =>
    rintro ts ⟨⟩
    exact .nil
  | case2 offset c cs hblank ih =>
    intro ts h
    exact .blank hblank (ih h)
  | case3 => rintro ts ⟨⟩
  | case4 offset c cs hblank piece stop l hreading =>
    rename_i ih
    intro ts h
    cases hrest : tokens stop piece.rest with
    | error e => rw [hrest] at h; cases h
    | ok us =>
      rw [hrest] at h
      cases h
      obtain ⟨hspelling, hapart⟩ := spelling_of_cut hreading
      rw [← cut_text_append_rest c cs]
      exact .lexeme hspelling hapart (ih hrest)

-- A text that is scanned spells what it is scanned to.
theorem spells_of_tokens (offset : Nat) (cs : List Char) {ts : List Token}
    (h : tokens offset cs = .ok ts) : ∃ ls, Spells cs ls ∧ ts.map Token.lexeme = ls ++ [.done] := by
  have hplaced := placed_of_tokens offset cs h
  clear h
  induction hplaced with
  | nil => exact ⟨[], .nil, rfl⟩
  | blank hc rest ih =>
    obtain ⟨ls, hspells, hmap⟩ := ih
    exact ⟨ls, .blank hc hspells, hmap⟩
  | @lexeme offset l text cs ts first apart rest ih =>
    obtain ⟨ls, hspells, hmap⟩ := ih
    exact ⟨l :: ls, .lexeme first apart hspells, by simp [hmap]⟩

-- Where a text stands makes no difference to its lexemes.
theorem tokens_moved {offset : Nat} {cs : List Char} {ts : List Token} (h : tokens offset cs = .ok ts)
    (place : Nat) : ∃ us, tokens place cs = .ok us ∧ us.map Token.lexeme = ts.map Token.lexeme := by
  obtain ⟨ls, hspells, hts⟩ := spells_of_tokens offset cs h
  obtain ⟨us, hus, hmap⟩ := tokens_of_spells hspells place
  exact ⟨us, hus, by rw [hmap, hts]⟩

theorem tokens_blanks {blanks rest : List Char} (hblanks : ∀ c ∈ blanks, isBlank c = true)
    (offset : Nat) : tokens offset (blanks ++ rest) = tokens (offset + blanks.length) rest := by
  induction blanks generalizing offset with
  | nil => rfl
  | cons c cs ih =>
    rw [List.cons_append, tokens, if_pos (hblanks c List.mem_cons_self),
      ih (fun d hd => hblanks d (List.mem_cons_of_mem c hd)), List.length_cons]
    congr 1
    omega

-- Behind a lexeme and blanks, a text is scanned as it is by itself.
theorem tokens_behind {l : Lexeme} {text blanks rest : List Char} (hspelling : Spelling l text)
    (hblanks : ∀ c ∈ blanks, isBlank c = true) (hapart : Apart l (blanks ++ rest)) {offset : Nat}
    {ts : List Token} (h : tokens offset (text ++ (blanks ++ rest)) = .ok ts) (place : Nat) :
    ∃ us, tokens place rest = .ok us ∧ ts.map Token.lexeme = l :: us.map Token.lexeme := by
  obtain ⟨c, cs, htext, hblank, hcut⟩ := cutsTo_of_spelling hspelling hapart
  rw [htext, tokens, if_neg (by simp [hblank])] at h
  simp only [hcut] at h
  rw [tokens_blanks hblanks] at h
  cases hrest : tokens (offset + utf8Length text + blanks.length) rest with
  | error e => rw [hrest] at h; cases h
  | ok us =>
    rw [hrest] at h
    cases h
    obtain ⟨vs, hvs, hmap⟩ := tokens_moved hrest place
    exact ⟨vs, hvs, by rw [List.map_cons, hmap]⟩

end Scan

end SampleStream
