import SampleStream.Proofs.Finite
import SampleStream.Proofs.Spelling

/-!
# The longest lexeme

A text is cut by a rule that looks at characters: a lexeme goes on as far as its class does. That rule finds
the longest lexeme at its place, and refuses a word or number that runs on (`longest_iff`). So the texts that
spell lexemes are those that are cut into longest ones (`munches_iff`).
-/

namespace SampleStream

/-- Words and numbers, which no letter, digit or underscore may follow. -/
def Lexeme.isRun : Lexeme → Bool
  | .name _ | .keyword _ | .index _ | .sample _ => true
  | .symbol _ | .done => false

/-- The text is a lexeme where `rest` follows it, and no longer piece is one. -/
structure Longest (l : Lexeme) (text rest : List Char) : Prop where
  spelling : Spelling l text
  longest : ∀ l' text' rest', text' ++ rest' = text ++ rest → Spelling l' text' →
    text'.length ≤ text.length
  ends : l.isRun = true → Scan.runsOn rest = false

/-- The text is made of blanks and of lexemes in order, each the longest at its place. -/
inductive Munches : List Char → List Lexeme → Prop
  | nil : Munches [] []
  | blank {c : Char} {cs : List Char} {ls : List Lexeme} (hc : Scan.isBlank c = true)
      (rest : Munches cs ls) : Munches (c :: cs) ls
  | lexeme {l : Lexeme} {text cs : List Char} {ls : List Lexeme} (first : Longest l text cs)
      (rest : Munches cs ls) : Munches (text ++ cs) (l :: ls)

namespace Scan

/-- The text begins with a piece that is not longer than the one that is cut off. -/
def CutsBeyond (text rest : List Char) : Prop :=
  ∃ c cs, text ++ rest = c :: cs ∧ text.length ≤ (cut c cs).text.length

theorem cutsBeyond_word {text : List Char} (hne : text ≠ []) (hlower : ∀ c ∈ text, isLower c = true)
    (rest : List Char) : CutsBeyond text rest := by
  obtain ⟨c, cs, rfl⟩ := List.exists_cons_of_ne_nil hne
  have hc : isWordStart c = true := isWordStart_of_isLower (hlower c List.mem_cons_self)
  have hword : ∀ d ∈ c :: cs, isWordChar d = true := fun d hd => isWordChar_of_isLower (hlower d hd)
  refine ⟨c, cs ++ rest, rfl, ?_⟩
  rw [cut, if_pos hc, word, ← List.cons_append, List.takeWhile_append_of_pos hword, List.length_append]
  exact Nat.le_add_right _ _

theorem cutsBeyond_symbol (s : Symbol) (rest : List Char) : CutsBeyond s.text.toList rest := by
  obtain ⟨c, htext, -⟩ | ⟨c, d, htext, hs⟩ := text_cases s
  · rw [htext]
    exact ⟨c, rest, rfl, List.length_pos_iff.mpr (cut_text_ne_nil c rest)⟩
  · obtain ⟨-, hword, hdigit, -, -⟩ := double?_cases hs
    rw [htext]
    refine ⟨c, d :: rest, rfl, ?_⟩
    rw [cut, if_neg (by simp [hword]), if_neg (by simp [hdigit]), symbol]
    simp only [hs]
    exact Nat.le_refl 2

-- The text of a number has its sign and all of its digits, and behind a point the digits there.
theorem le_length_number (negative : Bool) (cs : List Char) :
    (cs.takeWhile Numeral.isDigit).length ≤ (number negative cs).text.length ∧
      ∀ rest, cs.dropWhile Numeral.isDigit = '.' :: rest →
        (sign negative).length + (cs.takeWhile Numeral.isDigit).length + 1 +
          (rest.takeWhile Numeral.isDigit).length ≤ (number negative cs).text.length := by
  unfold number
  dsimp only
  generalize cs.takeWhile Numeral.isDigit = whole
  split
  · rename_i rest hrest
    have hsame {other : List Char} (hother : cs.dropWhile Numeral.isDigit = '.' :: other) : other = rest :=
      List.tail_eq_of_cons_eq (hother.symm.trans hrest)
    split
    · constructor
      · simp only [refused, List.length_append]
        omega
      · intro other hother
        simp only [hsame hother, refused, List.length_append, List.length_cons]
        omega
    · constructor
      · simp only [List.length_append]
        omega
      · intro other hother
        simp only [hsame hother, List.length_append, List.length_cons]
        omega
  · rename_i hpoint
    constructor
    · split
      · simp only [refused, List.length_append]
        omega
      · simp only [List.length_append]
        omega
    · exact fun rest hrest => absurd hrest (hpoint rest)

theorem cutsBeyond_of_number (negative : Bool) {text rest cs : List Char} (hne : cs ≠ [])
    (hdigit : ∀ c ∈ cs.head?, Numeral.isDigit c = true) (htext : text ++ rest = sign negative ++ cs)
    (h : text.length ≤ (number negative cs).text.length) : CutsBeyond text rest := by
  obtain ⟨c, cs, rfl⟩ := List.exists_cons_of_ne_nil hne
  obtain ⟨d, ds, hfront, -, hcut⟩ := cut_number negative (hdigit c rfl) cs
  exact ⟨d, ds, htext.trans hfront, by rwa [hcut]⟩

theorem cutsBeyond_index {ds : List Char} (hne : ds ≠ []) (hds : ∀ c ∈ ds, Numeral.isDigit c = true)
    (rest : List Char) : CutsBeyond ds rest := by
  refine cutsBeyond_of_number false (by simp [hne]) (head?_append_digits hne hds rest) rfl ?_
  have hlength := (le_length_number false (ds ++ rest)).1
  rw [List.takeWhile_append_of_pos hds, List.length_append] at hlength
  omega

theorem cutsBeyond_sample (negative : Bool) {whole fraction : List Char} (hne : whole ≠ [])
    (hwhole : ∀ c ∈ whole, Numeral.isDigit c = true)
    (hfraction : ∀ c ∈ fraction, Numeral.isDigit c = true) (rest : List Char) :
    CutsBeyond (sign negative ++ whole ++ '.' :: fraction) rest := by
  have hpoint := stops_point (fraction ++ rest)
  have htext : sign negative ++ whole ++ '.' :: fraction ++ rest =
      sign negative ++ (whole ++ '.' :: (fraction ++ rest)) := by simp
  refine cutsBeyond_of_number negative (by simp) (head?_append_digits hne hwhole _) htext ?_
  have hlength := (le_length_number negative _).2 _ (hpoint.dropWhile_append hwhole)
  rw [hpoint.takeWhile_append hwhole, List.takeWhile_append_of_pos hfraction, List.length_append] at hlength
  simp only [List.length_append, List.length_cons]
  omega

-- No lexeme is longer than the piece that is cut off.
theorem cutsBeyond_of_spelling {l : Lexeme} {text : List Char} (h : Spelling l text) (rest : List Char) :
    CutsBeyond text rest := by
  cases h with
  | name h => exact cutsBeyond_word h.ne_nil (List.all_eq_true.mp h.lower) rest
  | keyword k =>
    have hne : k.text.toList ≠ [] := by cases k <;> decide
    have hlower : k.text.toList.all isLower = true := by cases k <;> decide
    exact cutsBeyond_word hne (List.all_eq_true.mp hlower) rest
  | symbol s => exact cutsBeyond_symbol s rest
  | index hne hds hsize => exact cutsBeyond_index hne hds rest
  | sample negative hne hwhole hfraction hfinite =>
    exact cutsBeyond_sample negative hne hwhole hfraction rest

end Scan

-- An index that a point follows is the beginning of a longer sample, which is finite since the index is
-- far below the largest sample.
theorem spelling_index_point {ds : List Char} (hne : ds ≠ []) (hds : ∀ c ∈ ds, Numeral.isDigit c = true)
    (hsize : Numeral.value ds < UInt64.size) :
    Spelling (.sample (.ofPoint false ds [])) (ds ++ ['.']) := by
  refine Spelling.sample false hne hds nofun ?_
  rw [Sample.isFinite_ofPoint_iff, List.append_nil]
  exact Nat.lt_of_lt_of_le hsize (by decide)

theorem apart_of_longest {l : Lexeme} {text rest : List Char} (h : Longest l text rest) : Apart l rest := by
  obtain ⟨hspelling, hlongest, hends⟩ := h
  cases hspelling with
  | name h => exact hends rfl
  | keyword k => exact hends rfl
  | sample negative hne hwhole hfraction hfinite => exact hends rfl
  | index hne hds hsize =>
    refine ⟨hends rfl, fun hpoint => ?_⟩
    obtain ⟨tail, rfl⟩ := List.head?_eq_some_iff.mp hpoint
    have hle := hlongest _ _ tail (by simp) (spelling_index_point hne hds hsize)
    rw [List.length_append, List.length_singleton] at hle
    omega
  | symbol s =>
    obtain ⟨c, htext, hs⟩ | ⟨c, d, htext, hs⟩ := Scan.text_cases s
    · -- two characters that make a symbol are longer than the first
      rw [Scan.apart_single_iff hs]
      intro d hd
      obtain ⟨tail, rfl⟩ := List.head?_eq_some_iff.mp hd
      cases hdouble : Scan.double? c d with
      | none => rfl
      | some t =>
        have hpair := (Scan.double?_cases hdouble).2.2.2.2
        have hle := hlongest _ _ tail (by rw [hpair, htext]; rfl) (.symbol t)
        rw [hpair, htext] at hle
        exact absurd hle (Nat.not_succ_le_self 1)
    · rw [Scan.apart_symbol_iff]
      have hlength : s.text.toList.length = 2 := by rw [htext]; rfl
      constructor
      · rintro rfl
        exact absurd hlength (by decide)
      · rintro rfl
        exact absurd hlength (by decide)

theorem longest_iff {l : Lexeme} {text rest : List Char} :
    Longest l text rest ↔ Spelling l text ∧ Apart l rest := by
  refine ⟨fun h => ⟨h.spelling, apart_of_longest h⟩, fun ⟨hspelling, hapart⟩ => ⟨hspelling, ?_, ?_⟩⟩
  · intro l' text' rest' htext h'
    obtain ⟨c, cs, hfront, -, hcut⟩ := Scan.cutsTo_of_spelling hspelling hapart
    obtain ⟨c', cs', hfront', hle⟩ := Scan.cutsBeyond_of_spelling h' rest'
    rw [htext, hfront] at hfront'
    cases hfront'
    rwa [hcut] at hle
  · intro hrun
    cases l with
    | index value => exact hapart.1
    | symbol s => cases hrun
    | done => cases hrun
    | _ => exact hapart

theorem munches_iff {cs : List Char} {ls : List Lexeme} : Munches cs ls ↔ Spells cs ls := by
  constructor
  · intro h
    induction h with
    | nil => exact .nil
    | blank hc rest ih => exact .blank hc ih
    | lexeme first rest ih => exact .lexeme first.spelling (apart_of_longest first) ih
  · intro h
    induction h with
    | nil => exact .nil
    | blank hc rest ih => exact .blank hc ih
    | lexeme first apart rest ih => exact .lexeme (longest_iff.mpr ⟨first, apart⟩) ih

end SampleStream
