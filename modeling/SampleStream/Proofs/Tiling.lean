import SampleStream.Proofs.Longest

/-!
# Tokens and their places

A source text is scanned if it is made of blanks and of longest lexemes, and then its tokens are these
lexemes, laid over the text from left to right: the spans cover all of it but the blanks, and what a span
covers is scanned to the same lexeme by itself (`tokenize_tiles`).
-/

namespace SampleStream

@[simp] theorem utf8Length_append (cs ds : List Char) :
    utf8Length (cs ++ ds) = utf8Length cs + utf8Length ds := by
  induction cs with
  | nil => simp [utf8Length]
  | cons c cs ih => simp [utf8Length, ih, Nat.add_assoc]

theorem utf8Length_pos {cs : List Char} (h : cs ≠ []) : 0 < utf8Length cs := by
  obtain ⟨c, cs, rfl⟩ := List.exists_cons_of_ne_nil h
  exact Nat.add_pos_left c.utf8Size_pos _

theorem utf8ByteSize_ofList (cs : List Char) : (String.ofList cs).utf8ByteSize = utf8Length cs := by
  induction cs with
  | nil => rfl
  | cons c cs ih =>
    rw [String.ofList_cons, String.utf8ByteSize_append, String.utf8ByteSize_singleton, ih, utf8Length]

theorem utf8Length_toList (s : String) : utf8Length s.toList = s.utf8ByteSize := by
  rw [← utf8ByteSize_ofList, String.ofList_toList]

-- A cut behind a whole run of characters falls between two of them.
theorem takeBytes?_append (before rest : List Char) :
    takeBytes? (utf8Length before) (before ++ rest) = some before := by
  induction before with
  | nil => exact takeBytes?.eq_1 rest
  | cons c cs ih =>
    obtain ⟨n, hn⟩ : ∃ n, c.utf8Size + utf8Length cs = n + 1 :=
      Nat.exists_eq_add_one.mpr (Nat.add_pos_left c.utf8Size_pos _)
    have hrest : n + 1 - c.utf8Size = utf8Length cs := by omega
    rw [utf8Length, hn, List.cons_append, takeBytes?, if_pos (by omega), hrest, ih]
    rfl

namespace Span

/-- The characters between the ends of the span; none when an end falls inside a character. -/
def slice? (s : Span) (source : List Char) : Option (List Char) := do
  let before ← takeBytes? s.start source
  let upTo ← takeBytes? s.stop source
  some (upTo.drop before.length)

theorem slice?_append (before text after : List Char) :
    slice? ⟨utf8Length before, utf8Length before + utf8Length text⟩ (before ++ text ++ after) =
      some text := by
  have hstart : takeBytes? (utf8Length before) (before ++ text ++ after) = some before := by
    rw [List.append_assoc]
    exact takeBytes?_append before (text ++ after)
  have hstop : takeBytes? (utf8Length before + utf8Length text) (before ++ text ++ after) =
      some (before ++ text) := by
    rw [← utf8Length_append]
    exact takeBytes?_append (before ++ text) after
  rw [slice?, hstart, hstop]
  simp

end Span

theorem utf8Size_of_isBlank {c : Char} (h : Scan.isBlank c = true) : c.utf8Size = 1 := by
  simp only [Scan.isBlank, Bool.or_eq_true, beq_iff_eq] at h
  rcases h with (((rfl | rfl) | rfl) | rfl) | rfl <;> rfl

theorem Symbol.isBlank_of_mem_text (s : Symbol) :
    ∀ c ∈ s.text.toList, Scan.isBlank c = false := by
  have hall : s.text.toList.all (fun c => !Scan.isBlank c) = true := by cases s <;> decide
  simpa using hall

theorem Spelling.ne_nil {l : Lexeme} {text : List Char} (h : Spelling l text) : text ≠ [] := by
  cases h with
  | name h => exact h.ne_nil
  | keyword k => cases k <;> decide
  | symbol s => cases s <;> decide
  | index hne hds hsize => exact hne
  | sample negative hne hwhole hfraction hfinite => simp

theorem Spelling.ne_done {l : Lexeme} {text : List Char} (h : Spelling l text) : l ≠ .done := by
  cases h <;> nofun

-- A blank is part of no lexeme.
theorem Spelling.isBlank_of_mem {l : Lexeme} {text : List Char} (h : Spelling l text) :
    ∀ c ∈ text, Scan.isBlank c = false := by
  have hlower {text : List Char} (h : text.all Scan.isLower = true) : ∀ c ∈ text, Scan.isBlank c = false :=
    fun c hc => Scan.isBlank_of_isWordStart (Scan.isWordStart_of_isLower (List.all_eq_true.mp h c hc))
  have hdigits {ds : List Char} (h : ∀ c ∈ ds, Numeral.isDigit c = true) :
      ∀ c ∈ ds, Scan.isBlank c = false :=
    fun c hc => Scan.isBlank_of_isDigit (h c hc)
  cases h with
  | name h => exact hlower h.lower
  | keyword k => exact hlower (by cases k <;> decide)
  | symbol s => exact s.isBlank_of_mem_text
  | index hne hds hsize => exact hdigits hds
  | sample negative hne hwhole hfraction hfinite =>
    intro c hc
    rw [List.mem_append, List.mem_append, List.mem_cons] at hc
    obtain (hc | hc) | rfl | hc := hc
    · cases negative with
      | false => cases hc
      | true =>
        cases List.mem_singleton.mp hc
        decide
    · exact hdigits hwhole c hc
    · decide
    · exact hdigits hfraction c hc

theorem apart_nil (l : Lexeme) : Apart l [] := by
  cases l with
  | symbol s => exact (Scan.apart_symbol_iff s []).mpr ⟨fun _ => nofun, fun _ => nofun⟩
  | index value => exact ⟨rfl, nofun⟩
  | done => trivial
  | _ => rfl

-- What spells a lexeme is scanned to it by itself.
theorem tokenize_of_spelling {l : Lexeme} {text : List Char} (h : Spelling l text) :
    ∃ ts, tokenize (.ofList text) = .ok ts ∧ ts.map Token.lexeme = [l, .done] := by
  have hspells : Spells (text ++ []) [l] := .lexeme h (apart_nil l) .nil
  rw [List.append_nil, ← String.toList_ofList (l := text)] at hspells
  exact Scan.tokens_of_spells hspells 0

namespace Placed

variable {offset : Nat} {cs : List Char} {ts : List Token}

theorem bounds (h : Placed offset cs ts) : ∀ t ∈ ts,
    offset ≤ t.span.start ∧ t.span.start ≤ t.span.stop ∧ t.span.stop ≤ offset + utf8Length cs := by
  induction h with
  | nil =>
    intro t ht
    cases List.mem_singleton.mp ht
    exact ⟨Nat.le_refl _, Nat.le_refl _, Nat.le_refl _⟩
  | blank hc rest ih =>
    intro t ht
    have hrest := ih t ht
    rw [utf8Length, utf8Size_of_isBlank hc]
    omega
  | lexeme first apart rest ih =>
    intro t ht
    rw [utf8Length_append]
    obtain rfl | ht := List.mem_cons.mp ht
    · dsimp only
      omega
    · have hrest := ih t ht
      omega

theorem ordered (h : Placed offset cs ts) : ts.Pairwise fun t u => t.span.stop ≤ u.span.start := by
  induction h with
  | nil => exact List.pairwise_singleton _ _
  | blank hc rest ih => exact ih
  | lexeme first apart rest ih =>
    rw [List.pairwise_cons]
    exact ⟨fun u hu => (rest.bounds u hu).1, ih⟩

theorem last (h : Placed offset cs ts) : ∃ before,
    ts = before ++ [⟨.done, .point (offset + utf8Length cs)⟩] ∧ ∀ t ∈ before, t.lexeme ≠ .done := by
  induction h with
  | nil => exact ⟨[], rfl, nofun⟩
  | @blank offset c cs ts hc rest ih =>
    obtain ⟨before, rfl, hbefore⟩ := ih
    have hplace : offset + utf8Length (c :: cs) = offset + 1 + utf8Length cs := by
      rw [utf8Length, utf8Size_of_isBlank hc]
      omega
    exact ⟨before, by rw [hplace], hbefore⟩
  | @lexeme offset l text cs ts first apart rest ih =>
    obtain ⟨before, rfl, hbefore⟩ := ih
    refine ⟨⟨l, ⟨offset, offset + utf8Length text⟩⟩ :: before, ?_, ?_⟩
    · rw [utf8Length_append, Nat.add_assoc, List.cons_append]
    · intro t ht
      obtain rfl | ht := List.mem_cons.mp ht
      · exact first.ne_done
      · exact hbefore t ht

theorem spelled (h : Placed offset cs ts) : ∀ t ∈ ts, t.lexeme ≠ .done →
    ∃ before text after, cs = before ++ text ++ after ∧ Spelling t.lexeme text ∧
      t.span = ⟨offset + utf8Length before, offset + utf8Length before + utf8Length text⟩ := by
  induction h with
  | nil =>
    intro t ht hdone
    cases List.mem_singleton.mp ht
    exact absurd rfl hdone
  | @blank offset c cs ts hc rest ih =>
    intro t ht hdone
    obtain ⟨before, text, after, rfl, hspelling, hspan⟩ := ih t ht hdone
    refine ⟨c :: before, text, after, rfl, hspelling, ?_⟩
    rw [hspan, utf8Length, utf8Size_of_isBlank hc, Nat.add_assoc]
  | @lexeme offset l text cs ts first apart rest ih =>
    intro t ht hdone
    obtain rfl | ht := List.mem_cons.mp ht
    · exact ⟨[], text, cs, rfl, first, rfl⟩
    · obtain ⟨before, text', after, rfl, hspelling, hspan⟩ := ih t ht hdone
      refine ⟨text ++ before, text', after, by simp, hspelling, ?_⟩
      rw [hspan, utf8Length_append, Nat.add_assoc offset]

-- A character is covered by a token if it is no blank: the spans of the tokens behind it begin later, and
-- those in front of it have ended.
theorem covered_iff (h : Placed offset cs ts) : ∀ before c after, cs = before ++ c :: after →
    ((∃ t ∈ ts, t.span.start ≤ offset + utf8Length before ∧ offset + utf8Length before < t.span.stop) ↔
      Scan.isBlank c = false) := by
  induction h with
  | nil =>
    intro before c after hcs
    simp at hcs
  | @blank offset d cs ts hd rest ih =>
    intro before c after hcs
    cases before with
    | nil =>
      cases hcs
      rw [hd]
      constructor
      · rintro ⟨t, ht, hstart, -⟩
        have hbound := (rest.bounds t ht).1
        rw [utf8Length] at hstart
        omega
      · nofun
    | cons e before =>
      cases hcs
      rw [utf8Length, utf8Size_of_isBlank hd, ← Nat.add_assoc]
      exact ih before c after rfl
  | @lexeme offset l text cs ts first apart rest ih =>
    intro before c after hcs
    simp only [List.mem_cons, exists_eq_or_imp]
    obtain ⟨behind, rfl, hrest⟩ | ⟨front, rfl, hrest⟩ := List.append_eq_append_iff.mp hcs
    · -- the character stands behind the first lexeme
      rw [utf8Length_append, ← Nat.add_assoc, ← ih behind c after hrest]
      simp only [or_iff_right_iff_imp]
      rintro ⟨-, hstop⟩
      omega
    · cases front with
      | nil =>
        rw [List.append_nil]
        have hbehind := ih [] c after hrest.symm
        rw [List.append_nil, utf8Length, Nat.add_zero] at hbehind
        rw [← hbehind]
        simp only [or_iff_right_iff_imp]
        rintro ⟨-, hstop⟩
        omega
      | cons d front =>
        cases hrest
        have hblank := first.isBlank_of_mem c (by simp)
        have hsize := c.utf8Size_pos
        simp only [hblank, iff_true]
        refine .inl ⟨Nat.le_add_right _ _, ?_⟩
        rw [utf8Length_append, utf8Length]
        omega

end Placed

/-- What the span of the token covers is scanned to the token's lexeme by itself. It spells the lexeme, an
index by its value; the end covers nothing. -/
def Token.StandsAlone (t : Token) (source : List Char) : Prop :=
  ∃ text us, t.span.slice? source = some text ∧ tokenize (.ofList text) = .ok us ∧
    if t.lexeme = .done then us.map Token.lexeme = [.done]
    else us.map Token.lexeme = [t.lexeme, .done] ∧ Spelling t.lexeme text ∧
      ∀ n, t.lexeme = .index n → n.toNat = Numeral.value text

/-- The tokens are the lexemes that the source is cut into, and their spans tile it. -/
structure Tiles (source : String) (ts : List Token) : Prop where
  /-- the only longest lexemes that the source is made of are those of the tokens, in order -/
  lexemes : ∀ ls, Munches source.toList ls ↔ ts.map Token.lexeme = ls ++ [.done]
  /-- the last token is the end of the source, and no other one is an end -/
  last : ∃ before, ts = before ++ [⟨.done, .point source.utf8ByteSize⟩] ∧ ∀ t ∈ before, t.lexeme ≠ .done
  inside : ∀ t ∈ ts, t.span.start ≤ t.span.stop ∧ t.span.stop ≤ source.utf8ByteSize
  nonempty : ∀ t ∈ ts, t.lexeme ≠ .done → t.span.start < t.span.stop
  ordered : ts.Pairwise fun t u => t.span.stop ≤ u.span.start
  /-- a character of the source is covered by a span, or it is a blank -/
  covered : ∀ before c after, source.toList = before ++ c :: after →
    ((∃ t ∈ ts, t.span.start ≤ utf8Length before ∧ utf8Length before < t.span.stop) ↔
      Scan.isBlank c = false)
  alone : ∀ t ∈ ts, t.StandsAlone source.toList

theorem Spelling.toNat_index {n : UInt64} {text : List Char} (h : Spelling (.index n) text) :
    n.toNat = Numeral.value text := by
  cases h with
  | index hne hds hsize => exact UInt64.toNat_ofNat_of_lt' hsize

theorem exists_munches_of_tokenize {source : String} {ts : List Token} (h : tokenize source = .ok ts) :
    ∃ ls, Munches source.toList ls ∧ ts.map Token.lexeme = ls ++ [.done] := by
  obtain ⟨ls, hspells, hmap⟩ := Scan.spells_of_tokens 0 source.toList h
  exact ⟨ls, munches_iff.mpr hspells, hmap⟩

theorem tokenize_of_munches {source : String} {ls : List Lexeme} (h : Munches source.toList ls) :
    ∃ ts, tokenize source = .ok ts ∧ ts.map Token.lexeme = ls ++ [.done] :=
  Scan.tokens_of_spells (munches_iff.mp h) 0

theorem Placed.alone {source : List Char} {ts : List Token} (h : Placed 0 source ts) :
    ∀ t ∈ ts, t.StandsAlone source := by
  intro t ht
  by_cases hdone : t.lexeme = .done
  · obtain ⟨before, hts, hbefore⟩ := h.last
    have hend : t = ⟨.done, .point (0 + utf8Length source)⟩ := by
      rw [hts, List.mem_append, List.mem_singleton] at ht
      exact ht.resolve_left fun ht => hbefore t ht hdone
    have hslice := Span.slice?_append source [] []
    refine ⟨[], [⟨.done, .point 0⟩], ?_, ?_, ?_⟩
    · simpa [hend, Span.point, utf8Length] using hslice
    · exact Scan.tokens.eq_1 0
    · rw [if_pos hdone]
      rfl
  · obtain ⟨before, text, after, rfl, hspelling, hspan⟩ := h.spelled t ht hdone
    obtain ⟨us, hus, hmap⟩ := tokenize_of_spelling hspelling
    refine ⟨text, us, ?_, hus, ?_⟩
    · rw [hspan, Nat.zero_add]
      exact Span.slice?_append before text after
    · rw [if_neg hdone]
      exact ⟨hmap, hspelling, fun n hn => (hn ▸ hspelling).toNat_index⟩

/-- A source text is scanned exactly if it is cut into blanks and longest lexemes, where no word and no number
runs on. Its tokens are then these lexemes, at places that tile the text. -/
theorem tokenize_tiles (source : String) :
    ((∃ ts, tokenize source = .ok ts) ↔ ∃ ls, Munches source.toList ls) ∧
      ∀ ts, tokenize source = .ok ts → Tiles source ts := by
  constructor
  · constructor
    · rintro ⟨ts, h⟩
      obtain ⟨ls, hmunches, -⟩ := exists_munches_of_tokenize h
      exact ⟨ls, hmunches⟩
    · rintro ⟨ls, h⟩
      obtain ⟨ts, hts, -⟩ := tokenize_of_munches h
      exact ⟨ts, hts⟩
  · intro ts h
    have hplaced : Placed 0 source.toList ts := Scan.placed_of_tokens 0 source.toList h
    refine ⟨fun ls => ⟨fun hmunches => ?_, fun hmap => ?_⟩, ?_, fun t ht => ?_, fun t ht hdone => ?_,
      hplaced.ordered, fun before c after hsource => ?_, hplaced.alone⟩
    · obtain ⟨us, hus, hmap⟩ := tokenize_of_munches hmunches
      rw [h] at hus
      cases hus
      exact hmap
    · obtain ⟨ms, hmunches, hms⟩ := exists_munches_of_tokenize h
      obtain rfl : ms = ls := List.append_cancel_right (hms.symm.trans hmap)
      exact hmunches
    · rw [← utf8Length_toList, ← Nat.zero_add (utf8Length source.toList)]
      exact hplaced.last
    · rw [← utf8Length_toList, ← Nat.zero_add (utf8Length source.toList)]
      exact (hplaced.bounds t ht).2
    · obtain ⟨before, text, after, -, hspelling, hspan⟩ := hplaced.spelled t ht hdone
      rw [hspan]
      exact Nat.lt_add_of_pos_right (utf8Length_pos hspelling.ne_nil)
    · rw [← hplaced.covered_iff before c after hsource, Nat.zero_add]

theorem tokenize_tiles_dense : ∃ ts, tokenize "::: =>-1.5.2 007" = .ok ts ∧
    ts.map Token.lexeme = [.symbol .colonColon, .symbol .colon, .symbol .fatArrow,
      .sample (.ofPoint true ['1'] ['5']), .symbol .dot, .index 2, .index 7, .done] ∧
    Tiles "::: =>-1.5.2 007" ts := by
  have hsample : Spelling (.sample (.ofPoint true ['1'] ['5'])) ['-', '1', '.', '5'] :=
    .sample true (List.cons_ne_nil '1' []) (List.all_eq_true.mp rfl) (List.all_eq_true.mp rfl)
      (by decide +kernel)
  have htwo : Spelling (.index 2) ['2'] :=
    .index (List.cons_ne_nil '2' []) (List.all_eq_true.mp rfl) (by decide)
  have hseven : Spelling (.index 7) ['0', '0', '7'] :=
    .index (List.cons_ne_nil '0' ['0', '7']) (List.all_eq_true.mp rfl) (by decide)
  have hspells : Spells "::: =>-1.5.2 007".toList [.symbol .colonColon, .symbol .colon, .symbol .fatArrow,
      .sample (.ofPoint true ['1'] ['5']), .symbol .dot, .index 2, .index 7] :=
    .lexeme (.symbol .colonColon) trivial <| .lexeme (.symbol .colon) nofun <| .blank rfl <|
      .lexeme (.symbol .fatArrow) trivial <| .lexeme hsample rfl <| .lexeme (.symbol .dot) trivial <|
      .lexeme htwo ⟨rfl, nofun⟩ <| .blank rfl <| .lexeme hseven ⟨rfl, nofun⟩ .nil
  obtain ⟨ts, hts, hmap⟩ := tokenize_of_munches (munches_iff.mpr hspells)
  exact ⟨ts, hts, hmap, (tokenize_tiles _).2 ts hts⟩

end SampleStream
