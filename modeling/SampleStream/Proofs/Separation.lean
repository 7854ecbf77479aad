import SampleStream.Proofs.Reprinting
import SampleStream.Proofs.Tiling

/-!
# Blanks separate

What stands in front of blanks is scanned as if the text ended there, and what stands behind them as if it began
there. What breaks words off may follow any text and its last piece stays what it is (`cut_append`), so that the
scan goes on with what follows (`tokens_append`). Its tokens depend on where it begins in their places only
(`tokens_add`).
-/

namespace SampleStream

variable {ds : List Char}

namespace Scan

variable {p : Char → Bool}

-- A run ends at the latest where a text begins that stops it.
theorem Stops.takeWhile_front (h : Stops p ds) (cs : List Char) :
    (cs ++ ds).takeWhile p = cs.takeWhile p := by
  induction cs with
  | nil => exact h.takeWhile_append (List.forall_mem_nil _)
  | cons c cs ih => rw [List.cons_append, List.takeWhile_cons, List.takeWhile_cons, ih]

theorem Stops.dropWhile_front (h : Stops p ds) (cs : List Char) :
    (cs ++ ds).dropWhile p = cs.dropWhile p ++ ds := by
  induction cs with
  | nil => exact h.dropWhile_append (List.forall_mem_nil _)
  | cons c cs ih =>
    rw [List.cons_append, List.dropWhile_cons, List.dropWhile_cons, ih]
    split <;> rfl

/-- The cut where more text follows. -/
def Cut.followed (piece : Cut) (ds : List Char) : Cut :=
  { piece with rest := piece.rest ++ ds }

theorem runsOn_append (h : Stops isWordChar ds) (cs : List Char) : runsOn (cs ++ ds) = runsOn cs := by
  cases cs with
  | nil => exact runsOn_eq_false_iff.mpr h
  | cons c cs => rfl

theorem word_append (h : Stops isWordChar ds) (cs : List Char) : word (cs ++ ds) = (word cs).followed ds := by
  unfold word Cut.followed
  rw [h.takeWhile_front, h.dropWhile_front]

theorem refused_append (h : Stops isWordChar ds) (text rest : List Char) :
    refused text (rest ++ ds) = (refused text rest).followed ds := by
  unfold refused Cut.followed
  rw [h.takeWhile_front, h.dropWhile_front]

theorem number_append (h : Breaks ds) (negative : Bool) (cs : List Char) :
    number negative (cs ++ ds) = (number negative cs).followed ds := by
  have hstops := h.stops
  have hdigits := hstops.isDigit
  by_cases hpoint : (cs.dropWhile Numeral.isDigit).head? = some '.'
  · obtain ⟨rest, hrest⟩ := List.head?_eq_some_iff.mp hpoint
    have hmore : (cs ++ ds).dropWhile Numeral.isDigit = '.' :: (rest ++ ds) := by
      rw [hdigits.dropWhile_front, hrest, List.cons_append]
    rw [number_of_point negative hrest, number_of_point negative hmore]
    rw [hdigits.takeWhile_front, hdigits.takeWhile_front, hdigits.dropWhile_front, runsOn_append hstops]
    split
    · exact refused_append hstops _ _
    · rfl
  · have hmore : ((cs ++ ds).dropWhile Numeral.isDigit).head? ≠ some '.' := by
      rw [hdigits.dropWhile_front, List.head?_append]
      cases hhead : (cs.dropWhile Numeral.isDigit).head? with
      | none => exact h.head?_ne (by decide)
      | some c => rwa [hhead] at hpoint
    rw [number_of_no_point negative hpoint, number_of_no_point negative hmore]
    rw [hdigits.takeWhile_front, hdigits.dropWhile_front, runsOn_append hstops]
    split
    · exact refused_append hstops _ _
    · rfl

theorem symbol_append (h : Breaks ds) (c : Char) (cs : List Char) :
    symbol c (cs ++ ds) = (symbol c cs).followed ds := by
  cases cs with
  | cons d rest =>
    rw [List.cons_append, symbol, symbol]
    split
    · rfl
    · split
      · exact number_append h true (d :: rest)
      · rfl
  | nil =>
    rw [List.nil_append]
    cases ds with
    | nil => rfl
    | cons d ds =>
      have hdouble : double? c d = none := by
        unfold double?
        split
        · exact absurd rfl (h.head?_ne (c := '>') (by decide))
        · exact absurd rfl (h.head?_ne (c := ':') (by decide))
        · exact absurd rfl (h.head?_ne (c := '>') (by decide))
        · rfl
      have hdigit : Numeral.isDigit d = false := h.stops.isDigit d rfl
      simp [symbol, hdouble, hdigit, oneChar, Cut.followed]

/-- What breaks the text off makes no difference to the piece in front. -/
theorem cut_append (h : Breaks ds) (c : Char) (cs : List Char) :
    cut c (cs ++ ds) = (cut c cs).followed ds := by
  unfold cut
  split
  · exact word_append h.stops (c :: cs)
  · split
    · exact number_append h false (c :: cs)
    · exact symbol_append h c cs

end Scan

namespace Span

/-- The span that begins and ends so many bytes later. -/
def moved (n : Nat) (s : Span) : Span :=
  ⟨n + s.start, n + s.stop⟩

end Span

def Token.moved (n : Nat) (t : Token) : Token :=
  { t with span := t.span.moved n }

def SyntaxError.moved (n : Nat) (e : SyntaxError) : SyntaxError :=
  { e with span := e.span.moved n }

namespace Scan

/-- What comes of the scan of a text that begins so many bytes later. -/
def moved (n : Nat) : Except SyntaxError (List Token) → Except SyntaxError (List Token)
  | .error e => .error (e.moved n)
  | .ok ts => .ok (ts.map (Token.moved n))

theorem moved_map_cons (n : Nat) (t : Token) (r : Except SyntaxError (List Token)) :
    moved n (r.map (t :: ·)) = (moved n r).map (t.moved n :: ·) := by
  cases r <;> rfl

-- Where a text begins makes no difference but to the places.
theorem tokens_add (n offset : Nat) (cs : List Char) : tokens (n + offset) cs = moved n (tokens offset cs) := by
  fun_induction tokens offset cs with
  | case1 offset =>
    rw [tokens]
    rfl
  | case2 offset c cs hblank ih => rw [tokens_of_blank hblank, Nat.add_assoc, ih]
  | case3 offset c cs hblank piece stop flaw hreading =>
    rw [tokens_of_flaw hblank hreading, Nat.add_assoc]
    rfl
  | case4 offset c cs hblank piece stop l hreading ih =>
    rw [tokens_of_lexeme hblank hreading, Nat.add_assoc, ih, moved_map_cons]
    rfl

-- Where a text is broken off, the scan goes on with what breaks it off, unless it has failed before.
theorem tokens_append {ds : List Char} (h : Breaks ds) (offset : Nat) (cs : List Char) :
    tokens offset (cs ++ ds) = match tokens offset cs with
      | .error e => .error e
      | .ok ts => (tokens (offset + utf8Length cs) ds).map (ts.dropLast ++ ·) := by
  fun_induction tokens offset cs with
  | case1 offset =>
    simp only [List.nil_append, utf8Length, Nat.add_zero]
    cases tokens offset ds <;> rfl
  | case2 offset c cs hblank ih =>
    rw [List.cons_append, tokens_of_blank hblank, ih, utf8Length, utf8Size_of_isBlank hblank, Nat.add_assoc]
  | case3 offset c cs hblank piece stop flaw hreading =>
    have hcut := cut_append h c cs
    have hrefused : (cut c (cs ++ ds)).reading = .error flaw := by
      rw [hcut]
      exact hreading
    rw [List.cons_append, tokens_of_flaw hblank hrefused, hcut]
    rfl
  | case4 offset c cs hblank piece stop l hreading ih =>
    have hcut := cut_append h c cs
    have hlength : stop + utf8Length piece.rest = offset + utf8Length (c :: cs) := by
      rw [← cut_text_append_rest c cs, utf8Length_append, ← Nat.add_assoc]
    have hread : (cut c (cs ++ ds)).reading = .ok l := by
      rw [hcut]
      exact hreading
    rw [List.cons_append, tokens_of_lexeme hblank hread, hcut]
    change (tokens stop (piece.rest ++ ds)).map _ = _
    rw [ih, hlength]
    cases hrest : tokens stop piece.rest with
    | error e => rfl
    | ok us =>
      obtain ⟨before, rfl, -⟩ := (placed_of_tokens stop piece.rest hrest).last
      cases tokens (offset + utf8Length (c :: cs)) ds with
      | error e => rfl
      | ok vs =>
        change Except.ok (_ :: ((before ++ [_]).dropLast ++ vs)) = Except.ok (((_ :: before) ++ [_]).dropLast ++ vs)
        rw [List.dropLast_concat, List.dropLast_concat]
        rfl

theorem utf8Length_blanks {cs : List Char} (h : ∀ c ∈ cs, isBlank c = true) : utf8Length cs = cs.length := by
  induction cs with
  | nil => rfl
  | cons c cs ih =>
    rw [List.forall_mem_cons] at h
    rw [utf8Length, utf8Size_of_isBlank h.1, ih h.2, List.length_cons, Nat.add_comm]

end Scan

/-- Blanks, at least one of them. -/
structure IsGap (w : String) : Prop where
  ne_nil : w.toList ≠ []
  blanks : ∀ c ∈ w.toList, Scan.isBlank c = true

theorem tokenize_gap (a b : String) {w : String} (h : IsGap w) :
    tokenize (a ++ w ++ b) = match tokenize a with
      | .error e => .error e
      | .ok ts => match tokenize b with
        | .error e => .error (e.moved (a ++ w).utf8ByteSize)
        | .ok us => .ok (ts.dropLast ++ us.map (Token.moved (a ++ w).utf8ByteSize)) := by
  obtain ⟨c, cs, hw⟩ := List.exists_cons_of_ne_nil h.ne_nil
  have hbreaks : Breaks (w.toList ++ b.toList) := by
    rw [hw]
    intro d hd
    cases hd
    exact .inl (h.blanks c (hw ▸ List.mem_cons_self))
  have hlength : 0 + utf8Length a.toList + w.toList.length = (a ++ w).utf8ByteSize + 0 := by
    rw [String.utf8ByteSize_append, ← utf8Length_toList a, ← utf8Length_toList w, Scan.utf8Length_blanks h.blanks]
    omega
  unfold tokenize
  rw [String.toList_append, String.toList_append, List.append_assoc, Scan.tokens_append hbreaks]
  cases Scan.tokens 0 a.toList with
  | error e => rfl
  | ok ts =>
    dsimp only
    rw [Scan.tokens_blanks h.blanks, hlength, Scan.tokens_add]
    cases Scan.tokens 0 b.toList <;> rfl

/-- The texts are alike but for the blanks between their pieces, which are as many as they like, but at least
one in both. -/
inductive Respaced : String → String → Prop
  | same (a : String) : Respaced a a
  | gap (a : String) {w w' b b' : String} (hw : IsGap w) (hw' : IsGap w') (rest : Respaced b b') :
      Respaced (a ++ w ++ b) (a ++ w' ++ b')

/-- What is scanned, or why it is not, wherever it stands. -/
def Scan.unplaced : Except SyntaxError (List Token) → Except SyntaxError.Cause (List Lexeme)
  | .error e => .error e.cause
  | .ok ts => .ok (ts.map Token.lexeme)

theorem unplaced_gap (a b : String) {w : String} (h : IsGap w) : Scan.unplaced (tokenize (a ++ w ++ b)) = do
    let ls ← Scan.unplaced (tokenize a)
    let ms ← Scan.unplaced (tokenize b)
    return ls.dropLast ++ ms := by
  rw [tokenize_gap a b h]
  cases tokenize a with
  | error e => rfl
  | ok ts =>
    cases tokenize b with
    | error e => rfl
    | ok us =>
      change Except.ok ((ts.dropLast ++ us.map (Token.moved _)).map Token.lexeme) =
        Except.ok ((ts.map Token.lexeme).dropLast ++ us.map Token.lexeme)
      rw [List.map_append, List.map_map, List.map_dropLast]
      rfl

theorem unplaced_of_respaced {s s' : String} (h : Respaced s s') :
    Scan.unplaced (tokenize s) = Scan.unplaced (tokenize s') := by
  induction h with
  | same a => rfl
  | gap a hw hw' rest ih => rw [unplaced_gap a _ hw, unplaced_gap a _ hw', ih]

-- A reader that repeats what it read reads the same of what is the same but for its places.
theorem eq_ok_of_unplaced {α : Type} {reader : Reader α}
    (hrepeats : ∀ c c' : Cursor, c'.lexemes = c.lexemes → Repeats (reader c) (reader c')) {s s' : String}
    (hsame : Scan.unplaced (tokenize s) = Scan.unplaced (tokenize s')) {a : α}
    (h : (do Cursor.closed (← reader (.start (← tokenize s)))) = .ok a) :
    (do Cursor.closed (← reader (.start (← tokenize s')))) = .ok a := by
  cases hs : tokenize s with
  | error e =>
    rw [hs] at h
    cases h
  | ok ts =>
    cases hs' : tokenize s' with
    | error e =>
      rw [hs, hs'] at hsame
      cases hsame
    | ok us =>
      rw [hs, hs'] at hsame
      rw [hs] at h
      have hlexemes : us.map Token.lexeme = ts.map Token.lexeme := (Except.ok.inj hsame).symm
      exact (hrepeats (.start ts) (.start us) hlexemes).closed h

/-- Blanks end whatever stands in front of them, and nothing looks across them. A text in front of blanks is
scanned as it is by itself, its complaint included, and so is the text behind them, which only begins later. So
texts that differ in the blanks between their pieces are read as the same tree. -/
theorem tokenize_separated :
    (∀ a w b : String, IsGap w → tokenize (a ++ w ++ b) = match tokenize a with
      | .error e => .error e
      | .ok ts => match tokenize b with
        | .error e => .error (e.moved (a ++ w).utf8ByteSize)
        | .ok us => .ok (ts.dropLast ++ us.map (Token.moved (a ++ w).utf8ByteSize))) ∧
    ∀ s s' : String, Respaced s s' →
      (∀ e, Expr.parse s = .ok e ↔ Expr.parse s' = .ok e) ∧ ∀ t, Ty.parse s = .ok t ↔ Ty.parse s' = .ok t := by
  refine ⟨fun a w b => tokenize_gap a b, fun s s' h => ?_⟩
  have hsame := unplaced_of_respaced h
  have hexpr := Expr.repeats_read (Nat.le_refl maxNesting) Expr.lowest
  have hty := Ty.repeats_read (Nat.le_refl maxNesting) Ty.lowest
  exact ⟨fun e => ⟨eq_ok_of_unplaced hexpr hsame, eq_ok_of_unplaced hexpr hsame.symm⟩,
    fun t => ⟨eq_ok_of_unplaced hty hsame, eq_ok_of_unplaced hty hsame.symm⟩⟩

theorem tokenize_separated_lineFeed :
    IsGap " \n" ∧ Respaced "f x" "f \nx" ∧
    tokenize ("x:" ++ " \n" ++ ":é") = .error ⟨⟨5, 7⟩, .invalidToken "é"⟩ ∧
    Expr.parse "f \nx" = .ok (.apply (.identifier "f") (.identifier "x")) := by
  have hgap : IsGap " \n" := ⟨by decide, List.all_eq_true.mp rfl⟩
  have hblank : IsGap " " := ⟨by decide, List.all_eq_true.mp rfl⟩
  have hrespaced : Respaced "f x" "f \nx" := .gap "f" hblank hgap (.same "x")
  obtain ⟨hscan, hread⟩ := tokenize_separated
  exact ⟨hgap, hrespaced, (hscan "x:" " \n" ":é" hgap).trans (by decide +kernel),
    ((hread _ _ hrespaced).1 _).mp (by decide +kernel)⟩

end SampleStream
