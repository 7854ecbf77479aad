import Mathlib.Data.List.Basic
import SampleStream.Proofs.Expr.Reading
import SampleStream.Proofs.Expr.Soundness
import SampleStream.Proofs.Writing

/-!
# Parsing whole texts

Scanning and reading together. A text that writes a tree is read as that tree if it nests no deeper than
the reader may go, and is refused for its nesting if it does (`Expr.parse_of_writes`); the printed form is
such a text. What is read from a text is written there, apart from binders that need no parentheses where
they stand.
-/

namespace SampleStream

-- What is read up to the end of the text is the result.
theorem Reads.closed {α : Type} {fits : Prop} {a : α} {r : Except SyntaxError (α × Cursor)}
    (h : Reads fits a [.done] r) :
    (fits → (r >>= Cursor.closed) = .ok a) ∧ (¬fits → TooDeep (r >>= Cursor.closed)) := by
  constructor
  · intro hfits
    obtain ⟨c, rfl, hc⟩ := h.1 hfits
    change Cursor.closed (a, c) = .ok a
    rw [Cursor.closed, Cursor.next_of_lexemes hc]
  · intro hdeep
    exact (h.2 hdeep).bind Cursor.closed

-- What is read up to the end of the text is all of it.
theorem Takes.closed {α : Type} {Q : α → List Lexeme → Prop} {ts : List Token} {ls : List Lexeme}
    {r : Except SyntaxError (α × Cursor)} {a : α} (h : Takes (.start ts) Q r)
    (hts : ts.map Token.lexeme = ls ++ [.done]) (hdone : Lexeme.done ∉ ls)
    (hQ : ∀ b ms, Q b ms → Lexeme.done ∉ ms) (hr : (r >>= Cursor.closed) = .ok a) : Q a ls := by
  obtain ⟨⟨b, d⟩, hread, hclosed⟩ := exists_of_bind_eq_ok hr
  obtain ⟨hnext, rfl⟩ := Cursor.closed_eq_ok hclosed
  obtain ⟨ms, hms, htaken⟩ := h _ d hread
  rw [Cursor.lexemes_start, hts] at hms
  -- the end of the text comes once, behind all that has been read
  cases hd : d.lexemes with
  | nil =>
    rw [hd, List.append_nil] at hms
    exact absurd (hms ▸ List.mem_append_right ls (List.mem_singleton_self _)) (hQ _ ms htaken)
  | cons l rest =>
    rw [Cursor.next_of_lexemes hd] at hnext
    rw [hd, show l = .done from hnext] at hms
    obtain ⟨rfl, -, -⟩ := (List.append_cons_inj_of_notMem hdone List.not_mem_nil).mp hms
    exact htaken

theorem tokenize_of_spells {source : String} {ls : List Lexeme} (h : Spells source.toList ls) :
    ∃ ts, tokenize source = .ok ts ∧ ts.map Token.lexeme = ls ++ [.done] :=
  Scan.tokens_of_spells h 0

theorem spells_of_tokenize {source : String} {ts : List Token} (h : tokenize source = .ok ts) :
    ∃ ls, Spells source.toList ls ∧ ts.map Token.lexeme = ls ++ [.done] :=
  Scan.spells_of_tokens 0 source.toList h

theorem spells_of_lexemes {source : String} {ls : List Lexeme}
    (h : (tokenize source).toOption.map (·.map Token.lexeme) = some (ls ++ [.done])) : Spells source.toList ls := by
  cases hts : tokenize source with
  | error e =>
    rw [hts] at h
    cases h
  | ok ts =>
    rw [hts] at h
    obtain ⟨ms, hspells, hmap⟩ := spells_of_tokenize hts
    obtain rfl : ms = ls := List.append_cancel_right (hmap.symm.trans (Option.some.inj h))
    exact hspells

-- A printed phrase spells its lexemes.
theorem Phrase.Spelled.text {p : Phrase} (hp : p.Spelled) : Spells p.text.toList p.lexemes := by
  have hend : Breaks [] := by
    intro c hc
    cases hc
  have hspells := hp [] [] hend .nil
  rwa [List.append_nil, List.append_nil, ← String.toList_ofList (l := p.chars)] at hspells

namespace Ty

theorem ofTokens_of_rendering {t : Ty} {level depth : Nat} {ls : List Lexeme}
    (h : Rendering t level depth ls) {ts : List Token} (hts : ts.map Token.lexeme = ls ++ [.done])
    (room : Nat) :
    (depth < room → ofTokens room ts = .ok t) ∧ (¬depth < room → TooDeep (ofTokens room ts)) := by
  have hreads : Reads (depth < room) t [.done] (read room lowest (.start ts)) :=
    h.reads room (Nat.zero_le level) rfl hts
  exact hreads.closed

theorem parse_of_spells {t : Ty} {level depth : Nat} {ls : List Lexeme} (h : Rendering t level depth ls)
    {source : String} (hs : Spells source.toList ls) :
    (depth < maxNesting → parse source = .ok t) ∧ (¬depth < maxNesting → TooDeep (parse source)) := by
  obtain ⟨ts, hts, hmap⟩ := tokenize_of_spells hs
  have hparse : parse source = ofTokens maxNesting ts := by
    rw [parse, hts]
    rfl
  rw [hparse]
  exact ofTokens_of_rendering h hmap maxNesting

-- What is read from a list of tokens stands there as a rendering, up to the end.
theorem rendering_of_ofTokens {room : Nat} {t : Ty} {ls : List Lexeme} {ts : List Token}
    (hts : ts.map Token.lexeme = ls ++ [.done]) (hdone : Lexeme.done ∉ ls) (h : ofTokens room ts = .ok t) :
    ∃ level depth, Rendering t level depth ls ∧ depth < room := by
  obtain ⟨level, depth, hrendering, -, hdepth⟩ :=
    (takes_read room lowest (.start ts) (Nat.zero_le _)).closed hts hdone
      (fun _ _ ⟨_, _, hrendering, _⟩ => hrendering.done_not_mem) h
  exact ⟨level, depth, hrendering, hdepth⟩

end Ty

namespace Expr

/-- The text is a way to write the expression that nests to `depth` levels below the outermost: any blanks
stand between its lexemes, and any parts are in parentheses, at least those whose level asks for them. -/
def Writes (e : Expr) (depth : Nat) (source : String) : Prop :=
  ∃ level ls, Rendering False e level depth ls ∧ Spells source.toList ls

theorem ofTokens_of_rendering {e : Expr} {level depth : Nat} {ls : List Lexeme}
    (h : Rendering False e level depth ls) {ts : List Token} (hts : ts.map Token.lexeme = ls ++ [.done])
    (room : Nat) :
    (depth < room → ofTokens room ts = .ok e) ∧ (¬depth < room → TooDeep (ofTokens room ts)) :=
  (h.opens.reads_part room ⟨rfl, rfl⟩ (.start ts) hts).closed

theorem parse_of_writes {e : Expr} {depth : Nat} {source : String} (h : e.Writes depth source) :
    (depth < maxNesting → parse source = .ok e) ∧ (¬depth < maxNesting → TooDeep (parse source)) := by
  obtain ⟨level, ls, hrendering, hspells⟩ := h
  obtain ⟨ts, hts, hmap⟩ := tokenize_of_spells hspells
  have hparse : parse source = ofTokens maxNesting ts := by
    rw [parse, hts]
    rfl
  rw [hparse]
  exact ofTokens_of_rendering hrendering hmap maxNesting

-- The printed form is a way to write an expression whose names are words and whose samples are finite.
theorem writes_text {e : Expr} (h : e.WellFormed) : e.Writes e.depth e.text :=
  ⟨e.level, e.phrase.lexemes, e.rendering_phrase False, (spelled_phrase h).text⟩

-- What a text holds apart from its parentheses decides whether an expression can be written.
theorem wellFormed_of_bare_eq {e : Expr} {ls : List Lexeme} (hls : ∀ l ∈ ls, l.IsWritable)
    (hbare : bare ls = bare e.phrase.lexemes) : e.WellFormed := by
  rw [wellFormed_iff]
  intro l hl
  by_cases hparen : l.isParen = true
  · cases l with
    | symbol s => exact Lexeme.isWritable_symbol s
    | done => cases hparen
    | _ => simp at hparen
  · have hmem : l ∈ bare ls := by
      rw [hbare]
      exact List.mem_filter.mpr ⟨hl, by simpa using hparen⟩
    exact hls l (List.mem_of_mem_filter hmem)

-- What is read from a list of tokens stands there as a lax rendering, up to the end.
theorem rendering_of_ofTokens {room : Nat} {e : Expr} {ls : List Lexeme} {ts : List Token}
    (hts : ts.map Token.lexeme = ls ++ [.done]) (hdone : Lexeme.done ∉ ls)
    (h : ofTokens room ts = .ok e) : ∃ level depth, Rendering True e level depth ls ∧ depth < room := by
  obtain ⟨level, depth, hrendering, -, hdepth⟩ :=
    (takes_read room lowest (.start ts) (Nat.zero_le _)).closed hts hdone
      (fun _ _ ⟨_, _, hrendering, _⟩ => hrendering.done_not_mem) h
  exact ⟨level, depth, hrendering, hdepth⟩

/-- Parsing is sound: the tokens of the source, each once and in order, are a rendering of the result in
which only binders stand where the table of levels asks for parentheses. So the printed form of the result
has the tokens of the source, parentheses apart. -/
theorem parse_sound {source : String} {e : Expr} (h : parse source = .ok e) :
    ∃ ts ls level depth, tokenize source = .ok ts ∧ ts.map Token.lexeme = ls ++ [.done] ∧
      Rendering True e level depth ls ∧ depth < maxNesting ∧
      ∃ us, tokenize e.text = .ok us ∧ bare (us.map Token.lexeme) = bare (ts.map Token.lexeme) := by
  unfold parse at h
  cases hts : tokenize source with
  | error err => rw [hts] at h; cases h
  | ok ts =>
    rw [hts] at h
    change ofTokens maxNesting ts = .ok e at h
    obtain ⟨ls, hspells, hmap⟩ := spells_of_tokenize hts
    have hdone : Lexeme.done ∉ ls := fun hmem => hspells.isWritable _ hmem
    obtain ⟨level, depth, hrendering, hdepth⟩ := rendering_of_ofTokens hmap hdone h
    have hbare := hrendering.bare_eq
    have hwell := wellFormed_of_bare_eq hspells.isWritable hbare
    obtain ⟨us, hus, humap⟩ := tokenize_of_spells (spelled_phrase hwell).text
    refine ⟨ts, ls, level, depth, rfl, hmap, hrendering, hdepth, us, hus, ?_⟩
    rw [humap, hmap, bare_append, bare_append, hbare]

-- An open binder takes all that follows, and the parentheses are more than are needed.
theorem parse_sound_grouped :
    let source := "(f) \\x. (x y) :: z : ~sample"
    let e : Expr := .apply (.identifier "f") (.lambda "x" (.annotate
      (.cons (.apply (.identifier "x") (.identifier "y")) (.identifier "z")) (.stream (.base .sample))))
    parse source = .ok e ∧
    ∃ ts ls level depth, tokenize source = .ok ts ∧ ts.map Token.lexeme = ls ++ [.done] ∧
      Rendering True e level depth ls ∧ depth < maxNesting ∧
      ∃ us, tokenize e.text = .ok us ∧ bare (us.map Token.lexeme) = bare (ts.map Token.lexeme) := by
  intro source e
  have hparse : parse source = .ok e := by decide +kernel
  exact ⟨hparse, parse_sound hparse⟩

/-- Parsing is complete, and the language is unambiguous: whatever text writes an expression, with any
redundant parentheses and blanks, is parsed as that expression if it does not nest too deep, and however
deep it nests it writes no other expression. -/
theorem parse_complete :
    (∀ (e : Expr) (depth : Nat) (source : String), e.Writes depth source → depth + 1 ≤ maxNesting →
      parse source = .ok e) ∧
    ∀ (e e' : Expr) (depth depth' : Nat) (source : String), e.Writes depth source →
      e'.Writes depth' source → e = e' := by
  constructor
  · intro e depth source h hdepth
    exact (parse_of_writes h).1 hdepth
  · rintro e e' depth depth' source ⟨level, ls, h, hspells⟩ ⟨level', ls', h', hspells'⟩
    obtain ⟨ts, hts, hmap⟩ := tokenize_of_spells hspells
    obtain ⟨ts', hts', hmap'⟩ := tokenize_of_spells hspells'
    obtain rfl : ts = ts' := by
      rw [hts] at hts'
      cases hts'
      rfl
    -- with room for both, the reader gives both
    have hroom : depth < max depth depth' + 1 := by omega
    have hroom' : depth' < max depth depth' + 1 := by omega
    have hread := (ofTokens_of_rendering h hmap (max depth depth' + 1)).1 hroom
    have hread' := (ofTokens_of_rendering h' hmap' (max depth depth' + 1)).1 hroom'
    rw [hread] at hread'
    cases hread'
    rfl

-- The binder is in parentheses since it must be, and the whole and one name although they need not.
theorem parse_complete_grouped :
    let source := "( (f)(\\x. x :: y) :sample )"
    let e : Expr := .annotate (.apply (.identifier "f")
      (.lambda "x" (.cons (.identifier "x") (.identifier "y")))) (.base .sample)
    e.Writes 5 source ∧ 5 + 1 ≤ maxNesting ∧ parse source = .ok e := by
  intro source e
  have hspells : Spells source.toList [.symbol .leftParen, .symbol .leftParen, .name "f", .symbol .rightParen,
      .symbol .leftParen, .symbol .backslash, .name "x", .symbol .dot, .name "x", .symbol .colonColon, .name "y",
      .symbol .rightParen, .symbol .colon, .name "sample", .symbol .rightParen] :=
    spells_of_lexemes (by decide +kernel)
  have hbody : Rendering False _ _ _ _ :=
    .cons (.identifier "x") (by decide) (.identifier "y") (.inl (by decide))
  have hbinder : Rendering False _ _ _ _ := .grouped (.binder .lambda "x" hbody)
  have hcall : Rendering False _ _ _ _ :=
    .apply (.grouped (.identifier "f")) (by decide) hbinder (.inl (by decide))
  have hwrites : e.Writes 5 source := ⟨_, _, .grouped (.annotate hcall (by decide) (.base .sample)), hspells⟩
  exact ⟨hwrites, by decide, parse_complete.1 e 5 source hwrites (by decide)⟩

end Expr

/-- Printing and parsing is exact. A printed tree that nests no deeper than the reader may go is read back
as it was, its samples to the last bit, and one that nests deeper is refused for that and nothing else. -/
theorem parse_text :
    (∀ e : Expr, e.WellFormed → (e.nesting ≤ maxNesting → Expr.parse e.text = .ok e) ∧
      (maxNesting < e.nesting → TooDeep (Expr.parse e.text))) ∧
    ∀ t : Ty, (t.nesting ≤ maxNesting → Ty.parse t.text = .ok t) ∧
      (maxNesting < t.nesting → TooDeep (Ty.parse t.text)) := by
  constructor
  · intro e he
    obtain ⟨hfit, hdeep⟩ := Expr.parse_of_writes (Expr.writes_text he)
    exact ⟨hfit, fun hlt => hdeep (Nat.not_lt_of_le (Nat.le_of_lt_succ hlt))⟩
  · intro t
    obtain ⟨hfit, hdeep⟩ := Ty.parse_of_spells t.rendering_phrase t.spelled_phrase.text
    exact ⟨hfit, fun hlt => hdeep (Nat.not_lt_of_le (Nat.le_of_lt_succ hlt))⟩

theorem parse_text_applied :
    (Expr.apply (.identifier "f") (.sample ⟨0x3fc00000⟩)).WellFormed ∧
    Expr.parse (Expr.apply (.identifier "f") (.sample ⟨0x3fc00000⟩)).text =
      .ok (.apply (.identifier "f") (.sample ⟨0x3fc00000⟩)) ∧
    TooDeep (Expr.parse (Expr.force^[100] (.identifier "x")).text) ∧
    Ty.parse (Ty.stream (.base .sample)).text = .ok (.stream (.base .sample)) := by
  have hwell : (Expr.apply (.identifier "f") (.sample ⟨0x3fc00000⟩)).WellFormed :=
    ⟨⟨by decide, by decide, by decide⟩, show Sample.isFinite ⟨0x3fc00000⟩ = true by decide⟩
  have hdeep : (Expr.force^[100] (.identifier "x")).WellFormed :=
    (⟨by decide, by decide, by decide⟩ : IsWord "x")
  refine ⟨hwell, (parse_text.1 _ hwell).1 (by decide), (parse_text.1 _ hdeep).2 (by decide +kernel), ?_⟩
  exact (parse_text.2 (.stream (.base .sample))).1 (by decide)

end SampleStream
