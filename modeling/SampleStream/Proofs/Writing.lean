import SampleStream.Expr.Printer
import SampleStream.Proofs.Literal
import SampleStream.Proofs.Parentheses

/-!
# What printers write

A printed tree is a text that spells the lexemes of its phrase, provided that its names are words and its
samples are finite (`Expr.spelled_phrase`). Blanks stand wherever two lexemes would run into each other;
what follows a printed part begins with a blank, a closing parenthesis or a comma.
-/

namespace SampleStream

/-- A lexeme that a source text can hold. -/
def Lexeme.IsWritable : Lexeme → Prop
  | .name x => IsWord x
  | .sample s => s.isFinite = true
  | .done => False
  | _ => True

@[simp] theorem Lexeme.isWritable_name (x : String) : (Lexeme.name x).IsWritable ↔ IsWord x := Iff.rfl

@[simp] theorem Lexeme.isWritable_sample (s : Sample) :
    (Lexeme.sample s).IsWritable ↔ s.isFinite = true := Iff.rfl

@[simp] theorem Lexeme.isWritable_index (n : UInt64) : (Lexeme.index n).IsWritable := trivial

@[simp] theorem Lexeme.isWritable_keyword (k : Keyword) : (Lexeme.keyword k).IsWritable := trivial

@[simp] theorem Lexeme.isWritable_symbol (s : Symbol) : (Lexeme.symbol s).IsWritable := trivial

theorem Lexeme.spelling_written {l : Lexeme} (h : l.IsWritable) : Spelling l l.written := by
  cases l with
  | name x => exact .name h
  | sample s => exact s.spelling_literal h
  | keyword k => exact .keyword k
  | symbol s => exact .symbol s
  | done => exact h.elim
  | index n =>
    have hvalue := Numeral.value_digits n.toNat
    have hspelling := Spelling.index (Numeral.digits_ne_nil n.toNat)
      (Numeral.isDigit_of_mem_digits n.toNat) (by rw [hvalue]; exact n.toNat_lt)
    rwa [hvalue, UInt64.ofNat_toNat] at hspelling

theorem Spelling.isWritable {l : Lexeme} {text : List Char} (h : Spelling l text) : l.IsWritable := by
  cases h with
  | name h => exact h
  | sample negative hne hwhole hfraction hfinite => exact hfinite
  | _ => trivial

theorem Spells.isWritable {cs : List Char} {ls : List Lexeme} (h : Spells cs ls) :
    ∀ l ∈ ls, l.IsWritable := by
  induction h with
  | nil => simp
  | blank hc rest ih => exact ih
  | lexeme first apart rest ih => exact List.forall_mem_cons.mpr ⟨first.isWritable, ih⟩

/-- What may follow any lexeme. -/
def Breaks (cs : List Char) : Prop :=
  ∀ c ∈ cs.head?, Scan.isBlank c = true ∨ c = ')' ∨ c = ','

theorem Breaks.stops {cs : List Char} (h : Breaks cs) : Scan.Stops Scan.isWordChar cs := by
  intro c hc
  obtain hblank | rfl | rfl := h c hc
  · obtain ⟨hstart, hdigit, -⟩ := Scan.isBlank_cases hblank
    rw [Scan.isWordChar, hstart, hdigit, Bool.or_self]
  · decide
  · decide

-- A point, or a symbol that would go on, is none of what may follow.
theorem Breaks.head?_ne {cs : List Char} (h : Breaks cs) {c : Char}
    (hc : Scan.isBlank c = false ∧ c ≠ ')' ∧ c ≠ ',') : cs.head? ≠ some c := by
  intro hhead
  obtain hblank | rfl | rfl := h c hhead
  · rw [hc.1] at hblank
    cases hblank
  · exact hc.2.1 rfl
  · exact hc.2.2 rfl

theorem Breaks.apart {cs : List Char} (h : Breaks cs) (l : Lexeme) : Apart l cs := by
  have hruns := Scan.runsOn_eq_false_iff.mpr h.stops
  cases l with
  | name x => exact hruns
  | index n => exact ⟨hruns, h.head?_ne (by decide)⟩
  | sample s => exact hruns
  | keyword k => exact hruns
  | symbol s =>
    rw [Scan.apart_symbol_iff]
    exact ⟨fun _ => h.head?_ne (by decide), fun _ => h.head?_ne (by decide)⟩
  | done => trivial

namespace Phrase

theorem chars_lexeme (l : Lexeme) (p : Phrase) : chars (.lexeme l :: p) = l.written ++ chars p := rfl

/-- The characters of the phrase, with a text behind it, spell the lexemes of the phrase and those of that
text. -/
def Spelled (p : Phrase) : Prop :=
  ∀ cs ls, Breaks cs → Spells cs ls → Spells (p.chars ++ cs) (p.lexemes ++ ls)

namespace Spelled

variable {p q : Phrase}

theorem nil : Spelled [] :=
  fun _ _ _ hcs => hcs

theorem blank (hp : Spelled p) : Spelled (.blank :: p) :=
  fun cs ls hbreaks hcs => .blank rfl (hp cs ls hbreaks hcs)

theorem cons {l : Lexeme} (hl : l.IsWritable) (hapart : ∀ cs, Breaks cs → Apart l (p.chars ++ cs))
    (hp : Spelled p) : Spelled (.lexeme l :: p) := by
  intro cs ls hbreaks hcs
  rw [chars_lexeme, List.append_assoc, lexemes_lexeme, List.cons_append]
  exact .lexeme (Lexeme.spelling_written hl) (hapart cs hbreaks) (hp cs ls hbreaks hcs)

-- A name before something that is no part of a word.
theorem cons_name {x : String} (hx : IsWord x) (hruns : ∀ cs, Scan.runsOn (p.chars ++ cs) = false)
    (hp : Spelled p) : Spelled (name x :: p) :=
  .cons hx (fun cs _ => hruns cs) hp

theorem append (hp : Spelled p) (hbreak : ∀ cs, Breaks cs → Breaks (q.chars ++ cs)) (hq : Spelled q) :
    Spelled (p ++ q) := by
  intro cs ls hbreaks hcs
  rw [chars_append, lexemes_append, List.append_assoc, List.append_assoc]
  exact hp _ _ (hbreak cs hbreaks) (hq cs ls hbreaks hcs)

theorem breaks_blank (p : Phrase) (cs : List Char) : Breaks (chars (.blank :: p) ++ cs) := by
  intro c hc
  cases hc
  exact .inl rfl

theorem breaks_rightParen (p : Phrase) (cs : List Char) :
    Breaks (chars (symbol .rightParen :: p) ++ cs) := by
  intro c hc
  cases hc
  exact .inr (.inl rfl)

theorem breaks_comma (p : Phrase) (cs : List Char) : Breaks (chars (symbol .comma :: p) ++ cs) := by
  intro c hc
  cases hc
  exact .inr (.inr rfl)

-- A lexeme and a blank.
theorem spaced {l : Lexeme} (hl : l.IsWritable) (hp : Spelled p) :
    Spelled (.lexeme l :: .blank :: p) :=
  .cons hl (fun cs _ => (breaks_blank p cs).apart l) hp.blank

theorem spaced_symbol (s : Symbol) (hp : Spelled p) : Spelled (symbol s :: .blank :: p) :=
  .spaced trivial hp

theorem spaced_keyword (k : Keyword) (hp : Spelled p) : Spelled (keyword k :: .blank :: p) :=
  .spaced trivial hp

theorem spaced_name {x : String} (hx : IsWord x) (hp : Spelled p) :
    Spelled (name x :: .blank :: p) :=
  .spaced hx hp

theorem append_blank (hp : Spelled p) (hq : Spelled q) : Spelled (p ++ .blank :: q) :=
  .append hp (fun cs _ => breaks_blank q cs) hq.blank

-- One lexeme by itself.
theorem single {l : Lexeme} (hl : l.IsWritable) : Spelled [.lexeme l] :=
  .cons hl (fun _ hcs => hcs.apart l) .nil

theorem append_rightParen (hp : Spelled p) : Spelled (p ++ [symbol .rightParen]) :=
  .append hp (fun cs _ => breaks_rightParen [] cs) (.single trivial)

theorem grouped (needed : Bool) (hp : Spelled p) : Spelled (grouped needed p) := by
  cases needed with
  | false => exact hp
  | true => exact .cons trivial (fun _ _ => trivial) hp.append_rightParen

end Spelled

-- Parentheses can be written wherever the phrase can.
theorem isWritable_grouped (needed : Bool) (p : Phrase) :
    (∀ l ∈ (grouped needed p).lexemes, l.IsWritable) ↔ ∀ l ∈ p.lexemes, l.IsWritable := by
  cases needed <;> simp [grouped, symbol, or_imp, forall_and]

end Phrase

-- Every type can be written; its names are words.
theorem Ty.spelled_phrase (t : Ty) : t.phrase.Spelled := by
  have hjoined {p q : Phrase} (op : Operator) (left right : Nat) (hp : p.Spelled) (hq : q.Spelled) :
      (phrase.joined op left p right q).Spelled :=
    (hp.grouped _).append_blank (.spaced trivial (hq.grouped _))
  induction t with
  | base b =>
    have hword : IsWord b.keyword := by
      cases b <;> exact ⟨by decide, by decide, by decide⟩
    exact .single hword
  | function a b iha ihb => exact hjoined .function _ _ iha ihb
  | stream t ih => exact .cons trivial (fun _ _ => trivial) (ih.grouped _)
  | product a b iha ihb => exact hjoined .product _ _ iha ihb
  | sum a b iha ihb => exact hjoined .sum _ _ iha ihb

theorem Ty.isWritable_phrase (t : Ty) : ∀ l ∈ t.phrase.lexemes, l.IsWritable := by
  have hspells := t.spelled_phrase [] [] (fun c hc => by cases hc) .nil
  rw [List.append_nil, List.append_nil] at hspells
  exact hspells.isWritable

namespace Expr

/-- All names are words and all samples are finite. -/
def WellFormed : Expr → Prop
  | .identifier x => IsWord x
  | .index _ => True
  | .sample s => s.isFinite = true
  | .apply f x => f.WellFormed ∧ x.WellFormed
  | .lambda x body | .fix x body => IsWord x ∧ body.WellFormed
  | .force e | .inl e | .inr e => e.WellFormed
  | .cons h t => h.WellFormed ∧ t.WellFormed
  | .letIn x v body => IsWord x ∧ v.WellFormed ∧ body.WellFormed
  | .annotate e _ => e.WellFormed
  | .pair a b => a.WellFormed ∧ b.WellFormed
  | .unpair x y s body => IsWord x ∧ IsWord y ∧ s.WellFormed ∧ body.WellFormed
  | .caseOf s x l y r => s.WellFormed ∧ IsWord x ∧ l.WellFormed ∧ IsWord y ∧ r.WellFormed

theorem spelled_phrase {e : Expr} (h : e.WellFormed) : e.phrase.Spelled := by
  induction e with
  | identifier x => exact .single h
  | index n => exact .single trivial
  | sample s => exact .single h
  | apply f x ihf ihx => exact ((ihf h.1).grouped _).append_blank ((ihx h.2).grouped _)
  | lambda x body ih =>
    have hdot := (ih h.2).spaced_symbol .dot
    exact .cons trivial (fun _ _ => trivial) (hdot.cons_name h.1 fun _ => rfl)
  | fix x body ih =>
    have hdot := (ih h.2).spaced_symbol .dot
    exact .cons trivial (fun _ _ => trivial) (hdot.cons_name h.1 fun _ => rfl)
  | force e ih => exact .cons trivial (fun _ _ => trivial) ((ih h).grouped _)
  | inl e ih => exact ((ih h).grouped _).spaced_keyword .inl
  | inr e ih => exact ((ih h).grouped _).spaced_keyword .inr
  | cons a b iha ihb =>
    exact ((iha h.1).grouped _).append_blank (((ihb h.2).grouped _).spaced_symbol .colonColon)
  | letIn x v body ihv ihb =>
    have hbody := (ihb h.2.2).spaced_keyword .inWord
    have hvalue := ((ihv h.2.1).spaced_symbol .equals).append_blank hbody
    exact (hvalue.spaced_name h.1).spaced_keyword .letWord
  | annotate e t ih => exact ((ih h).grouped _).append_blank (t.spelled_phrase.spaced_symbol .colon)
  | pair a b iha ihb =>
    have hcomma := (ihb h.2).spaced_symbol .comma
    have hboth := (iha h.1).append (fun cs _ => Phrase.Spelled.breaks_comma _ cs) hcomma
    exact .cons trivial (fun _ _ => trivial) hboth.append_rightParen
  | unpair x y s body ihs ihb =>
    obtain ⟨hx, hy, hs, hb⟩ := h
    have hbody := (ihb hb).spaced_keyword .inWord
    have hequals := ((ihs hs).spaced_symbol .equals).append_blank hbody
    have hclose := hequals.spaced_symbol .rightParen
    have hsecond := (hclose.cons_name hy fun _ => rfl).spaced_symbol .comma
    have hnames := hsecond.cons_name hx fun _ => rfl
    exact .spaced_keyword .letWord (.cons trivial (fun _ _ => trivial) hnames)
  | caseOf s x l y r ihs ihl ihr =>
    obtain ⟨hs, hx, hl, hy, hr⟩ := h
    have hleft := (((ihl hl).spaced_symbol .fatArrow).spaced_name hx).spaced_keyword .inl
    have hright := (((ihr hr).spaced_symbol .fatArrow).spaced_name hy).spaced_keyword .inr
    have hscrutinee := (ihs hs).spaced_keyword .caseWord
    have hopen := hscrutinee.append_blank (hleft.spaced_symbol .leftBrace)
    have hclose : Phrase.Spelled [Phrase.symbol .rightBrace] := .single trivial
    exact (hopen.append_blank (hright.spaced_symbol .pipe)).append_blank hclose

-- An expression can be written if and only if each of its lexemes can.
theorem wellFormed_iff (e : Expr) : e.WellFormed ↔ ∀ l ∈ e.phrase.lexemes, l.IsWritable := by
  induction e with
  | identifier x => simp [WellFormed, phrase, Phrase.name]
  | index n => simp [WellFormed, phrase]
  | sample s => simp [WellFormed, phrase]
  | annotate e t ih =>
    have hty := t.isWritable_phrase
    simp only [WellFormed, phrase, ih, Phrase.lexemes_append, List.forall_mem_append,
      Phrase.isWritable_grouped, Phrase.symbol, Phrase.lexemes_lexeme, Phrase.lexemes_blank,
      List.forall_mem_cons, Lexeme.isWritable_symbol, true_and]
    exact (and_iff_left hty).symm
  | _ => simp_all [WellFormed, phrase, Phrase.name, Phrase.keyword, Phrase.symbol,
      or_imp, forall_and, Phrase.isWritable_grouped]

end Expr

end SampleStream
