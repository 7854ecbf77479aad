import SampleStream.Proofs.Expr.Halting
import SampleStream.Proofs.Parsing
import SampleStream.Proofs.Room

/-!
# Binders as operands

A binder without parentheses may be the operand of what stands in front of it, and its body goes as far to
the right as the reader of the body finds. That is the end of the text unless the body ends in an
annotation: then a `::` or an argument may follow that the body cannot take. Without the front the text is
refused there. With it, the operator is given to the phrase that encloses the binder, since the reader goes by
the level of the form it has just built and not by the open binder at its right end.
-/

namespace SampleStream

/-- Whether the lexeme begins a form that is open to the right. -/
def Lexeme.opensBinder : Lexeme → Bool
  | .symbol .backslash | .symbol .ampersand | .keyword .letWord => true
  | _ => false

namespace Expr

/-- What may stand in front of an operand: the name of a function, or a form of one operand. -/
inductive Front
  | function (f : String)
  | unary (form : Unary)

namespace Front

def lexeme : Front → Lexeme
  | .function f => .name f
  | .unary form => form.lexeme

/-- The expression that the front makes of its operand. -/
def apply : Front → Expr → Expr
  | .function f => .apply (.identifier f)
  | .unary form => form.apply

/-- The front as it is written, up to the operand. -/
def text : Front → String
  | .function f => f ++ " "
  | .unary .force => "!"
  | .unary .inl => "inl "
  | .unary .inr => "inr "

def IsWritten : Front → Prop
  | .function f => IsWord f
  | .unary _ => True

-- The front is its lexeme and a blank where the operand could run into it.
theorem spelled {front : Front} (hfront : front.IsWritten) : ∃ word blanks,
    front.text.toList = word ++ blanks ∧ Spelling front.lexeme word ∧
    (∀ c ∈ blanks, Scan.isBlank c = true) ∧ ∀ rest, Apart front.lexeme (blanks ++ rest) := by
  have hblank : ∀ c ∈ [' '], Scan.isBlank c = true := by
    intro c hc
    cases List.mem_singleton.mp hc
    rfl
  have hapart (rest : List Char) : Scan.runsOn ([' '] ++ rest) = false := rfl
  cases front with
  | function f => exact ⟨f.toList, [' '], String.toList_append, .name hfront, hblank, hapart⟩
  | unary form =>
    cases form with
    | force => exact ⟨_, [], rfl, .symbol .bang, nofun, fun _ => trivial⟩
    | inl => exact ⟨_, [' '], rfl, .keyword .inl, hblank, hapart⟩
    | inr => exact ⟨_, [' '], rfl, .keyword .inr, hblank, hapart⟩

theorem tokenize_text_append {front : Front} (hfront : front.IsWritten) {source : String}
    {ts : List Token} (h : tokenize (front.text ++ source) = .ok ts) : ∃ us, tokenize source = .ok us ∧
      ts.map Token.lexeme = front.lexeme :: us.map Token.lexeme := by
  obtain ⟨word, blanks, htext, hspelling, hblanks, hapart⟩ := spelled hfront
  unfold tokenize at h
  rw [String.toList_append, htext, List.append_assoc] at h
  exact Scan.tokens_behind hspelling hblanks (hapart _) h 0

end Front

/-- The first expression is where the second begins: it is that one, or where its left operand begins. -/
inductive Leftmost (lhs : Expr) : Expr → Prop
  | refl : Leftmost lhs lhs
  | apply {f : Expr} (h : Leftmost lhs f) (x : Expr) : Leftmost lhs (.apply f x)
  | cons {e : Expr} (h : Leftmost lhs e) (tail : Expr) : Leftmost lhs (.cons e tail)
  | annotate {e : Expr} (h : Leftmost lhs e) (t : Ty) : Leftmost lhs (.annotate e t)

theorem Leftmost.trans {a b e : Expr} (hab : Leftmost a b) (hbe : Leftmost b e) : Leftmost a e := by
  induction hbe with
  | refl => exact hab
  | apply _ x ih => exact .apply ih x
  | cons _ tail ih => exact .cons ih tail
  | annotate _ t ih => exact .annotate ih t

/-- The text begins with the open binder `b` and goes on at `l` with what is not the binder's. -/
structure Overruns (source : String) (b : Expr) (l : Lexeme) : Prop where
  begins : ∃ ts ls rest depth, tokenize source = .ok ts ∧ ts.map Token.lexeme = ls ++ l :: rest ∧
    Rendering True b lowest depth ls
  annotated : b.endsInAnnotation = true
  refused : ∃ span, parse source = .error ⟨span, .unexpected ["end of input"] l.describe⟩

section Reading

variable {inner : Nat → Reader Expr} {ascribed : Reader Ty}

theorem Unary.readHead_eq (form : Unary) {c : Cursor} (hc : c.next = form.lexeme) :
    readHead inner c = (do
      let (e, c) ← inner prefixLevel c.skip
      return ((form.apply e, prefixLevel), c)) := by
  unfold readHead
  rw [hc]
  cases form <;> rfl

theorem ofLexeme?_of_opensBinder {l : Lexeme} (h : l.opensBinder = true) :
    Operator.ofLexeme? l = some .apply := by
  unfold Lexeme.opensBinder at h
  split at h <;> first | rfl | cases h

theorem readHead_of_opensBinder {c : Cursor} (hc : c.next.opensBinder = true) :
    Leaves (fun p _ => p.2 = lowest) (readHead inner c) := by
  unfold Lexeme.opensBinder at hc
  unfold readHead
  split at hc
  · rename_i hnext
    rw [hnext]
    exact .after fun _ => .pure rfl
  · rename_i hnext
    rw [hnext]
    exact .after fun _ => .pure rfl
  · rename_i hnext
    rw [hnext]
    exact .after fun _ => .pure rfl
  · cases hc

-- No operator takes an open binder as its left operand.
theorem climb_lowest (min fuel : Nat) (e : Expr) (c : Cursor) :
    climb inner ascribed min fuel (e, lowest) c = .ok (e, c) := by
  cases fuel with
  | zero => rfl
  | succ fuel =>
    rw [climb]
    split
    · rfl
    · rw [if_pos (.inr (lowest_lt_leftMin _))]

theorem leftmost_readOperation (lhs : Expr) (op : Operator) (c : Cursor) :
    Leaves (fun e _ => Leftmost lhs e) (readOperation inner ascribed lhs op c) := by
  cases op with
  | apply => exact .after fun p => .pure (.apply .refl p.1)
  | annotate => exact .after fun p => .pure (.annotate .refl p.1)
  | cons => exact .after fun p => .pure (.cons .refl p.1)

-- A climb keeps what it starts from at the left end.
theorem leftmost_climb {min : Nat} (fuel : Nat) : ∀ (lhs : Expr) (level : Nat) (c : Cursor),
    Leaves (fun e _ => Leftmost lhs e) (climb inner ascribed min fuel (lhs, level) c) := by
  induction fuel with
  | zero => exact fun lhs level c => .pure .refl
  | succ fuel ih =>
    intro lhs level c
    rw [climb]
    split
    · exact .pure .refl
    · split
      · exact .pure .refl
      · refine (leftmost_readOperation lhs _ c).bind fun e d h => ?_
        exact fun e' d' he' => h.trans (ih e _ d e' d' he')

end Reading

-- The binder is all that is read where one begins, from whatever level on.
theorem read_eq_ok_iff {room min : Nat} {c d : Cursor} {b : Expr} (hc : c.next.opensBinder = true) :
    read (room + 1) min c = .ok (b, d) ↔ readHead (read room) c = .ok ((b, lowest), d) := by
  constructor
  · intro h
    rw [read] at h
    obtain ⟨⟨⟨e, level⟩, d'⟩, hhead, hclimb⟩ := exists_of_bind_eq_ok h
    obtain rfl : level = lowest := readHead_of_opensBinder hc _ _ hhead
    have hsame := (climb_lowest min _ e d').symm.trans hclimb
    cases hsame
    exact hhead
  · intro h
    rw [read, h]
    exact climb_lowest min _ b d

-- So it is the same binder with more room and another minimum.
theorem read_again {room room' min min' : Nat} (hroom : room ≤ room') {c c' d : Cursor} {b : Expr}
    (hc : c.next.opensBinder = true) (hc' : c'.lexemes = c.lexemes)
    (h : read (room + 1) min c = .ok (b, d)) :
    ∃ d', read (room' + 1) min' c' = .ok (b, d') ∧ d'.lexemes = d.lexemes := by
  have hhead := (read_eq_ok_iff hc).mp h
  obtain ⟨d', hhead', hd⟩ := repeats_readHead (repeats_read hroom) hc' _ _ hhead
  have hopens : c'.next.opensBinder = true := by rw [Cursor.next_congr hc', hc]
  exact ⟨d', (read_eq_ok_iff hopens).mpr hhead', hd⟩

theorem startsExpr_of_ofLexeme? {l : Lexeme} (h : Operator.ofLexeme? l = some .apply) :
    l.startsExpr = true := by
  unfold Operator.ofLexeme? at h
  split at h
  · cases h
  · cases h
  · split at h
    · assumption
    · cases h

-- A climb that ends the text has taken the operator that came first, if there was one.
theorem climb_closed {inner : Nat → Reader Expr} {ascribed : Reader Ty} {lhs e : Expr} {level : Nat}
    {c d : Cursor} (hlevel : Operator.apply.fixity.level ≤ level) {fuel : Nat}
    (h : climb inner ascribed lowest fuel (lhs, level) c = .ok (e, d)) (hd : d.next = .done) :
    (c.next = .done ∧ e = lhs) ∨ ∃ op mid d', Operator.ofLexeme? c.next = some op ∧
      readOperation inner ascribed lhs op c = .ok (mid, d') ∧ Leftmost mid e := by
  cases fuel with
  | zero =>
    cases h
    exact .inl ⟨hd, rfl⟩
  | succ fuel =>
    cases hop : Operator.ofLexeme? c.next with
    | none =>
      rw [climb, hop] at h
      cases h
      exact .inl ⟨hd, rfl⟩
    | some op =>
      have hmin : lowest ≤ op.fixity.level := Nat.zero_le _
      rw [climb_operation hop hmin (Nat.le_trans (leftMin_le_apply op) hlevel)] at h
      obtain ⟨⟨mid, d'⟩, hmid, hclimb⟩ := exists_of_bind_eq_ok h
      exact .inr ⟨op, mid, d', rfl, hmid, leftmost_climb fuel mid _ d' e d hclimb⟩

-- Behind the front the binder is read, and the climb goes on from what the two make.
theorem Front.read_eq_ok {front : Front} {room : Nat} {c d : Cursor} {e : Expr} {ls : List Lexeme}
    (hc : c.lexemes = front.lexeme :: ls) (hopens : c.skip.next.opensBinder = true)
    (h : read (room + 1) lowest c = .ok (e, d)) : ∃ b d' level fuel,
      read room prefixLevel c.skip = .ok (b, d') ∧ Operator.apply.fixity.level ≤ level ∧
      climb (read room) (Ty.read room Ty.lowest) lowest fuel (front.apply b, level) d' = .ok (e, d) := by
  cases front with
  | function f =>
    have hhead : readHead (read room) c = .ok ((.identifier f, atomLevel), c.skip) := by
      rw [readHead, Cursor.next_of_lexemes hc]
      rfl
    have hop := ofLexeme?_of_opensBinder hopens
    rw [read, hhead] at h
    change climb (read room) (Ty.read room Ty.lowest) lowest c.skip.rest.length
      (.identifier f, atomLevel) c.skip = .ok (e, d) at h
    -- the binder's first token is one that the climb may spend on the application
    obtain ⟨fuel, hfuel⟩ : ∃ fuel, c.skip.rest.length = fuel + 1 := by
      cases hrest : c.skip.rest with
      | nil =>
        rw [Cursor.next_eq_headD, Cursor.lexemes, hrest] at hopens
        cases hopens
      | cons t ts => exact ⟨ts.length, rfl⟩
    have hmin : lowest ≤ Operator.apply.fixity.level := by decide
    have hleft : Operator.apply.fixity.leftMin ≤ atomLevel := by decide
    rw [hfuel, climb_operation hop hmin hleft] at h
    obtain ⟨⟨mid, d'⟩, hmid, hclimb⟩ := exists_of_bind_eq_ok h
    obtain ⟨⟨b, d''⟩, hb, hpair⟩ := exists_of_bind_eq_ok hmid
    cases hpair
    exact ⟨b, d', _, fuel, hb, Nat.le_refl _, hclimb⟩
  | unary form =>
    rw [read, form.readHead_eq (Cursor.next_of_lexemes hc)] at h
    obtain ⟨⟨⟨mid, level⟩, d'⟩, hhead, hclimb⟩ := exists_of_bind_eq_ok h
    obtain ⟨⟨b, d''⟩, hb, hpair⟩ := exists_of_bind_eq_ok hhead
    cases hpair
    exact ⟨b, d', _, _, hb, by decide, hclimb⟩

/-- What becomes of the text behind the front: the reader makes the binder `b` of what it begins with and
stops at `d`. That is the end, or the phrase that encloses the binder takes the operator that follows. -/
theorem Front.outcome {front : Front} {room : Nat} {c c' d : Cursor} {e : Expr}
    (hc : c.lexemes = front.lexeme :: c'.lexemes) (hopens : c'.next.opensBinder = true)
    (h : read (room + 2) lowest c = .ok (e, d)) (hd : d.next = .done) : ∃ b d' ls depth,
      read (room + 2) lowest c' = .ok (b, d') ∧ c'.lexemes = ls ++ d'.lexemes ∧
      Rendering True b lowest depth ls ∧
      (d'.next = .done ∧ e = front.apply b ∨ b.endsInAnnotation = true ∧
        (d'.next = .symbol .colonColon ∧ (∃ x, Leftmost (.cons (front.apply b) x) e) ∨
          d'.next.startsExpr = true ∧ ∃ x, Leftmost (.apply (front.apply b) x) e)) := by
  have hskip : c'.lexemes = c.skip.lexemes := (Cursor.lexemes_skip hc).symm
  have hopens' : c.skip.next.opensBinder = true := by rw [← Cursor.next_congr hskip, hopens]
  obtain ⟨b, d₁, level, fuel, hb, hlevel, hclimb⟩ := front.read_eq_ok hc hopens' h
  -- by itself the binder is read with one level of nesting more
  obtain ⟨d', hb', hd'⟩ := read_again (Nat.le_succ room) hopens' hskip hb
  have hnext : d'.next = d₁.next := Cursor.next_congr hd'
  have hhead := (read_eq_ok_iff hopens).mp hb'
  obtain ⟨ls, hls, depth, hrendering, -, -⟩ := takes_readHead (takes_read (room + 1)) c' _ _ hhead
  refine ⟨b, d', ls, depth, hb', hls, hrendering, ?_⟩
  rw [hnext]
  obtain hend | ⟨op, mid, d₂, hop, hmid, hleft⟩ := climb_closed hlevel hclimb hd
  · exact .inl hend
  · have hhead₁ := (read_eq_ok_iff hopens').mp hb
    obtain ⟨hne, hannotated⟩ :=
      leaves_readHead (halts_read room) _ _ _ hhead₁ op hop (lowest_lt_leftMin op)
    refine .inr ⟨hannotated, ?_⟩
    cases op with
    | annotate => exact absurd rfl hne
    | cons =>
      obtain ⟨⟨x, d₃⟩, -, hpair⟩ := exists_of_bind_eq_ok hmid
      cases hpair
      exact .inl ⟨eq_colonColon_of_ofLexeme? hop, x, hleft⟩
    | apply =>
      obtain ⟨⟨x, d₃⟩, -, hpair⟩ := exists_of_bind_eq_ok hmid
      cases hpair
      exact .inr ⟨startsExpr_of_ofLexeme? hop, x, hleft⟩

/-- A text that begins with an open binder and is accepted behind a front: either all of it is the binder's, by
itself as well, or the binder's body ends in an annotation and the text goes on with a `::` or an argument.
For that it is refused by itself, but behind the front the two together are taken for the left operand. -/
theorem parse_open_binder {front : Front} (hfront : front.IsWritten) {source : String}
    (hopens : ∀ t ts, tokenize source = .ok (t :: ts) → t.lexeme.opensBinder = true) {e : Expr}
    (h : parse (front.text ++ source) = .ok e) : ∃ b,
      (parse source = .ok b ∧ e = front.apply b) ∨
      (Overruns source b (.symbol .colonColon) ∧ ∃ x, Leftmost (.cons (front.apply b) x) e) ∨
      ∃ l, l.startsExpr = true ∧ Overruns source b l ∧ ∃ x, Leftmost (.apply (front.apply b) x) e := by
  unfold parse at h
  obtain ⟨ts, hts, htokens⟩ := exists_of_bind_eq_ok h
  obtain ⟨us, hus, hmap⟩ := Front.tokenize_text_append hfront hts
  obtain ⟨⟨e', d⟩, hread, hclosed⟩ := exists_of_bind_eq_ok htokens
  obtain ⟨hd, rfl⟩ := Cursor.closed_eq_ok hclosed
  have hbinder : (Cursor.start us).next.opensBinder = true := by
    cases us with
    | nil =>
      obtain ⟨ls, -, hls⟩ := spells_of_tokenize hus
      simp at hls
    | cons t us => exact hopens t us hus
  have hstart : (Cursor.start ts).lexemes = front.lexeme :: (Cursor.start us).lexemes := hmap
  obtain ⟨b, d', ls, depth, hb, hls, hrendering, hcases⟩ := Front.outcome hstart hbinder hread hd
  have hparse : parse source = Cursor.closed (b, d') := by
    unfold parse
    rw [hus]
    change (read maxNesting lowest (.start us) >>= Cursor.closed) = _
    rw [show read maxNesting lowest (.start us) = .ok (b, d') from hb]
    rfl
  have hoverruns (hnext : d'.next ≠ .done) (hannotated : b.endsInAnnotation = true) :
      Overruns source b d'.next := by
    refine ⟨⟨us, ls, d'.skip.lexemes, depth, hus, ?_, hrendering⟩, hannotated, ?_⟩
    · rw [← Cursor.lexemes_eq_cons rfl hnext, ← hls, Cursor.lexemes_start]
    · rw [hparse]
      exact Cursor.closed_of_next_ne b hnext
  obtain ⟨hdone, he⟩ | ⟨hannotated, ⟨hnext, hcons⟩ | ⟨hstarts, happly⟩⟩ := hcases
  · refine ⟨b, .inl ⟨?_, he⟩⟩
    rw [hparse, Cursor.closed, hdone]
  · refine ⟨b, .inr (.inl ⟨?_, hcons⟩)⟩
    rw [← hnext]
    exact hoverruns (by simp [hnext]) hannotated
  · have hne : d'.next ≠ .done := by
      intro hdone
      rw [hdone] at hstarts
      cases hstarts
    exact ⟨b, .inr (.inr ⟨d'.next, hstarts, hoverruns hne hannotated, happly⟩)⟩

theorem parse_open_binder_regrouped :
    let front : Front := .function "f"
    let source := "\\x. x : sample :: y"
    let binder : Expr := .lambda "x" (.annotate (.identifier "x") (.base .sample))
    let e : Expr := .cons (front.apply binder) (.identifier "y")
    front.IsWritten ∧ parse (front.text ++ source) = .ok e ∧
    parse source = .error ⟨⟨15, 17⟩, .unexpected ["end of input"] "`::`"⟩ ∧ ∃ b,
      (parse source = .ok b ∧ e = front.apply b) ∨
      (Overruns source b (.symbol .colonColon) ∧ ∃ x, Leftmost (.cons (front.apply b) x) e) ∨
      ∃ l, l.startsExpr = true ∧ Overruns source b l ∧ ∃ x, Leftmost (.apply (front.apply b) x) e := by
  intro front source binder e
  have hfront : front.IsWritten := (⟨by decide, by decide, by decide⟩ : IsWord "f")
  have hparse : parse (front.text ++ source) = .ok e := by decide +kernel
  have hfirst : ((tokenize source).toOption.bind List.head?).map Token.lexeme =
      some (.symbol .backslash) := by decide +kernel
  refine ⟨hfront, hparse, by decide +kernel, parse_open_binder hfront (fun t ts h => ?_) hparse⟩
  rw [h] at hfirst
  rw [show t.lexeme = .symbol .backslash from Option.some.inj hfirst]
  rfl

end Expr

end SampleStream
