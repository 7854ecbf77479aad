import Mathlib.Data.List.Nodup
import SampleStream.Proofs.Continuation
import SampleStream.Proofs.Parsing
import SampleStream.Proofs.Viable

/-!
# Where a syntax error is

A text is refused at the first token that it cannot go on with. What stands in front of that token can be
read, as far as the nesting leaves room for what is still missing, and what stands behind it plays no part
(`parse_blames`).
-/

namespace SampleStream

open Progress

/-- Different tokens of a text stand at different places. -/
theorem Placed.nodup_spans {offset : Nat} {cs : List Char} {ts : List Token} (h : Placed offset cs ts) :
    (ts.map Token.span).Nodup := by
  induction h with
  | nil => simp
  | blank hc rest ih => exact ih
  | @lexeme offset l text cs ts first apart rest ih =>
    refine List.nodup_cons.mpr ⟨fun hmem => ?_, ih⟩
    obtain ⟨t, ht, hspan⟩ := List.mem_map.mp hmem
    have hbehind := (rest.bounds t ht).1
    have hpos := utf8Length_pos first.ne_nil
    rw [hspan] at hbehind
    dsimp only at hbehind
    omega

theorem Placed.span_eq_iff {offset : Nat} {cs : List Char} {ts : List Token} (h : Placed offset cs ts)
    {i j : Nat} {t u : Token} (ht : ts[i]? = some t) (hu : ts[j]? = some u) : u.span = t.span ↔ j = i := by
  have hj : j < (ts.map Token.span).length := by
    rw [List.length_map]
    exact (List.getElem?_eq_some_iff.mp hu).1
  rw [← List.getElem?_inj hj h.nodup_spans, List.getElem?_map, List.getElem?_map, ht, hu]
  simp

namespace Progress

variable {limit : Nat} {p : Progress} {e : SyntaxError} {wanted : List String}

theorem expected_eq {c : Cursor} {t : Token} {ts : List Token} (h : c.rest = t :: ts) :
    c.expected wanted = ⟨t.span, if t.lexeme = .done then .unexpectedEnd wanted
      else .unexpected wanted t.lexeme.describe⟩ := by
  rw [Cursor.expected, Cursor.next_of_rest h, Cursor.peek, h, List.headD_cons]
  cases t.lexeme <;> rfl

theorem expected?_expected (c : Cursor) (wanted : List String) :
    (c.expected wanted).cause.expected? = some wanted := by
  unfold Cursor.expected
  split <;> rfl

-- A complaint about what was expected comes from the agenda and the next lexeme alone.
theorem turn_expected (h : p.turn limit = .error e) (hw : e.cause.expected? = some wanted) :
    e = p.cursor.expected wanted ∧
      ∀ d : Cursor, d.next = p.cursor.next → turn limit ⟨p.agenda, d⟩ = .error (d.expected wanted) := by
  unfold turn at h
  split at h
  · rename_i hagenda
    split at h
    · cases h
    · rename_i hdone
      cases h
      rw [expected?_expected] at hw
      cases hw
      refine ⟨rfl, fun d hd => ?_⟩
      rw [hagenda, turn, hd]
      exact if_neg hdone
  · rename_i i rest hagenda
    split at h
    · rename_i hfits
      split at h
      · cases h
      · cases h
      · rename_i other hresponse
        cases h
        rw [expected?_expected] at hw
        cases hw
        refine ⟨rfl, fun d hd => ?_⟩
        rw [hagenda]
        exact turn_of_refuse hfits (hd ▸ hresponse)
    · cases h
      cases hw

-- The end of the text is not taken, so that a token comes next wherever a reader is.
theorem Arrives.exists_next {agenda waiting : List Item} {ts before : List Token}
    (h : Arrives limit agenda (.start ts) p before waiting) {offset : Nat} {cs : List Char}
    (hplaced : Placed offset cs ts) : ∃ t behind, p.cursor.rest = t :: behind := by
  have hsplit : ts = before ++ p.cursor.rest := h.split
  cases hrest : p.cursor.rest with
  | nil =>
    obtain ⟨front, hfront, -⟩ := hplaced.last
    rw [hrest, List.append_nil, hfront] at hsplit
    exact absurd rfl (h.inside _ (hsplit ▸ List.mem_append_right front List.mem_cons_self))
  | cons t behind => exact ⟨t, behind, rfl⟩

end Progress

/-- The complaint of a parser at the token with index `n`, where `wanted` was expected. -/
structure Blames {α : Type} (parse : String → Except SyntaxError α) (k : Category) (ts : List Token)
    (e : SyntaxError) (wanted : List String) (n : Nat) : Prop where
  /-- the error is at this token and at no other; the end of the text is reported exactly if that is what
  stands there -/
  token : ∃ t, ts[n]? = some t ∧ (∀ j u, ts[j]? = some u → (u.span = e.span ↔ j = n)) ∧
    (e.cause = .unexpectedEnd wanted ↔ t.lexeme = .done) ∧
    (e.cause = .unexpected wanted t.lexeme.describe ↔ t.lexeme ≠ .done)
  /-- whatever text has these lexemes up to the token, that included, is refused there in the same words -/
  again : ∀ other us, tokenize other = .ok us →
    (us.take (n + 1)).map Token.lexeme = (ts.take (n + 1)).map Token.lexeme →
    ∃ u, us[n]? = some u ∧ parse other = .error ⟨u.span, e.cause⟩
  /-- unless all levels of nesting are open where the parser complains, a text that begins with the tokens
  in front of this one is accepted -/
  viable : ∃ p, (start k ts).Reaches maxNesting p ∧ p.turn maxNesting = .error e ∧
    p.cursor.rest = ts.drop n ∧ (p.depth < maxNesting →
      ∃ other us a, tokenize other = .ok us ∧ us.take n = ts.take n ∧ parse other = .ok a)

section Parser

variable {α : Type} {parse : String → Except SyntaxError α} {k : Category}
  (hparse : ∀ {source ts}, tokenize source = .ok ts → ∃ q, (start k ts).Reaches maxNesting q ∧
    q.turn maxNesting = (parse source).map fun _ => none)

include hparse

section Place

variable {ts before behind : List Token} {p : Progress} {waiting : List Item} {t : Token}
  (harrives : Arrives maxNesting [.phrase k k.lowest] (.start ts) p before waiting)
  (hrest : p.cursor.rest = t :: behind)

include harrives hrest

-- Another text comes to the same agenda, at a token with the same lexeme.
theorem refused_again {wanted : List String} (hrefused : ∀ d : Cursor, d.next = p.cursor.next →
      turn maxNesting ⟨p.agenda, d⟩ = .error (d.expected wanted))
    {other : String} {us : List Token} (hus : tokenize other = .ok us)
    (hmap : (us.take (before.length + 1)).map Token.lexeme = (before ++ [t]).map Token.lexeme) :
    ∃ u, us[before.length]? = some u ∧
      parse other = .error ⟨u.span, (p.cursor.expected wanted).cause⟩ := by
  rw [List.map_append, List.map_singleton] at hmap
  obtain ⟨front, last, hsplit, hfront, hlast⟩ := List.map_eq_append_iff.mp hmap
  obtain ⟨u, rfl, hu⟩ := List.map_eq_singleton_iff.mp hlast
  have hus' : us = front ++ u :: us.drop (before.length + 1) := by
    conv_lhs => rw [← List.take_append_drop (before.length + 1) us, hsplit]
    simp
  have hlength : front.length = before.length := by
    simpa using congrArg List.length hfront
  obtain ⟨d, hd, hreaches⟩ := harrives.again (.start us) front _ hus' hfront
  have hnext : d.next = p.cursor.next := by
    rw [Cursor.next_of_rest hd, Cursor.next_of_rest hrest, hu]
  have hstops := hrefused d hnext
  have hresult := turn_eq_of_ends (hparse hus) (hreaches.trans (harrives.waits.reaches hnext))
    (ends_of_error hstops)
  rw [hstops] at hresult
  refine ⟨u, ?_, ?_⟩
  · rw [hus', ← hlength]
    simp
  · rw [eq_error_of_map hresult.symm, expected_eq hd, expected_eq hrest, hu]

-- What the agenda still needs can be written behind the tokens that have been read.
theorem accepted_beginning {source : String} (hts : tokenize source = .ok ts)
    (hdepth : p.depth < maxNesting) : ∃ other us a, tokenize other = .ok us ∧
      us.take before.length = ts.take before.length ∧ parse other = .ok a := by
  have hsplit : ts = before ++ p.cursor.rest := harrives.split
  have hlength : before.length < ts.length := by
    rw [hsplit, hrest]
    simp
  obtain ⟨other, us, hus, hfront, hfinish⟩ :=
    tokenize_continued hts hlength (isWritable_finish waiting)
  have hbefore : us.take before.length = before := by
    rw [hfront, hsplit, List.take_left]
  have hus' : us = before ++ us.drop before.length := by
    conv_lhs => rw [← List.take_append_drop before.length us, hbefore]
  obtain ⟨d, hd, hreaches⟩ := harrives.again (.start us) before _ hus' rfl
  have hfits : AllFit maxNesting waiting := harrives.waits.fits (allFit_of_openPhrases_lt hdepth)
  have hdelimited := hreaches.delimited (delimited_start k us)
  have hlexemes : d.lexemes = finish waiting ++ [.done] := by
    rw [Cursor.lexemes, hd, hfinish]
  obtain ⟨q, hq, hend⟩ := concludes_finish hfits hdelimited d hlexemes
  have hresult := turn_eq_of_ends (hparse hus) (hreaches.trans hq) (ends_of_none hend)
  rw [hend] at hresult
  obtain ⟨a, ha⟩ := exists_ok_of_map hresult.symm
  exact ⟨other, us, a, hus, hfront, ha⟩

end Place

theorem blames {source : String} {ts : List Token} (hts : tokenize source = .ok ts) {e : SyntaxError}
    (he : parse source = .error e) {wanted : List String} (hw : e.cause.expected? = some wanted) :
    ∃ n, Blames parse k ts e wanted n := by
  obtain ⟨p, hp, hturn⟩ := hparse hts
  rw [he] at hturn
  obtain ⟨rfl, hsame⟩ := turn_expected hturn hw
  obtain ⟨before, waiting, harrives⟩ := hp.arrives
  have hsplit : ts = before ++ p.cursor.rest := harrives.split
  have hplaced : Placed 0 source.toList ts := Scan.placed_of_tokens 0 source.toList hts
  obtain ⟨t, behind, hrest⟩ := harrives.exists_next hplaced
  have hexpected : p.cursor.expected wanted = _ := expected_eq hrest
  have ht : ts[before.length]? = some t := by
    rw [hsplit, hrest]
    simp
  have htake : ts.take (before.length + 1) = before ++ [t] := by
    rw [hsplit, hrest, List.take_length_add_append]
    rfl
  refine ⟨before.length, ⟨t, ht, fun j u hu => ?_, ?_, ?_⟩, fun other us hus hmap => ?_,
    ⟨p, hp, hturn, ?_, accepted_beginning hparse harrives hrest hts⟩⟩
  · rw [hexpected]
    exact hplaced.span_eq_iff ht hu
  · rw [hexpected]
    by_cases hdone : t.lexeme = .done <;> simp [hdone]
  · rw [hexpected]
    by_cases hdone : t.lexeme = .done <;> simp [hdone]
  · exact refused_again hparse harrives hrest hsame hus (hmap.trans (by rw [htake]))
  · rw [hsplit, List.drop_left]

end Parser

/-- Syntax errors are reported at the first offending token. A source that is cut into tokens and refused for
one of them is refused whatever follows, in the same words; and if a level of nesting is left where the parser
complains, the tokens in front of that one begin a source that is accepted. It is the same for types. -/
theorem parse_blames :
    (∀ (source : String) (ts : List Token) (e : SyntaxError) (wanted : List String),
      tokenize source = .ok ts → Expr.parse source = .error e → e.cause.expected? = some wanted →
        ∃ n, Blames Expr.parse .expr ts e wanted n) ∧
    ∀ (source : String) (ts : List Token) (e : SyntaxError) (wanted : List String),
      tokenize source = .ok ts → Ty.parse source = .error e → e.cause.expected? = some wanted →
        ∃ n, Blames Ty.parse .ty ts e wanted n := by
  constructor
  · intro source ts e wanted hts he hw
    refine blames (fun {source ts} hts => ?_) hts he hw
    rw [Expr.parse, hts]
    exact Expr.exists_turn_ofTokens maxNesting ts
  · intro source ts e wanted hts he hw
    refine blames (fun {source ts} hts => ?_) hts he hw
    rw [Ty.parse, hts]
    exact Ty.exists_turn_ofTokens maxNesting ts

/-- A brace inside a group, and a type that ends too early. -/
theorem parse_blames_group :
    (∃ ts e, tokenize "let x = (f \x7d" = .ok ts ∧ Expr.parse "let x = (f \x7d" = .error e ∧
      e.cause = .unexpected ["`)`", "`,`"] "`\x7d`" ∧
      ∃ n, Blames Expr.parse .expr ts e ["`)`", "`,`"] n) ∧
    ∃ ts e, tokenize "~" = .ok ts ∧ Ty.parse "~" = .error e ∧ e.cause = .unexpectedEnd ["a type"] ∧
      ∃ n, Blames Ty.parse .ty ts e ["a type"] n := by
  have hgroup : tokenize "let x = (f \x7d" = .ok
      [⟨.keyword .letWord, ⟨0, 3⟩⟩, ⟨.name "x", ⟨4, 5⟩⟩, ⟨.symbol .equals, ⟨6, 7⟩⟩,
        ⟨.symbol .leftParen, ⟨8, 9⟩⟩, ⟨.name "f", ⟨9, 10⟩⟩, ⟨.symbol .rightBrace, ⟨11, 12⟩⟩,
        ⟨.done, ⟨12, 12⟩⟩] := by decide +kernel
  have hrefused : Expr.parse "let x = (f \x7d" =
      .error ⟨⟨11, 12⟩, .unexpected ["`)`", "`,`"] "`\x7d`"⟩ := by decide +kernel
  have htilde : tokenize "~" = .ok [⟨.symbol .tilde, ⟨0, 1⟩⟩, ⟨.done, ⟨1, 1⟩⟩] := by decide +kernel
  have hends : Ty.parse "~" = .error ⟨⟨1, 1⟩, .unexpectedEnd ["a type"]⟩ := by decide +kernel
  exact ⟨⟨_, _, hgroup, hrefused, rfl, parse_blames.1 _ _ _ _ hgroup hrefused rfl⟩,
    ⟨_, _, htilde, hends, rfl, parse_blames.2 _ _ _ _ htilde hends rfl⟩⟩

end SampleStream
