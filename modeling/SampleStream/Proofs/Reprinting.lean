import Mathlib.Order.Bounds.Basic
import SampleStream.Proofs.Parsing
import SampleStream.Proofs.Room
import SampleStream.Proofs.Viable

/-!
# How deep a tree nests when it is printed again

A source may leave binders open that the printer puts in parentheses, and it may have parentheses that the
printer drops. Only the former make the printed form deeper, and a binder is a level of its own, so that of
three levels that are printed two were there (`Expr.Rendering.printsWithin`). Types have no binders.
-/

namespace SampleStream

namespace Ty

-- An operand that the printer puts in parentheses is in parentheses already.
theorem Rendering.depth_le {t : Ty} {level depth : Nat} {ls : List Lexeme} (h : Rendering t level depth ls) :
    t.depth ≤ depth ∧ (level ≠ t.level → t.depth < depth) := by
  have operand {t : Ty} {level depth min : Nat} (h : t.depth ≤ depth ∧ (level ≠ t.level → t.depth < depth))
      (hmin : min ≤ level) : nested (t.level < min) t.depth ≤ depth := by
    by_cases hlt : t.level < min
    · simpa [nested, hlt] using Nat.succ_le_of_lt (h.2 (by omega))
    · simpa [nested, hlt] using h.1
  induction h with
  | base b => exact ⟨Nat.le_refl _, fun hne => absurd rfl hne⟩
  | stream inner hmin ih => exact ⟨Nat.succ_le_succ (operand ih hmin), fun hne => absurd rfl hne⟩
  | operation op left hleft right hright iha ihb =>
    have ha := operand iha hleft
    have hb := operand ihb hright
    cases op <;>
      exact ⟨Nat.max_le.mpr ⟨by omega, by omega⟩, fun hne => absurd rfl hne⟩
  | grouped inner ih => exact ⟨Nat.le_succ_of_le ih.1, fun _ => Nat.lt_succ_of_le ih.1⟩

end Ty

namespace Expr

/-- How deep an expression is printed that was read with some depth: by half as much again at most. Binders
leave room for parentheses, and so does whatever is in parentheses already. -/
structure PrintsWithin (e : Expr) (level depth : Nat) : Prop where
  all : 2 * e.depth ≤ 3 * depth
  lowest : level = Expr.lowest → 2 * e.depth + 1 ≤ 3 * depth
  grouped : level ≠ e.level → 2 * (e.depth + 1) ≤ 3 * depth

namespace PrintsWithin

variable {e : Expr} {level depth min : Nat}

-- Where the level of an operand is high enough, parentheses that are printed were there.
theorem left (h : e.PrintsWithin level depth) (hmin : min ≤ level) :
    2 * nested (e.level < min) e.depth ≤ 3 * depth := by
  by_cases hlt : e.level < min
  · simpa [nested, hlt] using h.grouped (by omega)
  · simpa [nested, hlt] using h.all

-- An open binder gets parentheses, and the level of the operand has room for one half of them.
theorem right (h : e.PrintsWithin level depth) (hmin : Admits True min level) :
    2 * nested (e.level < min) e.depth ≤ 3 * depth + 1 := by
  obtain hmin | ⟨-, rfl⟩ := hmin
  · exact Nat.le_succ_of_le (h.left hmin)
  · by_cases hlt : e.level < min
    · simpa [nested, hlt, Nat.mul_add] using h.lowest rfl
    · simpa [nested, hlt] using Nat.le_succ_of_le h.all

theorem own (hlevel : level = e.level) (hlow : level ≠ Expr.lowest) (h : 2 * e.depth ≤ 3 * depth) :
    e.PrintsWithin level depth :=
  ⟨h, fun heq => absurd heq hlow, fun hne => absurd hlevel hne⟩

theorem binder (hlevel : level = e.level) (h : 2 * e.depth + 1 ≤ 3 * depth) :
    e.PrintsWithin level depth :=
  ⟨by omega, fun _ => h, fun hne => absurd hlevel hne⟩

end PrintsWithin

theorem Rendering.printsWithin {e : Expr} {level depth : Nat} {ls : List Lexeme}
    (h : Rendering True e level depth ls) : e.PrintsWithin level depth := by
  induction h with
  | identifier x => exact .own rfl (by decide) (Nat.le_refl _)
  | index n => exact .own rfl (by decide) (Nat.le_refl _)
  | sample s => exact .own rfl (by decide) (Nat.le_refl _)
  | apply fn hfn arg harg ihf ihx =>
    have hf := ihf.left hfn
    have hx := ihx.right harg
    refine .own rfl (by decide) ?_
    simp only [Expr.depth, Expr.depth.operands]
    omega
  | cons head hhead tail htail ihh iht =>
    have hh := ihh.left hhead
    have ht := iht.right htail
    refine .own rfl (by decide) ?_
    simp only [Expr.depth, Expr.depth.operands]
    omega
  | annotate inner hinner ty ih =>
    have he := ih.left hinner
    have ht := ty.depth_le.1
    refine .own rfl (by decide) ?_
    simp only [Expr.depth, Expr.depth.operands]
    omega
  | unary form inner hinner ih =>
    have he := ih.right hinner
    cases form <;>
    · refine .own rfl (by decide) ?_
      simp only [Unary.apply, Expr.depth]
      omega
  | binder form x inner ih =>
    have hbody := ih.all
    cases form <;>
    · refine .binder rfl ?_
      simp only [Binder.apply, Expr.depth]
      omega
  | letIn x value inner ihv ihb =>
    have hv := ihv.all
    have hb := ihb.all
    refine .binder rfl ?_
    simp only [Expr.depth]
    omega
  | unpair x y scrutinee inner ihs ihb =>
    have hs := ihs.all
    have hb := ihb.all
    refine .binder rfl ?_
    simp only [Expr.depth]
    omega
  | pair first second iha ihb =>
    have ha := iha.all
    have hb := ihb.all
    refine .own rfl (by decide) ?_
    simp only [Expr.depth]
    omega
  | caseOf x y scrutinee left right ihs ihl ihr =>
    have hs := ihs.all
    have hl := ihl.all
    have hr := ihr.all
    refine .own rfl (by decide) ?_
    simp only [Expr.depth]
    omega
  | grouped inner ih =>
    have he := ih.all
    refine ⟨by omega, fun hlow => absurd hlow (by decide), fun _ => by omega⟩

end Expr

namespace Progress

variable {limit room : Nat} {p q : Progress}

/-- The numbers of levels that are open at some time on the way from `p` on. -/
def depths (limit : Nat) (p : Progress) : Set Nat :=
  {depth | ∃ q, p.Reaches limit q ∧ q.depth = depth}

-- All that is reached lies on the way to the end, so that one of these numbers is the greatest.
theorem Reaches.exists_isGreatest (h : p.Reaches limit q) (hq : q.Ends limit) :
    ∃ depth, IsGreatest (depths limit p) depth := by
  induction h using Relation.ReflTransGen.head_induction_on with
  | refl =>
    refine ⟨q.depth, ⟨q, .refl, rfl⟩, ?_⟩
    rintro _ ⟨t, ht, rfl⟩
    obtain rfl | ⟨t', hturn, -⟩ := Relation.ReflTransGen.cases_head ht
    · exact Nat.le_refl _
    · exact absurd hturn (hq t')
  | @head p p' hturn _ ih =>
    obtain ⟨depth, hgreatest⟩ := ih
    have hdepths : depths limit p = insert p.depth (depths limit p') := by
      ext n
      constructor
      · rintro ⟨t, ht, rfl⟩
        obtain rfl | ⟨t', hturn', ht'⟩ := Relation.ReflTransGen.cases_head ht
        · exact .inl rfl
        · rw [hturn] at hturn'
          cases hturn'
          exact .inr ⟨t, ht', rfl⟩
      · rintro (rfl | ⟨t, ht, rfl⟩)
        · exact ⟨p, .refl, rfl⟩
        · exact ⟨t, ht.head hturn, rfl⟩
    rw [hdepths]
    exact ⟨_, hgreatest.insert p.depth⟩

-- A turn asks for no more room than there are levels open behind it.
theorem turn_of_depth_le (h : p.turn limit = .ok (some q)) (hq : q.depth ≤ room) :
    p.turn room = .ok (some q) := by
  obtain ⟨i, rest, items, hagenda, -, hagenda', hresponse⟩ := turn_cases h
  have hfits : i.fits room (openPhrases rest) = true := by
    cases i with
    | phrase k min =>
      obtain ⟨hresponse, -⟩ | ⟨hresponse, -⟩ := hresponse
      · cases hresponse
        rw [depth, hagenda'] at hq
        exact decide_eq_true hq
      · cases hresponse
    | _ => rfl
  obtain ⟨agenda, cursor⟩ := p
  obtain ⟨agenda', cursor'⟩ := q
  dsimp only at hagenda hagenda' hresponse
  subst hagenda hagenda'
  obtain ⟨hresponse, rfl⟩ | ⟨hresponse, rfl⟩ := hresponse
  · exact turn_of_stay hfits hresponse
  · exact turn_of_take hfits hresponse

theorem Reaches.of_depth_le (h : p.Reaches limit q) (hroom : ∀ depth ∈ depths limit p, depth ≤ room) :
    p.Reaches room q := by
  induction h with
  | refl => exact .refl
  | @tail t q ht hturn ih =>
    have hdepth : q.depth ≤ room := hroom _ ⟨q, ht.tail hturn, rfl⟩
    exact ih.tail (turn_of_depth_le hturn hdepth)

theorem turn_eq_none (h : p.turn limit = .ok none) : p.turn room = .ok none := by
  unfold turn at h ⊢
  split at h
  · exact h
  · split at h
    · split at h <;> cases h
    · cases h

-- What is read to the end is read with no more room than was ever taken. Where more room changes nothing, the
-- result is the same.
theorem exists_isGreatest_of_ok {α : Type} {result : Nat → Except SyntaxError α} {a : α}
    (hturns : ∀ room, ∃ q, p.Reaches room q ∧ q.turn room = (result room).map fun _ => none)
    (hmore : ∀ {room room' b}, room ≤ room' → result room = .ok b → result room' = .ok b)
    (h : result limit = .ok a) :
    ∃ levels, IsGreatest (depths limit p) levels ∧ result levels = .ok a := by
  obtain ⟨q, hq, hturn⟩ := hturns limit
  rw [h] at hturn
  obtain ⟨levels, hlevels⟩ := hq.exists_isGreatest (ends_of_none hturn)
  have hnone : q.turn levels = .ok none := turn_eq_none hturn
  have hends := turn_eq_of_ends (hturns levels) (hq.of_depth_le hlevels.2) (ends_of_none hnone)
  rw [hnone] at hends
  obtain ⟨b, hb⟩ := exists_ok_of_map hends.symm
  -- both results are the one with room for both
  have ha' := hmore (Nat.le_max_left limit levels) h
  rw [hmore (Nat.le_max_right limit levels) hb] at ha'
  cases ha'
  exact ⟨levels, hlevels, hb⟩

end Progress

-- What is read to the end with one room is read to the end where that is repeated.
theorem Repeats.closed {α : Type} {r r' : Except SyntaxError (α × Cursor)} {a : α} (h : Repeats r r')
    (hr : (r >>= Cursor.closed) = .ok a) : (r' >>= Cursor.closed) = .ok a := by
  obtain ⟨⟨b, d⟩, hread, hclosed⟩ := exists_of_bind_eq_ok hr
  obtain ⟨hnext, rfl⟩ := Cursor.closed_eq_ok hclosed
  obtain ⟨d', rfl, hlexemes⟩ := h _ d hread
  change Cursor.closed (a, d') = .ok a
  rw [Cursor.closed, (Cursor.next_congr hlexemes).trans hnext]

-- Where all that does not fit is refused for its nesting, nothing else is read.
theorem eq_ok_iff_of_tooDeep {α : Type} {r : Except SyntaxError α} {a : α} {fits : Prop}
    (hfits : fits → r = .ok a) (hdeep : ¬fits → TooDeep r) : r = .ok a ↔ fits := by
  refine ⟨fun h => ?_, hfits⟩
  by_contra hlarge
  obtain ⟨span, herror⟩ := hdeep hlarge
  rw [h] at herror
  cases herror

namespace Ty

theorem ofTokens_of_le {room room' : Nat} (hroom : room ≤ room') {ts : List Token} {t : Ty}
    (h : ofTokens room ts = .ok t) : ofTokens room' ts = .ok t :=
  (repeats_read hroom lowest (.start ts) (.start ts) rfl).closed h

theorem ofTokens_eq_ok_iff {t : Ty} {us : List Token} (hus : us.map Token.lexeme = t.phrase.lexemes ++ [.done])
    (room : Nat) : ofTokens room us = .ok t ↔ t.nesting ≤ room := by
  obtain ⟨hfits, hdeep⟩ := ofTokens_of_rendering t.rendering_phrase hus room
  exact eq_ok_iff_of_tooDeep hfits hdeep

/-- A type that was read with so many levels open at most: its printed form needs no more. -/
structure Reprints (ts : List Token) (t : Ty) (levels : Nat) : Prop where
  greatest : IsGreatest (Progress.depths maxNesting (.start .ty ts)) levels
  needs : ∃ us, tokenize t.text = .ok us ∧ ∀ room, ofTokens room us = .ok t ↔ t.nesting ≤ room
  bound : t.nesting ≤ levels
  again : parse t.text = .ok t

theorem exists_reprints {source : String} {ts : List Token} {t : Ty} (hts : tokenize source = .ok ts)
    (h : ofTokens maxNesting ts = .ok t) : ∃ levels, Reprints ts t levels := by
  obtain ⟨ls, hspells, hmap⟩ := spells_of_tokenize hts
  have hdone : Lexeme.done ∉ ls := fun hmem => hspells.isWritable _ hmem
  have hbound {room : Nat} (h : ofTokens room ts = .ok t) : t.nesting ≤ room := by
    obtain ⟨level, depth, hrendering, hdepth⟩ := rendering_of_ofTokens hmap hdone h
    exact Nat.lt_of_le_of_lt hrendering.depth_le.1 hdepth
  obtain ⟨levels, hgreatest, hread⟩ := Progress.exists_isGreatest_of_ok (exists_turn_ofTokens · ts)
    (fun hroom h => ofTokens_of_le hroom h) h
  obtain ⟨us, hus, humap⟩ := tokenize_of_spells t.spelled_phrase.text
  exact ⟨levels, hgreatest, ⟨us, hus, ofTokens_eq_ok_iff humap⟩, hbound hread,
    (parse_of_spells t.rendering_phrase t.spelled_phrase.text).1 (hbound h)⟩

end Ty

namespace Expr

theorem ofTokens_of_le {room room' : Nat} (hroom : room ≤ room') {ts : List Token} {e : Expr}
    (h : ofTokens room ts = .ok e) : ofTokens room' ts = .ok e :=
  (repeats_read hroom lowest (.start ts) (.start ts) rfl).closed h

theorem ofTokens_eq_ok_iff {e : Expr} {us : List Token} (hus : us.map Token.lexeme = e.phrase.lexemes ++ [.done])
    (room : Nat) : ofTokens room us = .ok e ↔ e.nesting ≤ room := by
  obtain ⟨hfits, hdeep⟩ := ofTokens_of_rendering (e.rendering_phrase False) hus room
  exact eq_ok_iff_of_tooDeep hfits hdeep

/-- An expression that was read with so many levels open at most: it can be printed, and its printed form needs
less than half as many again and is read back if there are so many. -/
structure Reprints (ts : List Token) (e : Expr) (levels : Nat) : Prop where
  greatest : IsGreatest (Progress.depths maxNesting (.start .expr ts)) levels
  wellFormed : e.WellFormed
  needs : ∃ us, tokenize e.text = .ok us ∧ ∀ room, ofTokens room us = .ok e ↔ e.nesting ≤ room
  bound : e.nesting ≤ levels + (levels - 1) / 2
  again : levels ≤ 67 → parse e.text = .ok e
  never_other : parse e.text = .ok e ∨ TooDeep (parse e.text)

theorem exists_reprints {source : String} {ts : List Token} {e : Expr} (hts : tokenize source = .ok ts)
    (h : ofTokens maxNesting ts = .ok e) : ∃ levels, Reprints ts e levels := by
  obtain ⟨ls, hspells, hmap⟩ := spells_of_tokenize hts
  have hdone : Lexeme.done ∉ ls := fun hmem => hspells.isWritable _ hmem
  obtain ⟨levels, hgreatest, hread⟩ := Progress.exists_isGreatest_of_ok (exists_turn_ofTokens · ts)
    (fun hroom h => ofTokens_of_le hroom h) h
  obtain ⟨level, depth, hrendering, hdepth⟩ := rendering_of_ofTokens hmap hdone hread
  have hwell := wellFormed_of_bare_eq hspells.isWritable hrendering.bare_eq
  have hbound : e.nesting ≤ levels + (levels - 1) / 2 := by
    have hprints := hrendering.printsWithin.all
    rw [nesting]
    omega
  obtain ⟨us, hus, humap⟩ := tokenize_of_spells (spelled_phrase hwell).text
  obtain ⟨hfits, hdeep⟩ := parse_of_writes (writes_text hwell)
  refine ⟨levels, hgreatest, hwell, ⟨us, hus, ofTokens_eq_ok_iff humap⟩, hbound, fun hlevels => ?_, ?_⟩
  · refine hfits ?_
    rw [nesting] at hbound
    rw [maxNesting]
    omega
  · by_cases hlt : e.depth < maxNesting
    · exact .inl (hfits hlt)
    · exact .inr (hdeep hlt)

end Expr

/-- Printing again what was read makes the nesting deeper by less than half. If `levels` is the most that are
open at any time while a source is read, the printed form of the result needs `levels + (levels - 1) / 2` at
most; it is read back to the same tree or refused for its nesting. The printed form of a type needs no more
than its source. -/
theorem parse_reprints :
    (∀ (source : String) (e : Expr), Expr.parse source = .ok e →
      ∃ ts levels, tokenize source = .ok ts ∧ Expr.Reprints ts e levels) ∧
    ∀ (source : String) (t : Ty), Ty.parse source = .ok t →
      ∃ ts levels, tokenize source = .ok ts ∧ Ty.Reprints ts t levels := by
  constructor
  · intro source e h
    obtain ⟨ts, hts, hread⟩ := exists_of_bind_eq_ok h
    obtain ⟨levels, hlevels⟩ := Expr.exists_reprints hts hread
    exact ⟨ts, levels, hts, hlevels⟩
  · intro source t h
    obtain ⟨ts, hts, hread⟩ := exists_of_bind_eq_ok h
    obtain ⟨levels, hlevels⟩ := Ty.exists_reprints hts hread
    exact ⟨ts, levels, hts, hlevels⟩

/-- An open binder as an argument, whose three levels are printed as four, and a type in parentheses that are
dropped. -/
theorem parse_reprints_lambda :
    let applied := Expr.apply (.identifier "f") (.lambda "x" (.identifier "x"))
    Expr.parse "f \\x. x" = .ok applied ∧ applied.nesting = 3 + (3 - 1) / 2 ∧
      (∃ ts levels, tokenize "f \\x. x" = .ok ts ∧ Expr.Reprints ts applied levels) ∧
      Ty.parse "(~unit)" = .ok (.stream (.base .unit)) ∧
      ∃ ts levels, tokenize "(~unit)" = .ok ts ∧ Ty.Reprints ts (.stream (.base .unit)) levels := by
  intro applied
  have happlied : Expr.parse "f \\x. x" = .ok applied := by decide +kernel
  have hgrouped : Ty.parse "(~unit)" = .ok (.stream (.base .unit)) := by decide +kernel
  exact ⟨happlied, rfl, parse_reprints.1 _ _ happlied, hgrouped, parse_reprints.2 _ _ hgrouped⟩

end SampleStream
