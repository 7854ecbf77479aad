import SampleStream.Proofs.Layout
import SampleStream.Proofs.Parsing

/-!
# Parentheses that are needed

Whatever a reader takes for a tree has, in front of the first lexeme of each operand that needs parentheses, at
least as many opening parentheses as the printed form has there. So no pair that the printer writes for such an
operand can be left out, whatever the operators around it would then regroup with (`parse_without_pair`).
`fronts` counts the opening parentheses in front of each lexeme.
-/

namespace SampleStream

open Phrase

/-- How many opening parentheses stand directly in front of each lexeme that is no parenthesis, when there are
`k` in front of them all. -/
def fronts : Nat → List Lexeme → List Nat
  | _, [] => []
  | k, l :: ls =>
    if l = .symbol .leftParen then fronts (k + 1) ls
    else if l = .symbol .rightParen then fronts 0 ls
    else k :: fronts 0 ls

/-- How many of them stand at the end. -/
def pending : Nat → List Lexeme → Nat
  | k, [] => k
  | k, l :: ls => if l = .symbol .leftParen then pending (k + 1) ls else pending 0 ls

section Counting

variable {k k' : Nat} {l : Lexeme} {ls ms : List Lexeme}

@[simp] theorem fronts_nil : fronts k [] = [] := rfl

@[simp] theorem pending_nil : pending k [] = k := rfl

@[simp] theorem fronts_leftParen : fronts k (.symbol .leftParen :: ls) = fronts (k + 1) ls := rfl

@[simp] theorem fronts_rightParen : fronts k (.symbol .rightParen :: ls) = fronts 0 ls := rfl

@[simp] theorem pending_leftParen : pending k (.symbol .leftParen :: ls) = pending (k + 1) ls := rfl

@[simp] theorem pending_rightParen : pending k (.symbol .rightParen :: ls) = pending 0 ls := rfl

theorem Lexeme.paren_cases (l : Lexeme) :
    l = .symbol .leftParen ∨ l = .symbol .rightParen ∨ l.isParen = false := by
  by_cases hleft : l = .symbol .leftParen
  · exact .inl hleft
  · by_cases hright : l = .symbol .rightParen
    · exact .inr (.inl hright)
    · exact .inr (.inr (by simp [Lexeme.isParen, hleft, hright]))

@[simp] theorem fronts_cons (h : l.isParen = false) : fronts k (l :: ls) = k :: fronts 0 ls := by
  simp [Lexeme.isParen] at h
  simp [fronts, h]

@[simp] theorem pending_cons (h : l.isParen = false) : pending k (l :: ls) = pending 0 ls := by
  simp [Lexeme.isParen] at h
  simp [pending, h]

theorem pending_append : pending k (ls ++ ms) = pending (pending k ls) ms := by
  induction ls generalizing k with
  | nil => rfl
  | cons l ls ih =>
    obtain rfl | rfl | hl := l.paren_cases
    · simp [ih]
    · simp [ih]
    · simp [hl, ih]

theorem fronts_append : fronts k (ls ++ ms) = fronts k ls ++ fronts (pending k ls) ms := by
  induction ls generalizing k with
  | nil => rfl
  | cons l ls ih =>
    obtain rfl | rfl | hl := l.paren_cases
    · simp [ih]
    · simp [ih]
    · simp [hl, ih]

theorem length_fronts : (fronts k ls).length = (bare ls).length := by
  induction ls generalizing k with
  | nil => rfl
  | cons l ls ih =>
    obtain rfl | rfl | hl := l.paren_cases
    · simp [ih]
    · simp [ih]
    · simp [hl, ih]

theorem pending_replicate (n : Nat) : pending k (List.replicate n (.symbol .leftParen)) = k + n := by
  induction n generalizing k with
  | zero => rfl
  | succ n ih =>
    rw [List.replicate_succ, pending_leftParen, ih]
    omega

-- Behind a lexeme that is no parenthesis, it makes no difference what stood in front of it.
theorem pending_le (h : bare ls = [] → k ≤ k') : pending k ls ≤ pending k' ls := by
  induction ls generalizing k k' with
  | nil => exact h rfl
  | cons l ls ih =>
    obtain rfl | rfl | hl := l.paren_cases
    · exact ih fun hbare => Nat.succ_le_succ (h (by simpa using hbare))
    · exact Nat.le_refl _
    · simp [hl]

end Counting

namespace Term

theorem Rendered.bare_eq {t : Term} {level : Nat} {ls : List Lexeme} (h : t.Rendered level ls) :
    bare ls = bare t.phrase.lexemes := by
  cases t with
  | ty t =>
    obtain ⟨depth, hrendering⟩ := h
    exact hrendering.bare_eq
  | expr e =>
    obtain ⟨depth, hrendering⟩ := h
    exact hrendering.bare_eq

theorem rendered_phrase (t : Term) : t.Rendered t.level t.phrase.lexemes := by
  cases t with
  | ty t => exact ⟨_, t.rendering_phrase⟩
  | expr e => exact ⟨_, e.rendering_phrase True⟩

end Term

theorem Ty.Rendering.pending_eq {t : Ty} {level depth : Nat} {ls : List Lexeme}
    (h : Rendering t level depth ls) (k : Nat) : pending k ls = 0 := by
  induction h generalizing k with
  | base b => simp
  | stream inner hmin ih => simp [ih]
  | operation op left hleft right hright iha ihb => cases op <;> simp [pending_append, Operator.symbol, ihb]
  | grouped inner ih => simp [pending_append]

theorem Expr.Rendering.pending_eq {lax : Prop} {e : Expr} {level depth : Nat} {ls : List Lexeme}
    (h : Rendering lax e level depth ls) (k : Nat) : pending k ls = 0 := by
  induction h generalizing k with
  | identifier x => simp
  | index n => simp
  | sample s => simp
  | apply fn hfn arg harg ihf ihx => simp [pending_append, ihx]
  | cons head hhead tail htail ihh iht => simp [pending_append, iht]
  | annotate inner hinner ty ih => simp [pending_append, ty.pending_eq]
  | unary form inner hinner ih => cases form <;> simp [Unary.lexeme, ih]
  | binder form x inner ih => cases form <;> simp [Binder.symbol, ih]
  | letIn x value inner ihv ihb => simp [pending_append, ihb]
  | unpair x y scrutinee inner ihs ihb => simp [pending_append, ihb]
  | pair first second iha ihb => simp [pending_append]
  | caseOf x y scrutinee left right ihs ihl ihr => simp [pending_append]
  | grouped inner ih => simp [pending_append]

theorem Term.Rendered.pending_eq {t : Term} {level : Nat} {ls : List Lexeme} (h : t.Rendered level ls)
    (k : Nat) : pending k ls = 0 := by
  cases t with
  | ty t =>
    obtain ⟨depth, hrendering⟩ := h
    exact hrendering.pending_eq k
  | expr e =>
    obtain ⟨depth, hrendering⟩ := h
    exact hrendering.pending_eq k

/-- The lexemes begin with `n` opening parentheses and a lexeme that is none. -/
def Leads (n : Nat) (ls : List Lexeme) : Prop :=
  ∃ ns, ∀ k, fronts k ls = (k + n) :: ns

namespace Leads

variable {n : Nat} {l : Lexeme} {ls : List Lexeme}

theorem cons (hl : l.isParen = false) (ls : List Lexeme) : Leads 0 (l :: ls) :=
  ⟨fronts 0 ls, fun k => by simp [hl]⟩

theorem leftParen (h : Leads n ls) : Leads (n + 1) (.symbol .leftParen :: ls) := by
  obtain ⟨ns, hns⟩ := h
  exact ⟨ns, fun k => by rw [fronts_leftParen, hns, Nat.add_right_comm]; rfl⟩

theorem append (h : Leads n ls) (ms : List Lexeme) : Leads n (ls ++ ms) := by
  obtain ⟨ns, hns⟩ := h
  -- what is pending behind a lexeme does not depend on what is in front of it
  have hpending (k : Nat) : pending k ls = pending 0 ls := by
    have hbare : bare ls ≠ [] := by
      intro hnil
      have hlength : (fronts 0 ls).length = (bare ls).length := length_fronts
      rw [hns, hnil] at hlength
      cases hlength
    exact Nat.le_antisymm (pending_le fun h => absurd h hbare) (pending_le fun h => absurd h hbare)
  exact ⟨ns ++ fronts (pending 0 ls) ms, fun k => by rw [fronts_append, hns, hpending, List.cons_append]⟩

theorem grouped {p : Phrase} (h : Leads n p.lexemes) (needed : Bool) :
    Leads (n + needed.toNat) (Phrase.grouped needed p).lexemes := by
  cases needed with
  | false => exact h
  | true =>
    rw [Phrase.grouped, if_pos rfl, lexemes_append]
    exact h.leftParen.append _

end Leads

/-- The lexemes begin with no fewer opening parentheses than the printed term does, and with more if they are
seen from another level. -/
def Term.LeadsBeyond (t : Term) (level : Nat) (ls : List Lexeme) : Prop :=
  ∃ m n, Leads m t.phrase.lexemes ∧ Leads n ls ∧ m ≤ n ∧ (level ≠ t.level → m < n)

namespace Term.LeadsBeyond

variable {t u : Term} {level min : Nat} {l : Lexeme} {ls ms ps : List Lexeme}

theorem own (ht : t.phrase.lexemes = l :: ps) (hl : l.isParen = false) (hlevel : level = t.level) :
    t.LeadsBeyond level (l :: ls) :=
  ⟨0, 0, ht ▸ .cons hl ps, .cons hl ls, Nat.le_refl _, fun hne => absurd hlevel hne⟩

-- A left operand comes first in both.
theorem left (h : u.LeadsBeyond level ls) (hmin : min ≤ level)
    (ht : t.phrase.lexemes = (Phrase.grouped (u.level < min) u.phrase).lexemes ++ ps) :
    t.LeadsBeyond t.level (ls ++ ms) := by
  obtain ⟨m, n, hm, hn, hle, hlt⟩ := h
  refine ⟨_, n, ht ▸ (hm.grouped _).append ps, hn.append ms, ?_, fun hne => absurd rfl hne⟩
  by_cases hneeded : u.level < min
  · have hmore := hlt (by omega)
    simpa [hneeded] using Nat.succ_le_of_lt hmore
  · simpa [hneeded] using hle

theorem grouped (h : t.LeadsBeyond level ls) (outer : Nat) :
    t.LeadsBeyond outer (.symbol .leftParen :: ls ++ [.symbol .rightParen]) := by
  obtain ⟨m, n, hm, hn, hle, -⟩ := h
  exact ⟨m, n + 1, hm, hn.leftParen.append _, Nat.le_succ_of_le hle, fun _ => Nat.lt_succ_of_le hle⟩

end Term.LeadsBeyond

theorem Ty.Rendering.leadsBeyond {t : Ty} {level depth : Nat} {ls : List Lexeme}
    (h : Rendering t level depth ls) : (Term.ty t).LeadsBeyond level ls := by
  induction h with
  | base b => exact .own rfl rfl rfl
  | stream inner hmin ih => exact .own rfl rfl rfl
  | operation op left hleft right hright iha ihb =>
    cases op <;> exact iha.left hleft (lexemes_append _ _)
  | grouped inner ih => exact ih.grouped _

theorem Expr.Rendering.leadsBeyond {e : Expr} {level depth : Nat} {ls : List Lexeme}
    (h : Rendering True e level depth ls) : (Term.expr e).LeadsBeyond level ls := by
  induction h with
  | identifier x => exact .own rfl (by simp) rfl
  | index n => exact .own rfl (by simp) rfl
  | sample s => exact .own rfl (by simp) rfl
  | apply fn hfn arg harg ihf ihx => exact ihf.left hfn (lexemes_append _ _)
  | cons head hhead tail htail ihh iht => exact ihh.left hhead (lexemes_append _ _)
  | annotate inner hinner ty ih => exact ih.left hinner (lexemes_append _ _)
  | unary form inner hinner ih => cases form <;> exact .own rfl (by simp [Unary.lexeme]) rfl
  | binder form x inner ih => cases form <;> exact .own rfl (by simp [Binder.symbol]) rfl
  | letIn x value inner ihv ihb => exact .own rfl (by simp) rfl
  | unpair x y scrutinee inner ihs ihb => exact .own rfl (by simp) rfl
  | @pair a b aLevel aDepth bLevel bDepth ls ms first second iha ihb =>
    -- the parenthesis of the pair is in front of the first part in both
    obtain ⟨m, n, hm, hn, hle, -⟩ := iha
    refine ⟨m + 1, n + 1, ?_, ?_, Nat.succ_le_succ hle, fun hne => absurd rfl hne⟩
    · simpa [Term.phrase, phrase, Phrase.symbol] using
        hm.leftParen.append (.symbol .comma :: (b.phrase.lexemes ++ [.symbol .rightParen]))
    · simpa using hn.leftParen.append (.symbol .comma :: (ms ++ [.symbol .rightParen]))
  | caseOf x y scrutinee left right ihs ihl ihr => exact .own rfl (by simp) rfl
  | grouped inner ih => exact ih.grouped _

theorem Term.Rendered.leadsBeyond {t : Term} {level : Nat} {ls : List Lexeme} (h : t.Rendered level ls) :
    t.LeadsBeyond level ls := by
  cases t with
  | ty t =>
    obtain ⟨depth, hrendering⟩ := h
    exact hrendering.leadsBeyond
  | expr e =>
    obtain ⟨depth, hrendering⟩ := h
    exact hrendering.leadsBeyond

/-- The parenthesis in front of a phrase that needs one. -/
def opening (needed : Bool) : Phrase :=
  if needed then [symbol .leftParen] else []

def closing (needed : Bool) : Phrase :=
  if needed then [symbol .rightParen] else []

theorem grouped_eq (needed : Bool) (p : Phrase) : grouped needed p = opening needed ++ p ++ closing needed := by
  cases needed with
  | false => exact (List.append_nil p).symm
  | true => rfl

/-- `t.Pair before inside after`: a pair of parentheses of the printed term, put around the phrase `inside` of a
part whose level is below the minimum of its place. The part is a type, an expression that is no binder, or the
left operand of an operator; other binders are read without parentheses too. -/
inductive Term.Pair : Term → Phrase → Phrase → Phrase → Prop
  | own {t u : Term} {side : Side} {min : Nat} {left right : List Piece}
      (hlayout : t.layout = left ++ .operand side min u :: right) (hlevel : u.level < min)
      (hside : side = .left ∨ u.isBinder = false) : Pair t (written left) u.phrase (written right)
  | within {t u : Term} {side : Side} {min : Nat} {left right : List Piece} {before inside after : Phrase}
      (hlayout : t.layout = left ++ .operand side min u :: right) (inner : Pair u before inside after) :
      Pair t (written left ++ opening (u.level < min) ++ before) inside
        (after ++ closing (u.level < min) ++ written right)

namespace Term

variable {t u : Term} {side : Side} {min : Nat} {left right : List Piece} {before inside after : Phrase}

theorem phrase_of_layout (hlayout : t.layout = left ++ .operand side min u :: right) :
    t.phrase = written left ++ grouped (u.level < min) u.phrase ++ written right := by
  rw [phrase_eq, hlayout, written_append, written_operand, List.append_assoc]
  rfl

/-- The printed term with the pair in it. -/
theorem Pair.phrase_eq (h : t.Pair before inside after) :
    t.phrase = before ++ symbol .leftParen :: inside ++ symbol .rightParen :: after := by
  induction h with
  | own hlayout hlevel hside =>
    rw [phrase_of_layout hlayout, decide_eq_true hlevel]
    simp [grouped]
  | within hlayout inner ih =>
    rw [phrase_of_layout hlayout, grouped_eq, ih]
    simp

-- Whatever is spelled may stand for an operand.
theorem WellFormed.spelled_replaced (h : t.WellFormed)
    (hlayout : t.layout = left ++ .operand side min u :: right) {p : Phrase} (hp : p.Spelled) :
    Spelled (written left ++ p ++ written right) := by
  have hoperands : ∀ piece ∈ t.layout, Stands piece piece.phrase := by
    intro piece hpiece
    cases piece with
    | fixed q => rfl
    | operand side min u => exact (h.operand hpiece).spelled.grouped _
  rw [hlayout] at hoperands
  have hstands (pieces : List Piece) (hall : ∀ piece ∈ pieces, Stands piece piece.phrase) :
      List.Forall₂ Stands pieces (pieces.map Piece.phrase) :=
    List.forall₂_map_right_iff.mpr (List.forall₂_same.mpr hall)
  have hleft := hstands left fun piece hpiece => hoperands piece (List.mem_append_left _ hpiece)
  have hright := hstands right fun piece hpiece =>
    hoperands piece (List.mem_append_right _ (List.mem_cons_of_mem _ hpiece))
  have hjoined := h.joined
  rw [hlayout] at hjoined
  have hspelled := hjoined.spelled (List.rel_append hleft (.cons hp hright))
  simpa [written, List.flatMap_def] using hspelled

/-- The printed term without the pair is made of the same lexemes. -/
theorem Pair.spelled (h : t.Pair before inside after) (ht : t.WellFormed) :
    (before ++ inside ++ after).Spelled := by
  induction h with
  | @own t u side min left right hlayout hlevel hside =>
    have hu : u.WellFormed := ht.operand (hlayout ▸ List.mem_append_right _ List.mem_cons_self)
    exact ht.spelled_replaced hlayout hu.spelled
  | @within t u side min left right before inside after hlayout inner ih =>
    have hu : u.WellFormed := ht.operand (hlayout ▸ List.mem_append_right _ List.mem_cons_self)
    have hspelled := ht.spelled_replaced hlayout ((ih hu).grouped (u.level < min))
    simpa [grouped_eq] using hspelled

end Term

namespace Realizes

variable {left right : List Piece} {side : Side} {min : Nat} {u : Term} {ls : List Lexeme}

-- A rendering of the operand stands between what is realized in front of it and what is behind.
theorem split (h : Realizes (left ++ .operand side min u :: right) ls) : ∃ front part behind level,
    ls = front ++ (part ++ behind) ∧ Realizes left front ∧ u.Rendered level part ∧
      (u.level < min → (side = .left ∨ u.isBinder = false) → level ≠ u.level) := by
  induction left generalizing ls with
  | nil =>
    cases h with
    | operand part hlevel behind => exact ⟨[], _, _, _, rfl, .nil, part, hlevel⟩
  | cons piece left ih =>
    cases h with
    | fixed p rest =>
      obtain ⟨front, part, behind, level, rfl, hleft, hu, hlevel⟩ := ih rest
      exact ⟨_, part, behind, level, (List.append_assoc _ _ _).symm, .fixed p hleft, hu, hlevel⟩
    | operand first hfirst rest =>
      obtain ⟨front, part, behind, level, rfl, hleft, hu, hlevel⟩ := ih rest
      exact ⟨_, part, behind, level, (List.append_assoc _ _ _).symm, .operand first hfirst hleft, hu, hlevel⟩

theorem bare_eq {pieces : List Piece} (h : Realizes pieces ls) : bare ls = bare (written pieces).lexemes := by
  induction h with
  | nil => rfl
  | fixed p behind ih => simp [ih]
  | operand part hlevel behind ih => simp [ih, part.bare_eq, Piece.phrase]

-- The printed pieces leave no more parentheses open at their end.
theorem pending_le {pieces : List Piece} (h : Realizes pieces ls) {k k' : Nat}
    (hk : bare (written pieces).lexemes = [] → k ≤ k') :
    pending k (written pieces).lexemes ≤ pending k' ls := by
  induction h generalizing k k' with
  | nil => exact hk rfl
  | @fixed rest ls p behind ih =>
    rw [written_fixed, lexemes_append, pending_append, pending_append]
    refine ih fun hrest => SampleStream.pending_le fun hp => hk ?_
    simp [hp, hrest]
  | @operand side min level u rest ls ms part hlevel behind ih =>
    have hclosed : pending k (Piece.operand side min u).phrase.lexemes = 0 := by
      by_cases hneeded : u.level < min
      · simp [Piece.phrase, grouped, hneeded, pending_append, symbol]
      · simp [Piece.phrase, grouped, hneeded, u.rendered_phrase.pending_eq]
    rw [written_operand, lexemes_append, pending_append, pending_append, hclosed]
    exact ih fun _ => Nat.zero_le _

end Realizes

/-- At this index the first list has a smaller number. -/
def Fewer (index : Nat) (ms ns : List Nat) : Prop :=
  ∃ m n, ms[index]? = some m ∧ ns[index]? = some n ∧ m < n

theorem Fewer.irrefl {index : Nat} {ns : List Nat} : ¬Fewer index ns ns := by
  rintro ⟨m, n, hm, hn, hlt⟩
  rw [hm] at hn
  cases hn
  exact absurd hlt (Nat.lt_irrefl m)

-- What stands in front and behind moves the index only.
theorem Fewer.between {index k k' : Nat} {front front' part part' : List Lexeme}
    (hfront : (bare front).length = (bare front').length)
    (h : Fewer index (fronts (pending k front) part) (fronts (pending k' front') part'))
    (behind behind' : List Lexeme) : Fewer ((bare front).length + index)
      (fronts k (front ++ (part ++ behind))) (fronts k' (front' ++ (part' ++ behind'))) := by
  obtain ⟨m, n, hm, hn, hlt⟩ := h
  have hget {k : Nat} {front part behind : List Lexeme} {m : Nat}
      (hm : (fronts (pending k front) part)[index]? = some m) :
      (fronts k (front ++ (part ++ behind)))[(bare front).length + index]? = some m := by
    have hindex := (List.getElem?_eq_some_iff.mp hm).1
    rw [fronts_append, List.getElem?_append_right (by rw [length_fronts]; omega), length_fronts,
      Nat.add_sub_cancel_left, fronts_append, List.getElem?_append_left hindex, hm]
  exact ⟨m, n, hget hm, hfront ▸ hget hn, hlt⟩

namespace Term

variable {t : Term} {before inside after : Phrase}

-- A binder begins with its own lexemes, so that none of its parts comes first.
theorem layout_of_isBinder (ht : t.isBinder = true) :
    ∃ p rest, t.layout = .fixed p :: rest ∧ bare p.lexemes ≠ [] := by
  cases t with
  | ty t => cases ht
  | expr e =>
    cases e with
    | lambda x body => exact ⟨_, _, rfl, by simp [symbol]⟩
    | fix x body => exact ⟨_, _, rfl, by simp [symbol]⟩
    | letIn x v body => exact ⟨_, _, rfl, by simp [keyword]⟩
    | unpair x y s body => exact ⟨_, _, rfl, by simp [keyword]⟩
    | _ => exact absurd (beq_iff_eq.mp ht) (by simp [Expr.level, Expr.lowest, Expr.atomLevel,
        Expr.prefixLevel, Expr.Operator.fixity])

theorem bare_ne_nil_of_isBinder {side : Side} {min : Nat} {u : Term} {left right : List Piece}
    (ht : t.isBinder = true) (hlayout : t.layout = left ++ .operand side min u :: right) :
    bare (written left).lexemes ≠ [] := by
  obtain ⟨p, rest, hfixed, hp⟩ := layout_of_isBinder ht
  rw [hlayout] at hfixed
  cases left with
  | nil => cases hfixed
  | cons piece left =>
    cases hfixed
    simp [hp]

theorem Pair.bare_ne_nil_of_isBinder (h : t.Pair before inside after) (ht : t.isBinder = true) :
    bare before.lexemes ≠ [] := by
  cases h with
  | own hlayout hlevel hside => exact Term.bare_ne_nil_of_isBinder ht hlayout
  | within hlayout inner =>
    have hleft := Term.bare_ne_nil_of_isBinder ht hlayout
    simp [hleft]

theorem bare_opening (needed : Bool) : bare (opening needed).lexemes = [] := by
  cases needed <;> rfl

theorem pending_opening (k : Nat) (needed : Bool) : pending k (opening needed).lexemes = k + needed.toNat := by
  cases needed <;> rfl

/-- The printed term may have one more parenthesis in front of it than the rendering has, if that is seen from
another level and so begins with one of its own. -/
def Balances (t : Term) (level k k' : Nat) : Prop :=
  k ≤ k' ∨ level ≠ t.level ∧ k ≤ k' + 1

section Displayed

variable {left : List Piece} {front : List Lexeme} {level n k k' : Nat} (h : Realizes left front)

include h

-- The parentheses around a rendering of the whole term add to those in front of its operands.
theorem pending_le_displayed (hn : level ≠ t.level → 0 < n)
    (hk : bare (written left).lexemes = [] → t.Balances level k k') :
    pending k (written left).lexemes ≤ pending k' (List.replicate n (.symbol .leftParen) ++ front) := by
  rw [pending_append, pending_replicate]
  apply h.pending_le
  intro hbare
  obtain hle | ⟨hne, hle⟩ := hk hbare
  · omega
  · have hpos := hn hne
    omega

theorem bare_displayed (n : Nat) :
    bare (List.replicate n (.symbol .leftParen) ++ front) = bare (written left).lexemes := by
  have hparens : bare (List.replicate n (Lexeme.symbol .leftParen)) = [] := by
    simp [bare]
  rw [bare_append, hparens, h.bare_eq, List.nil_append]

end Displayed

/-- Without the pair, fewer opening parentheses are in front of the lexeme that the pair is in front of than
in any rendering of the term. -/
theorem Pair.fewer (h : t.Pair before inside after) : ∀ {level : Nat} {ls : List Lexeme},
    t.Rendered level ls → ∀ {k k' : Nat}, (bare before.lexemes = [] → t.Balances level k k') →
    Fewer (bare before.lexemes).length (fronts k (before ++ inside ++ after).lexemes) (fronts k' ls) := by
  induction h with
  | @own t u side min left right hlayout hlevel hside =>
    intro level ls hls k k' hk
    obtain ⟨n, body, behind, rfl, hbody, hn⟩ := hls.displays
    rw [hlayout] at hbody
    obtain ⟨front, part, after, inner, rfl, hleft, hpart, hinner⟩ := hbody.split
    obtain ⟨m, m', ⟨ns, hns⟩, ⟨ns', hns'⟩, -, hlt⟩ := hpart.leadsBeyond
    have hle := pending_le_displayed hleft hn hk
    have hmore := hlt (hinner hlevel hside)
    have hfewer : Fewer 0 (fronts (pending k (written left).lexemes) u.phrase.lexemes)
        (fronts (pending k' (List.replicate n (.symbol .leftParen) ++ front)) part) :=
      ⟨_, _, by rw [hns]; rfl, by rw [hns']; rfl, by omega⟩
    have hbetween := hfewer.between (by rw [bare_displayed hleft]) (written right).lexemes (after ++ behind)
    simpa using hbetween
  | @within t u side min left right before inside after hlayout inner ih =>
    intro level ls hls k k' hk
    obtain ⟨n, body, behind, rfl, hbody, hn⟩ := hls.displays
    rw [hlayout] at hbody
    obtain ⟨front, part, rest, innerLevel, rfl, hleft, hpart, hinner⟩ := hbody.split
    have hfewer : Fewer (bare before.lexemes).length
        (fronts (pending k (written left ++ opening (u.level < min)).lexemes)
          (before ++ inside ++ after).lexemes)
        (fronts (pending k' (List.replicate n (.symbol .leftParen) ++ front)) part) := by
      apply ih hpart
      intro hbare
      -- the pair is at the very front of the operand, which is no binder then
      have hbinder : u.isBinder = false := by
        by_contra hbinder
        exact inner.bare_ne_nil_of_isBinder (by simpa using hbinder) hbare
      have hle := pending_le_displayed hleft hn fun hnil => hk (by simp [bare_opening, hnil, hbare])
      rw [lexemes_append, pending_append, pending_opening]
      by_cases hneeded : u.level < min
      · refine .inr ⟨hinner hneeded (.inr hbinder), ?_⟩
        simpa [hneeded] using hle
      · refine .inl ?_
        simpa [hneeded] using hle
    have hbetween := hfewer.between (by rw [bare_displayed hleft]; simp [bare_opening])
      (closing (u.level < min) ++ written right).lexemes (rest ++ behind)
    simpa [bare_opening] using hbetween

-- So the lexemes that are left are no rendering of the term.
theorem Pair.not_rendered (h : t.Pair before inside after) (level : Nat) :
    ¬t.Rendered level (before ++ inside ++ after).lexemes :=
  fun hrendered => Fewer.irrefl (h.fewer hrendered fun _ => .inl (Nat.le_refl 0))

-- The text without the pair is cut into the lexemes that are left.
theorem Pair.exists_tokens (h : t.Pair before inside after) (ht : t.WellFormed) :
    ∃ ts, tokenize (Phrase.text (before ++ inside ++ after)) = .ok ts ∧
      ts.map Token.lexeme = (before ++ inside ++ after).lexemes ++ [.done] ∧
      Lexeme.done ∉ (before ++ inside ++ after).lexemes := by
  have hspells := (h.spelled ht).text
  obtain ⟨ts, hts, hmap⟩ := tokenize_of_spells hspells
  exact ⟨ts, hts, hmap, fun hdone => hspells.isWritable _ hdone⟩

end Term

-- A part of a layout that is written stands in one of its pieces.
theorem exists_piece_of_written {part : Phrase.Part} {pieces : List Piece} {before rest : Phrase}
    (h : written pieces = before ++ part :: rest) : ∃ left piece right front behind,
      pieces = left ++ piece :: right ∧ piece.phrase = front ++ part :: behind ∧
        before = written left ++ front := by
  induction pieces generalizing before with
  | nil => simp at h
  | cons piece pieces ih =>
    have hlater (before : Phrase) (hwritten : written pieces = before ++ part :: rest) :
        ∃ left next right front behind, piece :: pieces = left ++ next :: right ∧
          next.phrase = front ++ part :: behind ∧ piece.phrase ++ before = written left ++ front := by
      obtain ⟨left, next, right, front, behind, rfl, hnext, rfl⟩ := ih hwritten
      exact ⟨piece :: left, next, right, front, behind, rfl, hnext, by simp [written]⟩
    obtain ⟨later, rfl, hrest⟩ | ⟨front, hpiece, hrest⟩ := List.append_eq_append_iff.mp h
    · exact hlater later hrest
    · cases front with
      | nil =>
        rw [List.append_nil] at hpiece
        simpa [hpiece] using hlater [] hrest.symm
      | cons first front =>
        cases hrest
        exact ⟨[], piece, pieces, before, front, rfl, hpiece, rfl⟩

-- An opening parenthesis of a phrase in parentheses is the first, or it is in the phrase.
theorem leftParen_cases {needed : Bool} {p front behind : Phrase}
    (h : grouped needed p = front ++ symbol .leftParen :: behind) :
    needed = true ∧ front = [] ∨
      ∃ inner rest, p = inner ++ symbol .leftParen :: rest ∧ front = opening needed ++ inner := by
  cases needed with
  | false => exact .inr ⟨front, behind, h, rfl⟩
  | true =>
    cases front with
    | nil => exact .inl ⟨rfl, rfl⟩
    | cons first front =>
      obtain ⟨rfl, hrest⟩ := List.cons_eq_cons.mp h
      obtain ⟨later, -, hlast⟩ | ⟨inner, hp, hinner⟩ := List.append_eq_append_iff.mp hrest
      · -- the last parenthesis closes
        cases later <;> simp [symbol] at hlast
      · cases inner with
        | nil => simp [symbol] at hinner
        | cons first inner =>
          cases hinner
          exact .inr ⟨front, inner, hp, rfl⟩

namespace Ty

theorem leftParen_not_mem_fixed {t : Ty} {p : Phrase} (h : .fixed p ∈ t.layout) :
    Phrase.symbol .leftParen ∉ p := by
  have hjoined (op : Operator) (a b : Ty) (h : .fixed p ∈ layout.joined op a b) :
      Phrase.symbol .leftParen ∉ p := by
    simp [layout.joined] at h
    cases op <;> simp [h, Phrase.symbol, Operator.symbol]
  cases t with
  | base b => simp_all [layout, Phrase.symbol, name]
  | stream t => simp_all [layout, Phrase.symbol]
  | function a b => exact hjoined .function a b h
  | product a b => exact hjoined .product a b h
  | sum a b => exact hjoined .sum a b h

theorem operand_cases {t : Ty} {side : Side} {min : Nat} {u : Term} (h : .operand side min u ∈ t.layout) :
    ∃ s : Ty, u = .ty s ∧ sizeOf s < sizeOf t := by
  have hjoined (op : Operator) (a b : Ty) (h : .operand side min u ∈ layout.joined op a b) :
      u = .ty a ∨ u = .ty b := by
    simp [layout.joined] at h
    obtain ⟨-, -, rfl⟩ | ⟨-, -, rfl⟩ := h
    · exact .inl rfl
    · exact .inr rfl
  cases t with
  | base b => simp [layout] at h
  | stream t =>
    simp [layout] at h
    exact ⟨t, h.2.2, by simp⟩
  | function a b =>
    obtain rfl | rfl := hjoined .function a b h <;> exact ⟨_, rfl, by rw [function.sizeOf_spec]; omega⟩
  | product a b =>
    obtain rfl | rfl := hjoined .product a b h <;> exact ⟨_, rfl, by rw [product.sizeOf_spec]; omega⟩
  | sum a b =>
    obtain rfl | rfl := hjoined .sum a b h <;> exact ⟨_, rfl, by rw [sum.sizeOf_spec]; omega⟩

/-- Every parenthesis that a printed type opens is that of a pair. -/
theorem exists_pair (t : Ty) {before rest : Phrase}
    (h : t.phrase = before ++ Phrase.symbol .leftParen :: rest) :
    ∃ inside after, (Term.ty t).Pair before inside after := by
  have hwritten : written t.layout = before ++ Phrase.symbol .leftParen :: rest :=
    (Term.phrase_eq (.ty t)).symm.trans h
  obtain ⟨left, piece, right, front, behind, hlayout, hpiece, rfl⟩ := exists_piece_of_written hwritten
  have hmem : piece ∈ t.layout := hlayout ▸ List.mem_append_right _ List.mem_cons_self
  cases piece with
  | fixed p =>
    refine absurd ?_ (leftParen_not_mem_fixed hmem)
    rw [show p = _ from hpiece]
    exact List.mem_append_right _ List.mem_cons_self
  | operand side min u =>
    obtain ⟨s, rfl, hsize⟩ := operand_cases hmem
    obtain ⟨hneeded, rfl⟩ | ⟨inner, rest, hinner, rfl⟩ := leftParen_cases hpiece
    · rw [List.append_nil]
      exact ⟨_, _, .own hlayout (of_decide_eq_true hneeded) (.inr rfl)⟩
    · obtain ⟨inside, after, hpair⟩ := s.exists_pair hinner
      rw [← List.append_assoc]
      exact ⟨_, _, .within hlayout hpair⟩
termination_by sizeOf t

end Ty

/-- Printed parentheses are needed. Of the parentheses that are printed around a part because its level is below
the minimum of its place, no pair can be left out: without it the text is refused or read as something else.
The part is any type, any expression that is no binder, or the left operand of an operator. In a printed type
there are no other parentheses. -/
theorem parse_without_pair :
    (∀ e : Expr, e.WellFormed → ∀ before inside after : Phrase, (Term.expr e).Pair before inside after →
      e.phrase = before ++ symbol .leftParen :: inside ++ symbol .rightParen :: after ∧
        Expr.parse (Phrase.text (before ++ inside ++ after)) ≠ .ok e) ∧
    ∀ t : Ty,
      (∀ before inside after : Phrase, (Term.ty t).Pair before inside after →
        t.phrase = before ++ symbol .leftParen :: inside ++ symbol .rightParen :: after ∧
          Ty.parse (Phrase.text (before ++ inside ++ after)) ≠ .ok t) ∧
      ∀ before rest : Phrase, t.phrase = before ++ symbol .leftParen :: rest →
        ∃ inside after : Phrase, (Term.ty t).Pair before inside after := by
  constructor
  · intro e he before inside after hpair
    refine ⟨hpair.phrase_eq, fun hparse => ?_⟩
    obtain ⟨ts, hts, hmap, hdone⟩ := hpair.exists_tokens (Term.wellFormed_expr he)
    rw [Expr.parse, hts] at hparse
    obtain ⟨level, depth, hrendering, -⟩ := Expr.rendering_of_ofTokens hmap hdone hparse
    exact hpair.not_rendered level ⟨depth, hrendering⟩
  · refine fun t => ⟨fun before inside after hpair => ?_, fun before rest h => t.exists_pair h⟩
    refine ⟨hpair.phrase_eq, fun hparse => ?_⟩
    obtain ⟨ts, hts, hmap, hdone⟩ := hpair.exists_tokens t.isWritable_phrase
    rw [Ty.parse, hts] at hparse
    obtain ⟨level, depth, hrendering, -⟩ := Ty.rendering_of_ofTokens hmap hdone hparse
    exact hpair.not_rendered level ⟨depth, hrendering⟩

/-- An application as an argument, and a function that takes a function. -/
theorem parse_without_pair_argument :
    let e := Expr.apply (.identifier "f") (.apply (.identifier "g") (.identifier "x"))
    let t := Ty.function (.function (.base .unit) (.base .unit)) (.base .unit)
    e.WellFormed ∧ e.text = "f (g x)" ∧ Expr.parse "f g x" ≠ .ok e ∧
      t.text = "(unit -> unit) -> unit" ∧ Ty.parse "unit -> unit -> unit" ≠ .ok t := by
  intro e t
  have hwell : e.WellFormed :=
    ⟨⟨by decide, by decide, by decide⟩, ⟨by decide, by decide, by decide⟩, ⟨by decide, by decide, by decide⟩⟩
  have hargument := Term.Pair.own (show (Term.expr e).layout =
    [.operand .left _ (.expr (.identifier "f")), .fixed [.blank]] ++ .operand .right _ _ :: [] from rfl)
    (by decide) (.inr rfl)
  have hdomain := Term.Pair.own (show (Term.ty t).layout = [] ++ .operand .left _ _ :: _ from rfl)
    (by decide) (.inl rfl)
  exact ⟨hwell, rfl, (parse_without_pair.1 e hwell _ _ _ hargument).2, rfl,
    ((parse_without_pair.2 t).1 _ _ _ hdomain).2⟩

end SampleStream
