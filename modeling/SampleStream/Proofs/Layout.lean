import Mathlib.Data.List.Forall2
import SampleStream.Proofs.Expr.Soundness
import SampleStream.Proofs.Writing

/-!
# Layouts

What a printed tree is made of: fixed phrases, and operands that stand in parentheses if their level is below
the minimum of their place. The printed phrase is the layout with all its pieces written one after the other
(`Term.phrase_eq`), whatever is spelled may stand for the operands (`Joined.spelled`), and every rendering of
the tree has the same fixed phrases around renderings of the operands (`Term.Rendered.displays`).
-/

namespace SampleStream

open Phrase

/-- A type or an expression. -/
inductive Term
  | ty (t : Ty)
  | expr (e : Expr)

namespace Term

def phrase : Term → Phrase
  | .ty t => t.phrase
  | .expr e => e.phrase

def level : Term → Nat
  | .ty t => t.level
  | .expr e => e.level

/-- Whether the term is a binder, which the reader takes without parentheses too, unless it is a left
operand. -/
def isBinder : Term → Bool
  | .ty _ => false
  | .expr e => e.level == Expr.lowest

/-- The lexemes are a way to write the term that its reader takes. -/
def Rendered : Term → Nat → List Lexeme → Prop
  | .ty t, level, ls => ∃ depth, t.Rendering level depth ls
  | .expr e, level, ls => ∃ depth, e.Rendering True level depth ls

/-- All that is printed can be written. -/
def WellFormed (t : Term) : Prop :=
  ∀ l ∈ t.phrase.lexemes, l.IsWritable

theorem wellFormed_expr {e : Expr} (h : e.WellFormed) : (expr e).WellFormed :=
  e.wellFormed_iff.mp h

theorem WellFormed.spelled {t : Term} (h : t.WellFormed) : t.phrase.Spelled := by
  cases t with
  | ty t => exact t.spelled_phrase
  | expr e => exact Expr.spelled_phrase (e.wellFormed_iff.mpr h)

end Term

/-- A piece of a printed tree. -/
inductive Piece
  | fixed (p : Phrase)
  /-- A part that is put in parentheses below the minimum. Operands that are not to the left of an operator
  count as right ones. -/
  | operand (side : Side) (min : Nat) (term : Term)

def Piece.phrase : Piece → Phrase
  | .fixed p => p
  | .operand _ min u => grouped (u.level < min) u.phrase

/-- The pieces one after the other. -/
def written (pieces : List Piece) : Phrase :=
  pieces.flatMap Piece.phrase

namespace Ty

def layout : Ty → List Piece
  | .base b => [.fixed [name b.keyword]]
  | .stream t => [.fixed [Phrase.symbol .tilde], .operand .right streamLevel (.ty t)]
  | .function a b => joined .function a b
  | .product a b => joined .product a b
  | .sum a b => joined .sum a b
where
  joined (op : Operator) (a b : Ty) : List Piece :=
    [.operand .left op.fixity.leftMin (.ty a), .fixed [.blank, Phrase.symbol op.symbol, .blank],
      .operand .right op.fixity.rightMin (.ty b)]

end Ty

namespace Expr

def layout : Expr → List Piece
  | .identifier x => [.fixed [name x]]
  | .index n => [.fixed [.lexeme (.index n)]]
  | .sample s => [.fixed [.lexeme (.sample s)]]
  | .apply f x =>
    [.operand .left Operator.apply.fixity.leftMin (.expr f), .fixed [.blank],
      .operand .right Operator.apply.fixity.rightMin (.expr x)]
  | .lambda x body =>
    [.fixed [symbol .backslash, name x, symbol .dot, .blank], .operand .right lowest (.expr body)]
  | .fix x body =>
    [.fixed [symbol .ampersand, name x, symbol .dot, .blank], .operand .right lowest (.expr body)]
  | .force e => [.fixed [symbol .bang], .operand .right prefixLevel (.expr e)]
  | .inl e => [.fixed [keyword .inl, .blank], .operand .right prefixLevel (.expr e)]
  | .inr e => [.fixed [keyword .inr, .blank], .operand .right prefixLevel (.expr e)]
  | .cons h t =>
    [.operand .left Operator.cons.fixity.leftMin (.expr h), .fixed [.blank, symbol .colonColon, .blank],
      .operand .right Operator.cons.fixity.rightMin (.expr t)]
  | .letIn x v body =>
    [.fixed [keyword .letWord, .blank, name x, .blank, symbol .equals, .blank],
      .operand .right lowest (.expr v), .fixed [.blank, keyword .inWord, .blank],
      .operand .right lowest (.expr body)]
  | .annotate e t =>
    [.operand .left Operator.annotate.fixity.leftMin (.expr e), .fixed [.blank, symbol .colon, .blank],
      .operand .right Ty.lowest (.ty t)]
  | .pair a b =>
    [.fixed [symbol .leftParen], .operand .right lowest (.expr a), .fixed [symbol .comma, .blank],
      .operand .right lowest (.expr b), .fixed [symbol .rightParen]]
  | .unpair x y s body =>
    [.fixed [keyword .letWord, .blank, symbol .leftParen, name x, symbol .comma, .blank, name y,
        symbol .rightParen, .blank, symbol .equals, .blank],
      .operand .right lowest (.expr s), .fixed [.blank, keyword .inWord, .blank],
      .operand .right lowest (.expr body)]
  | .caseOf s x l y r =>
    [.fixed [keyword .caseWord, .blank], .operand .right lowest (.expr s),
      .fixed [.blank, symbol .leftBrace, .blank, keyword .inl, .blank, name x, .blank, symbol .fatArrow, .blank],
      .operand .right lowest (.expr l),
      .fixed [.blank, symbol .pipe, .blank, keyword .inr, .blank, name y, .blank, symbol .fatArrow, .blank],
      .operand .right lowest (.expr r), .fixed [.blank, symbol .rightBrace]]

end Expr

namespace Term

def layout : Term → List Piece
  | .ty t => t.layout
  | .expr e => e.layout

end Term

namespace Piece

theorem phrase_ty (side : Side) (min : Nat) (t : Ty) :
    (operand side min (.ty t)).phrase = grouped (t.level < min) t.phrase := rfl

theorem phrase_expr (side : Side) (min : Nat) (e : Expr) :
    (operand side min (.expr e)).phrase = grouped (e.level < min) e.phrase := rfl

-- Between fixed phrases no part is put in parentheses.
theorem phrase_lowest (side : Side) (e : Expr) : (operand side Expr.lowest (.expr e)).phrase = e.phrase := by
  rw [phrase_expr, decide_eq_false (show ¬e.level < Expr.lowest from Nat.not_lt_zero _)]
  rfl

theorem phrase_tyLowest (side : Side) (t : Ty) : (operand side Ty.lowest (.ty t)).phrase = t.phrase := by
  rw [phrase_ty, decide_eq_false (show ¬t.level < Ty.lowest from Nat.not_lt_zero _)]
  rfl

end Piece

@[simp] theorem written_nil : written [] = [] := rfl

@[simp] theorem written_fixed (p : Phrase) (rest : List Piece) : written (.fixed p :: rest) = p ++ written rest :=
  List.flatMap_cons

@[simp] theorem written_operand (side : Side) (min : Nat) (u : Term) (rest : List Piece) :
    written (.operand side min u :: rest) = (Piece.operand side min u).phrase ++ written rest :=
  List.flatMap_cons

theorem written_append (left right : List Piece) : written (left ++ right) = written left ++ written right :=
  List.flatMap_append

namespace Term

/-- The printed phrase is the layout with all its pieces written. -/
theorem phrase_eq (t : Term) : t.phrase = written t.layout := by
  cases t with
  | ty t =>
    cases t <;> simp [phrase, layout, Ty.phrase, Ty.phrase.joined, Ty.layout, Ty.layout.joined,
      Piece.phrase_ty]
  | expr e =>
    cases e <;> simp [phrase, layout, Expr.phrase, Expr.layout, Piece.phrase_lowest,
      Piece.phrase_tyLowest] <;> rfl

/-- Every part of what can be written can be written. -/
theorem WellFormed.operand {t u : Term} {side : Side} {min : Nat} (h : t.WellFormed)
    (hu : .operand side min u ∈ t.layout) : u.WellFormed := by
  rw [WellFormed, phrase_eq] at h
  obtain ⟨left, right, hlayout⟩ := List.append_of_mem hu
  rw [hlayout, written_append, written_operand, lexemes_append, lexemes_append] at h
  exact (isWritable_grouped _ _).mp fun l hl =>
    h l (List.mem_append_right _ (List.mem_append_left _ hl))

end Term

/-- Whether what follows an operand keeps apart from it: nothing, or a phrase that begins with a blank, a
parenthesis or a comma. -/
def Breaking : List Piece → Prop
  | [] | .fixed (.blank :: _) :: _ => True
  | .fixed (.lexeme (.symbol .rightParen) :: _) :: _ | .fixed (.lexeme (.symbol .comma) :: _) :: _ => True
  | _ => False

/-- Whether any spelled phrases may stand for the operands: a fixed phrase can be spelled in front of anything,
or stands last. -/
def Joined : List Piece → Prop
  | [] => True
  | .fixed p :: rest => (∀ q : Phrase, (rest = [] → q = []) → q.Spelled → (p ++ q).Spelled) ∧ Joined rest
  | .operand .. :: rest => Breaking rest ∧ Joined rest

/-- The phrase that stands for the piece, any that is spelled if it is an operand. -/
def Stands : Piece → Phrase → Prop
  | .fixed p, q => q = p
  | .operand .., q => q.Spelled

theorem Joined.last {p : Phrase} (hp : p.Spelled) : Joined [.fixed p] := by
  refine ⟨fun q hq _ => ?_, trivial⟩
  rwa [hq rfl, List.append_nil]

theorem Joined.front {p : Phrase} {rest : List Piece} (hp : ∀ q : Phrase, q.Spelled → (p ++ q).Spelled)
    (h : Joined rest) : Joined (.fixed p :: rest) :=
  ⟨fun q _ hq => hp q hq, h⟩

theorem Breaking.breaks {pieces : List Piece} (h : Breaking pieces) {ps : List Phrase}
    (hps : List.Forall₂ Stands pieces ps) {cs : List Char} (hcs : Breaks cs) :
    Breaks (chars ps.flatten ++ cs) := by
  unfold Breaking at h
  split at h
  · cases hps
    exact hcs
  · cases hps with
    | cons hp _ =>
      rw [show _ = _ from hp, List.flatten_cons, List.cons_append]
      exact Spelled.breaks_blank _ _
  · cases hps with
    | cons hp _ =>
      rw [show _ = _ from hp, List.flatten_cons, List.cons_append]
      exact Spelled.breaks_rightParen _ _
  · cases hps with
    | cons hp _ =>
      rw [show _ = _ from hp, List.flatten_cons, List.cons_append]
      exact Spelled.breaks_comma _ _
  · contradiction

theorem Joined.spelled {pieces : List Piece} (h : Joined pieces) {ps : List Phrase}
    (hps : List.Forall₂ Stands pieces ps) : Spelled ps.flatten := by
  induction hps with
  | nil => exact .nil
  | @cons piece p pieces ps hp hps ih =>
    rw [List.flatten_cons]
    cases piece with
    | fixed q =>
      obtain rfl : p = q := hp
      refine h.1 _ (fun hnil => ?_) (ih h.2)
      subst hnil
      cases hps
      rfl
    | operand side min u => exact .append hp (fun cs hcs => h.1.breaks hps hcs) (ih h.2)

section Phrases

variable {q : Phrase} (hq : q.Spelled)

include hq

-- An operator between blanks.
theorem spelled_operator (s : Symbol) : Spelled ([.blank, symbol s, .blank] ++ q) :=
  (hq.spaced_symbol s).blank

theorem spelled_inWord : Spelled ([.blank, keyword .inWord, .blank] ++ q) :=
  (hq.spaced_keyword .inWord).blank

theorem spelled_dot {x : String} (hx : IsWord x) : Spelled ([name x, symbol .dot, .blank] ++ q) :=
  (hq.spaced_symbol .dot).cons_name hx fun _ => rfl

theorem spelled_branch {x : String} (hx : IsWord x) (s : Symbol) (k : Keyword) :
    Spelled ([.blank, symbol s, .blank, keyword k, .blank, name x, .blank, symbol .fatArrow, .blank] ++ q) :=
  ((((hq.spaced_symbol .fatArrow).spaced_name hx).spaced_keyword k).spaced_symbol s).blank

theorem spelled_names {x y : String} (hx : IsWord x) (hy : IsWord y) : Spelled
    ([keyword .letWord, .blank, symbol .leftParen, name x, symbol .comma, .blank, name y, symbol .rightParen,
      .blank, symbol .equals, .blank] ++ q) := by
  have hclose := (hq.spaced_symbol .equals).spaced_symbol .rightParen
  have hsecond := (hclose.cons_name hy fun _ => rfl).spaced_symbol .comma
  have hnames := hsecond.cons_name hx fun _ => rfl
  exact .spaced_keyword .letWord (.cons trivial (fun _ _ => trivial) hnames)

end Phrases

theorem Ty.joined_layout (t : Ty) : Joined t.layout := by
  have hoperator (op : Operator) (a b : Ty) : Joined (layout.joined op a b) :=
    ⟨trivial, .front (fun _ hq => spelled_operator hq op.symbol) ⟨trivial, trivial⟩⟩
  cases t with
  | base b =>
    have hword : IsWord b.keyword := by
      cases b <;> exact ⟨by decide, by decide, by decide⟩
    exact .last (.single hword)
  | stream t => exact .front (fun _ hq => .cons trivial (fun _ _ => trivial) hq) ⟨trivial, trivial⟩
  | function a b => exact hoperator .function a b
  | product a b => exact hoperator .product a b
  | sum a b => exact hoperator .sum a b

theorem Expr.joined_layout {e : Expr} (h : e.WellFormed) : Joined e.layout := by
  cases e with
  | identifier x => exact .last (.single h)
  | index n => exact .last (.single trivial)
  | sample s => exact .last (.single h)
  | apply f x => exact ⟨trivial, .front (fun _ hq => hq.blank) ⟨trivial, trivial⟩⟩
  | lambda x body =>
    exact .front (fun _ hq => .cons trivial (fun _ _ => trivial) (spelled_dot hq h.1)) ⟨trivial, trivial⟩
  | fix x body =>
    exact .front (fun _ hq => .cons trivial (fun _ _ => trivial) (spelled_dot hq h.1)) ⟨trivial, trivial⟩
  | force e => exact .front (fun _ hq => .cons trivial (fun _ _ => trivial) hq) ⟨trivial, trivial⟩
  | inl e => exact .front (fun _ hq => hq.spaced_keyword .inl) ⟨trivial, trivial⟩
  | inr e => exact .front (fun _ hq => hq.spaced_keyword .inr) ⟨trivial, trivial⟩
  | cons a b => exact ⟨trivial, .front (fun _ hq => spelled_operator hq .colonColon) ⟨trivial, trivial⟩⟩
  | letIn x v body =>
    have hbody : Joined [.operand .right lowest (.expr body)] := ⟨trivial, trivial⟩
    exact .front (fun _ hq => ((hq.spaced_symbol .equals).spaced_name h.1).spaced_keyword .letWord)
      ⟨trivial, .front (fun _ hq => spelled_inWord hq) hbody⟩
  | annotate e t => exact ⟨trivial, .front (fun _ hq => spelled_operator hq .colon) ⟨trivial, trivial⟩⟩
  | pair a b =>
    have hclose : Joined [.fixed [symbol .rightParen]] := .last (.single trivial)
    exact .front (fun _ hq => .cons trivial (fun _ _ => trivial) hq)
      ⟨trivial, .front (fun _ hq => hq.spaced_symbol .comma) ⟨trivial, hclose⟩⟩
  | unpair x y s body =>
    have hbody : Joined [.operand .right lowest (.expr body)] := ⟨trivial, trivial⟩
    exact .front (fun _ hq => spelled_names hq h.1 h.2.1)
      ⟨trivial, .front (fun _ hq => spelled_inWord hq) hbody⟩
  | caseOf s x l y r =>
    obtain ⟨-, hx, -, hy, -⟩ := h
    have hclose : Joined [.fixed [.blank, symbol .rightBrace]] :=
      .last (Spelled.blank (.single (l := .symbol .rightBrace) trivial))
    exact .front (fun _ hq => hq.spaced_keyword .caseWord)
      ⟨trivial, .front (fun _ hq => spelled_branch hq hx .leftBrace .inl)
        ⟨trivial, .front (fun _ hq => spelled_branch hq hy .pipe .inr) ⟨trivial, hclose⟩⟩⟩

theorem Term.WellFormed.joined {t : Term} (h : t.WellFormed) : Joined t.layout := by
  cases t with
  | ty t => exact t.joined_layout
  | expr e => exact Expr.joined_layout (e.wellFormed_iff.mpr h)

/-- The lexemes are the fixed phrases of the layout around renderings of the operands. An operand that needs
parentheses is seen from their level, unless it is a binder that the reader takes as it is. -/
inductive Realizes : List Piece → List Lexeme → Prop
  | nil : Realizes [] []
  | fixed {rest : List Piece} {ls : List Lexeme} (p : Phrase) (behind : Realizes rest ls) :
      Realizes (.fixed p :: rest) (p.lexemes ++ ls)
  | operand {side : Side} {min level : Nat} {u : Term} {rest : List Piece} {ls ms : List Lexeme}
      (part : u.Rendered level ls)
      (hlevel : u.level < min → (side = .left ∨ u.isBinder = false) → level ≠ u.level)
      (behind : Realizes rest ms) : Realizes (.operand side min u :: rest) (ls ++ ms)

namespace Realizes

variable {rest : List Piece} {ls ms : List Lexeme} {min level : Nat}

theorem of_eq {pieces : List Piece} (h : Realizes pieces ls) (heq : ls = ms) : Realizes pieces ms :=
  heq ▸ h

theorem tight {side : Side} {u : Term} (part : u.Rendered level ls) (hmin : min ≤ level)
    (behind : Realizes rest ms) : Realizes (.operand side min u :: rest) (ls ++ ms) :=
  .operand part (fun hlt _ => by omega) behind

theorem admitted {e : Expr} (part : (Term.expr e).Rendered level ls) (hmin : Expr.Admits True min level)
    (behind : Realizes rest ms) : Realizes (.operand .right min (.expr e) :: rest) (ls ++ ms) := by
  obtain hmin | ⟨-, rfl⟩ := hmin
  · exact tight part hmin behind
  · refine .operand part (fun _ hside => ?_) behind
    have hbinder : (e.level == Expr.lowest) = false := hside.resolve_left nofun
    exact (beq_eq_false_iff_ne.mp hbinder).symm

theorem whole {e : Expr} (part : (Term.expr e).Rendered level ls) (behind : Realizes rest ms) :
    Realizes (.operand .right Expr.lowest (.expr e) :: rest) (ls ++ ms) :=
  tight part (Nat.zero_le _) behind

end Realizes

/-- The lexemes have the layout of the term inside any number of parentheses, at least one pair if the term is
seen from another level than its own. -/
def Term.Displays (t : Term) (level : Nat) (ls : List Lexeme) : Prop :=
  ∃ n body behind, ls = List.replicate n (.symbol .leftParen) ++ (body ++ behind) ∧
    Realizes t.layout body ∧ (level ≠ t.level → 0 < n)

namespace Term.Displays

variable {t : Term} {level : Nat} {ls : List Lexeme}

theorem own (hlevel : level = t.level) (h : Realizes t.layout ls) : t.Displays level ls :=
  ⟨0, ls, [], by simp, h, fun hne => absurd hlevel hne⟩

theorem grouped (h : t.Displays level ls) (outer : Nat) :
    t.Displays outer (.symbol .leftParen :: ls ++ [.symbol .rightParen]) := by
  obtain ⟨n, body, behind, rfl, hbody, -⟩ := h
  exact ⟨n + 1, body, behind ++ [.symbol .rightParen], by simp [List.replicate_succ], hbody,
    fun _ => Nat.succ_pos n⟩

end Term.Displays

theorem Ty.Rendering.displays {t : Ty} {level depth : Nat} {ls : List Lexeme}
    (h : Rendering t level depth ls) : (Term.ty t).Displays level ls := by
  induction h with
  | base b => exact .own rfl (.fixed [name b.keyword] .nil)
  | stream inner hmin ih =>
    refine .own rfl (.of_eq (.fixed _ (.tight ⟨_, inner⟩ hmin .nil)) ?_)
    simp [Phrase.symbol]
  | @operation a b aLevel aDepth bLevel bDepth ls ms op left hleft right hright iha ihb =>
    have hoperands : Realizes (layout.joined op a b) (ls ++ .symbol op.symbol :: ms) := by
      refine .of_eq (.tight ⟨_, left⟩ hleft (.fixed _ (.tight ⟨_, right⟩ hright .nil))) ?_
      simp [Phrase.symbol]
    cases op <;> exact .own rfl hoperands
  | grouped inner ih => exact ih.grouped _

theorem Expr.Rendering.displays {e : Expr} {level depth : Nat} {ls : List Lexeme}
    (h : Rendering True e level depth ls) : (Term.expr e).Displays level ls := by
  induction h with
  | identifier x => exact .own rfl (.fixed [name x] .nil)
  | index n => exact .own rfl (.fixed [.lexeme (.index n)] .nil)
  | sample s => exact .own rfl (.fixed [.lexeme (.sample s)] .nil)
  | apply fn hfn arg harg ihf ihx =>
    refine .own rfl (.of_eq (.tight ⟨_, fn⟩ hfn (.fixed _ (.admitted ⟨_, arg⟩ harg .nil))) ?_)
    simp
  | cons head hhead tail htail ihh iht =>
    refine .own rfl (.of_eq (.tight ⟨_, head⟩ hhead (.fixed _ (.admitted ⟨_, tail⟩ htail .nil))) ?_)
    simp [Phrase.symbol]
  | annotate inner hinner ty ih =>
    refine .own rfl (.of_eq (.tight ⟨_, inner⟩ hinner (.fixed _ (.tight ⟨_, ty⟩ (Nat.zero_le _) .nil))) ?_)
    simp [Phrase.symbol]
  | unary form inner hinner ih =>
    cases form <;>
    · refine .own rfl (.of_eq (.fixed _ (.admitted ⟨_, inner⟩ hinner .nil)) ?_)
      simp [Unary.lexeme, Phrase.symbol, Phrase.keyword]
  | binder form x inner ih =>
    cases form <;>
    · refine .own rfl (.of_eq (.fixed _ (.whole ⟨_, inner⟩ .nil)) ?_)
      simp [Binder.symbol, Phrase.symbol, Phrase.name]
  | letIn x value inner ihv ihb =>
    refine .own rfl (.of_eq (.fixed _ (.whole ⟨_, value⟩ (.fixed _ (.whole ⟨_, inner⟩ .nil)))) ?_)
    simp [Phrase.symbol, Phrase.name, Phrase.keyword]
  | unpair x y scrutinee inner ihs ihb =>
    refine .own rfl (.of_eq (.fixed _ (.whole ⟨_, scrutinee⟩ (.fixed _ (.whole ⟨_, inner⟩ .nil)))) ?_)
    simp [Phrase.symbol, Phrase.name, Phrase.keyword]
  | pair first second iha ihb =>
    refine .own rfl (.of_eq (.fixed _ (.whole ⟨_, first⟩ (.fixed _ (.whole ⟨_, second⟩
      (.fixed _ .nil))))) ?_)
    simp [Phrase.symbol]
  | caseOf x y scrutinee left right ihs ihl ihr =>
    refine .own rfl (.of_eq (.fixed _ (.whole ⟨_, scrutinee⟩ (.fixed _ (.whole ⟨_, left⟩ (.fixed _
      (.whole ⟨_, right⟩ (.fixed _ .nil))))))) ?_)
    simp [Phrase.symbol, Phrase.name, Phrase.keyword]
  | grouped inner ih => exact ih.grouped _

theorem Term.Rendered.displays {t : Term} {level : Nat} {ls : List Lexeme} (h : t.Rendered level ls) :
    t.Displays level ls := by
  cases t with
  | ty t =>
    obtain ⟨depth, hrendering⟩ := h
    exact hrendering.displays
  | expr e =>
    obtain ⟨depth, hrendering⟩ := h
    exact hrendering.displays

end SampleStream
