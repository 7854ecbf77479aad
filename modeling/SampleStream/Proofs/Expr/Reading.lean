import SampleStream.Expr.Parser
import SampleStream.Proofs.Expr.Rendering
import SampleStream.Proofs.Ty.Reading

/-!
# Reading expressions back

Every strict rendering of an expression is read back to that expression, as long as what follows cannot
belong to it, and a rendering that nests deeper than the reader may go is refused for just that. The
induction is as for types: it is about what the reader has still to climb once a rendering lies behind it
(`Opens`). Parts between fixed lexemes are read whole, since no fixed lexeme is an operator (`Closes`).
-/

namespace SampleStream.Expr

/-- What may follow a form of some level: an operator only if the form may be its left operand. An operator
of types never follows; an annotation would take it. -/
def Follows (level : Nat) (rest : List Lexeme) : Prop :=
  Ty.Operator.ofLexeme? (rest.headD .done) = none ∧
    ∀ op, Operator.ofLexeme? (rest.headD .done) = some op → op.fixity.leftMin ≤ level

/-- What ends a phrase that takes operators from a minimum on. -/
def Ends (min : Nat) (rest : List Lexeme) : Prop :=
  ∀ op, Operator.ofLexeme? (rest.headD .done) = some op → op.fixity.level < min

/-- What ends every phrase. -/
def Closes (rest : List Lexeme) : Prop :=
  Ty.Operator.ofLexeme? (rest.headD .done) = none ∧ Operator.ofLexeme? (rest.headD .done) = none

theorem Closes.follows {rest : List Lexeme} (h : Closes rest) (level : Nat) : Follows level rest := by
  refine ⟨h.1, fun op hop => ?_⟩
  rw [h.2] at hop
  cases hop

theorem Closes.ends {rest : List Lexeme} (h : Closes rest) (min : Nat) : Ends min rest := by
  intro op hop
  rw [h.2] at hop
  cases hop

theorem Follows.mono {level level' : Nat} {rest : List Lexeme} (h : Follows level rest)
    (hle : level ≤ level') : Follows level' rest :=
  ⟨h.1, fun op hop => Nat.le_trans (h.2 op hop) hle⟩

-- Nothing but the end of a phrase may follow an open binder.
theorem Follows.closes {rest : List Lexeme} (h : Follows lowest rest) : Closes rest := by
  refine ⟨h.1, ?_⟩
  cases hop : Operator.ofLexeme? (rest.headD .done) with
  | none => rfl
  | some op => exact absurd (h.2 op hop) (Nat.not_le_of_lt (lowest_lt_leftMin op))

-- What may follow an operation ends its right operand.
theorem Follows.ends_rightMin {op : Operator} {rest : List Lexeme}
    (h : Follows op.fixity.level rest) : Ends op.fixity.rightMin rest := by
  intro next hnext
  have hle := h.2 next hnext
  cases op <;> cases next <;> revert hle <;> decide

theorem ends_prefixLevel (rest : List Lexeme) : Ends prefixLevel rest := by
  intro next _
  cases next <;> decide

theorem climb_of_ends {inner : Nat → Reader Expr} {ascribed : Reader Ty} {min level : Nat} {e : Expr}
    {c : Cursor} (h : Ends min c.lexemes) (fuel : Nat) :
    climb inner ascribed min fuel (e, level) c = .ok (e, c) := by
  cases fuel with
  | zero => rfl
  | succ fuel =>
    rw [climb]
    split
    · rfl
    · rename_i op hop
      rw [if_pos]
      rw [Cursor.next_eq_headD] at hop
      exact .inl (h op hop)

theorem climb_operation {inner : Nat → Reader Expr} {ascribed : Reader Ty} {min level : Nat} {e : Expr}
    {op : Operator} {c : Cursor} (hop : Operator.ofLexeme? c.next = some op)
    (hmin : min ≤ op.fixity.level) (hlevel : op.fixity.leftMin ≤ level) (fuel : Nat) :
    climb inner ascribed min (fuel + 1) (e, level) c = (do
      let (e, c) ← readOperation inner ascribed e op c
      climb inner ascribed min fuel (e, op.fixity.level) c) := by
  rw [climb, hop]
  exact if_neg (by omega)

-- Every rendering begins as an expression does, so that an application reaches it.
theorem Rendering.head {lax : Prop} {e : Expr} {level depth : Nat} {ls : List Lexeme}
    (h : Rendering lax e level depth ls) : ∃ l ms, ls = l :: ms ∧
      Operator.ofLexeme? l = some .apply ∧ Ty.Operator.ofLexeme? l = none := by
  induction h with
  | identifier x => exact ⟨_, _, rfl, rfl, rfl⟩
  | index n => exact ⟨_, _, rfl, rfl, rfl⟩
  | sample s => exact ⟨_, _, rfl, rfl, rfl⟩
  | apply fn hfn arg harg ihf ihx =>
    obtain ⟨l, ms, rfl, hl⟩ := ihf
    exact ⟨l, _, rfl, hl⟩
  | cons head hhead tail htail ihh iht =>
    obtain ⟨l, ms, rfl, hl⟩ := ihh
    exact ⟨l, _, rfl, hl⟩
  | annotate inner hinner ty ih =>
    obtain ⟨l, ms, rfl, hl⟩ := ih
    exact ⟨l, _, rfl, hl⟩
  | unary form inner hinner ih => cases form <;> exact ⟨_, _, rfl, rfl, rfl⟩
  | binder form x inner ih => cases form <;> exact ⟨_, _, rfl, rfl, rfl⟩
  | letIn x value inner ihv ihb => exact ⟨_, _, rfl, rfl, rfl⟩
  | unpair x y scrutinee inner ihs ihb => exact ⟨_, _, rfl, rfl, rfl⟩
  | pair first second iha ihb => exact ⟨_, _, rfl, rfl, rfl⟩
  | caseOf x y scrutinee left right ihs ihl ihr => exact ⟨_, _, rfl, rfl, rfl⟩
  | grouped inner ih => exact ⟨_, _, rfl, rfl, rfl⟩

/-- Having read a rendering, the reader stands behind it with the expression and its level, and goes on
climbing. -/
def Opens (e : Expr) (level depth : Nat) (ls : List Lexeme) : Prop :=
  ∀ (room min : Nat) (rest : List Lexeme) (c : Cursor), min ≤ level → Follows level rest →
    c.lexemes = ls ++ rest →
    (depth ≤ room → ∃ fuel d, rest.length ≤ fuel ∧ d.lexemes = rest ∧
      read (room + 1) min c = climb (read room) (Ty.read room Ty.lowest) min fuel (e, level) d) ∧
    (room < depth → TooDeep (read (room + 1) min c))

theorem Opens.reads {e : Expr} {level depth : Nat} {ls : List Lexeme} (h : Opens e level depth ls)
    (room : Nat) {min : Nat} {rest : List Lexeme} {c : Cursor} (hmin : min ≤ level)
    (hfollows : Follows level rest) (hends : Ends min rest) (hc : c.lexemes = ls ++ rest) :
    Reads (depth < room) e rest (read room min c) := by
  cases room with
  | zero => exact ⟨fun hlt => absurd hlt (Nat.not_lt_zero _), fun _ => tooDeep_tooDeep c⟩
  | succ room =>
    obtain ⟨hfit, hdeep⟩ := h room min rest c hmin hfollows hc
    constructor
    · intro hlt
      obtain ⟨fuel, d, -, hd, hread⟩ := hfit (Nat.le_of_lt_succ hlt)
      exact ⟨d, by rw [hread, climb_of_ends (by rwa [hd])], hd⟩
    · intro hn
      exact hdeep (by omega)

-- A part that stands before a fixed lexeme or the end.
theorem Opens.reads_part {e : Expr} {level depth : Nat} {ls : List Lexeme}
    (h : Opens e level depth ls) (room : Nat) {rest : List Lexeme} (hrest : Closes rest) (c : Cursor)
    (hc : c.lexemes = ls ++ rest) : Reads (depth < room) e rest (read room lowest c) :=
  h.reads room (Nat.zero_le level) (hrest.follows level) (hrest.ends lowest) hc

-- A form that no operator opens is read as a head, and then climbed from.
theorem Opens.of_head {e : Expr} {level depth : Nat} {ls : List Lexeme}
    (h : ∀ (room : Nat) (rest : List Lexeme) (c : Cursor), Follows level rest →
      c.lexemes = ls ++ rest → Reads (depth ≤ room) (e, level) rest (readHead (read room) c)) :
    Opens e level depth ls := by
  intro room min rest c hmin hfollows hc
  obtain ⟨hfit, hdeep⟩ := h room rest c hfollows hc
  constructor
  · intro hle
    obtain ⟨d, hread, hd⟩ := hfit hle
    refine ⟨d.rest.length, d, Nat.le_of_eq (by rw [Cursor.length_rest, hd]), hd, ?_⟩
    rw [read, hread]
    rfl
  · intro hlt
    exact (hdeep (by omega)).bind _

-- An operator with what belongs to it on the right, behind a left operand that it may have.
theorem Opens.operation (op : Operator) {a e : Expr} {aLevel aDepth depth : Nat}
    {ls ks : List Lexeme} (ha : Opens a aLevel aDepth ls) (hleft : op.fixity.leftMin ≤ aLevel)
    (hhead : ∃ l ms, ks = l :: ms ∧
      Operator.ofLexeme? l = some op ∧ Ty.Operator.ofLexeme? l = none)
    (hop : ∀ (room : Nat) (rest : List Lexeme) (c : Cursor), Follows op.fixity.level rest →
      c.lexemes = ks ++ rest →
      Reads (depth < room) e rest (readOperation (read room) (Ty.read room Ty.lowest) a op c)) :
    Opens e op.fixity.level (max aDepth (depth + 1)) (ls ++ ks) := by
  intro room min rest c hmin hfollows hc
  rw [List.append_assoc] at hc
  obtain ⟨l, ms, rfl, hl, hlTy⟩ := hhead
  have haLevel : op.fixity.level ≤ aLevel := Nat.le_trans (level_le_leftMin op) hleft
  have hafter : Follows aLevel (l :: ms ++ rest) := by
    refine ⟨hlTy, fun next hnext => ?_⟩
    rw [List.cons_append, List.headD_cons, hl] at hnext
    cases hnext
    exact hleft
  obtain ⟨hfit, hdeep⟩ := ha room min _ c (Nat.le_trans hmin haLevel) hafter hc
  -- once the left operand is read, the operator is next and the loop takes it
  have hstep : aDepth ≤ room → ∃ fuel d, rest.length ≤ fuel ∧ d.lexemes = l :: ms ++ rest ∧
      read (room + 1) min c = (do
        let (e, c) ← readOperation (read room) (Ty.read room Ty.lowest) a op d
        climb (read room) (Ty.read room Ty.lowest) min fuel (e, op.fixity.level) c) := by
    intro hle
    obtain ⟨fuel, d, hfuel, hd, hread⟩ := hfit hle
    simp only [List.cons_append, List.length_cons, List.length_append] at hfuel
    obtain ⟨fuel, rfl⟩ : ∃ n, fuel = n + 1 := ⟨fuel - 1, by omega⟩
    refine ⟨fuel, d, by omega, hd, ?_⟩
    rw [hread, climb_operation (by rw [Cursor.next_of_lexemes hd, hl]) hmin hleft]
  constructor
  · intro hle
    obtain ⟨fuel, d, hfuel, hd, hread⟩ := hstep (by omega)
    obtain ⟨d', he, hd'⟩ := (hop room rest d hfollows hd).1 (by omega)
    exact ⟨fuel, d', hfuel, hd', by rw [hread, he]; rfl⟩
  · intro hlt
    by_cases hle : aDepth ≤ room
    · obtain ⟨fuel, d, hfuel, hd, hread⟩ := hstep hle
      rw [hread]
      exact ((hop room rest d hfollows hd).2 (by omega)).bind _
    · exact hdeep (by omega)

theorem Opens.apply {f x : Expr} {fLevel fDepth xLevel xDepth : Nat} {ls ms : List Lexeme}
    (hf : Opens f fLevel fDepth ls) (hfn : Operator.apply.fixity.leftMin ≤ fLevel)
    (hx : Opens x xLevel xDepth ms) (harg : Operator.apply.fixity.rightMin ≤ xLevel)
    (hhead : ∃ l ks, ms = l :: ks ∧
      Operator.ofLexeme? l = some .apply ∧ Ty.Operator.ofLexeme? l = none) :
    Opens (.apply f x) Operator.apply.fixity.level (max fDepth (xDepth + 1)) (ls ++ ms) := by
  refine hf.operation .apply hfn hhead fun room rest c hfollows hc => ?_
  have hlevel := Nat.le_trans (level_le_rightMin .apply) harg
  exact (hx.reads room harg (hfollows.mono hlevel) hfollows.ends_rightMin hc).map
    fun d hd => .pure hd

theorem Opens.cons {h t : Expr} {hLevel hDepth tLevel tDepth : Nat} {ls ms : List Lexeme}
    (hh : Opens h hLevel hDepth ls) (hhead : Operator.cons.fixity.leftMin ≤ hLevel)
    (ht : Opens t tLevel tDepth ms) (htail : Operator.cons.fixity.rightMin ≤ tLevel) :
    Opens (.cons h t) Operator.cons.fixity.level (max hDepth (tDepth + 1))
      (ls ++ .symbol .colonColon :: ms) := by
  refine hh.operation .cons hhead ⟨_, _, rfl, rfl, rfl⟩ fun room rest c hfollows hc => ?_
  have hlevel := Nat.le_trans (level_le_rightMin .cons) htail
  have hskip := Cursor.lexemes_skip hc
  exact (ht.reads room htail (hfollows.mono hlevel) hfollows.ends_rightMin hskip).map
    fun d hd => .pure hd

theorem Opens.annotate {e : Expr} {t : Ty} {eLevel eDepth tLevel tDepth : Nat} {ls ms : List Lexeme}
    (he : Opens e eLevel eDepth ls) (hinner : Operator.annotate.fixity.leftMin ≤ eLevel)
    (ht : t.Rendering tLevel tDepth ms) :
    Opens (.annotate e t) Operator.annotate.fixity.level (max eDepth (tDepth + 1))
      (ls ++ .symbol .colon :: ms) := by
  refine he.operation .annotate hinner ⟨_, _, rfl, rfl, rfl⟩ fun room rest c hfollows hc => ?_
  have hskip := Cursor.lexemes_skip hc
  exact (ht.reads room (Nat.zero_le tLevel) hfollows.1 hskip).map fun d hd => .pure hd

theorem Opens.atom {e : Expr} {l : Lexeme} (h : ∀ (inner : Nat → Reader Expr) (c : Cursor),
    c.next = l → readHead inner c = .ok ((e, atomLevel), c.skip)) : Opens e atomLevel 0 [l] := by
  refine .of_head fun room rest c _ hc => ?_
  rw [h _ c (Cursor.next_of_lexemes hc)]
  exact (Reads.pure (Cursor.lexemes_skip hc)).congr (by simp)

theorem Opens.unary (form : Unary) {e : Expr} {level depth : Nat} {ls : List Lexeme}
    (h : Opens e level depth ls) (hinner : prefixLevel ≤ level) :
    Opens (form.apply e) prefixLevel (depth + 1) (form.lexeme :: ls) := by
  refine .of_head fun room rest c hfollows hc => ?_
  have hskip := Cursor.lexemes_skip hc
  have hreads := h.reads room hinner (hfollows.mono hinner) (ends_prefixLevel rest) hskip
  rw [readHead, Cursor.next_of_lexemes hc]
  cases form <;> exact hreads.map fun d hd => .pure hd

section Parts

variable {inner : Nat → Reader Expr} {first second : Prop} {a b : Expr} {ks ls ms rest : List Lexeme}
  {c : Cursor}

theorem reads_readBinder {x : String} (hc : c.lexemes = .name x :: .symbol .dot :: ls ++ rest)
    (hbody : ∀ d, d.lexemes = ls ++ rest → Reads first a rest (inner lowest d)) :
    Reads first (x, a) rest (readBinder inner c) :=
  .name hc fun _ hd => .expect hd fun e he => (hbody e he).map fun _ hf => .pure hf

theorem reads_readBinding
    (hc : c.lexemes = .symbol .equals :: ls ++ .keyword .inWord :: ms ++ rest)
    (hvalue : ∀ d, d.lexemes = ls ++ .keyword .inWord :: (ms ++ rest) →
      Reads first a (.keyword .inWord :: (ms ++ rest)) (inner lowest d))
    (hbody : ∀ d, d.lexemes = ms ++ rest → Reads second b rest (inner lowest d)) :
    Reads (first ∧ second) (a, b) rest (readBinding inner c) := by
  simp only [List.cons_append, List.append_assoc] at hc
  refine .expect hc fun d hd => (hvalue d hd).bind fun e he => ?_
  exact .expect he fun f hf => (hbody f hf).map fun _ hg => .pure hg

theorem reads_readBranch {side : Keyword} {x : String}
    (hc : c.lexemes = .keyword side :: .name x :: .symbol .fatArrow :: ls ++ rest)
    (hbody : ∀ d, d.lexemes = ls ++ rest → Reads first a rest (inner lowest d)) :
    Reads first (x, a) rest (readBranch inner side c) :=
  .expect hc fun _ hd => .name hd fun _ he => .expect he fun f hf =>
    (hbody f hf).map fun _ hg => .pure hg

end Parts

theorem Opens.binder (form : Binder) (x : String) {body : Expr} {level depth : Nat}
    {ls : List Lexeme} (h : Opens body level depth ls) :
    Opens (form.apply x body) lowest (depth + 1)
      (.symbol form.symbol :: .name x :: .symbol .dot :: ls) := by
  refine .of_head fun room rest c hfollows hc => ?_
  have hskip := Cursor.lexemes_skip hc
  have hreads := reads_readBinder hskip (h.reads_part room hfollows.closes)
  rw [readHead, Cursor.next_of_lexemes hc]
  cases form <;> exact hreads.map fun d hd => .pure hd

theorem Opens.letIn (x : String) {v body : Expr} {vLevel vDepth bLevel bDepth : Nat}
    {ls ms : List Lexeme} (hv : Opens v vLevel vDepth ls) (hb : Opens body bLevel bDepth ms) :
    Opens (.letIn x v body) lowest (max vDepth bDepth + 1)
      (.keyword .letWord :: .name x :: .symbol .equals :: ls ++ .keyword .inWord :: ms) := by
  refine .of_head fun room rest c hfollows hc => ?_
  have hskip := Cursor.lexemes_skip hc
  have hreads : Reads (max vDepth bDepth + 1 ≤ room) (Expr.letIn x v body) rest
      (readLet (read room) c.skip) := by
    rw [readLet, Cursor.next_of_lexemes hskip]
    refine .name hskip fun d hd => ?_
    have hbinding := reads_readBinding hd (hv.reads_part room ⟨rfl, rfl⟩)
      (hb.reads_part room hfollows.closes)
    have hfits : max vDepth bDepth + 1 ≤ room ↔ vDepth < room ∧ bDepth < room := by omega
    rw [hfits]
    exact hbinding.map fun e he => .pure he
  rw [readHead, Cursor.next_of_lexemes hc]
  exact hreads.map fun d hd => .pure hd

theorem Opens.unpair (x y : String) {s body : Expr} {sLevel sDepth bLevel bDepth : Nat}
    {ls ms : List Lexeme} (hs : Opens s sLevel sDepth ls) (hb : Opens body bLevel bDepth ms) :
    Opens (.unpair x y s body) lowest (max sDepth bDepth + 1)
      (.keyword .letWord :: .symbol .leftParen :: .name x :: .symbol .comma :: .name y
        :: .symbol .rightParen :: .symbol .equals :: ls ++ .keyword .inWord :: ms) := by
  refine .of_head fun room rest c hfollows hc => ?_
  have hskip := Cursor.lexemes_skip hc
  have hreads : Reads (max sDepth bDepth + 1 ≤ room) (Expr.unpair x y s body) rest
      (readLet (read room) c.skip) := by
    rw [readLet, Cursor.next_of_lexemes hskip]
    refine .name (Cursor.lexemes_skip hskip) fun d hd => ?_
    refine .expect hd fun d hd => .name hd fun d hd => .expect hd fun d hd => ?_
    have hbinding := reads_readBinding hd (hs.reads_part room ⟨rfl, rfl⟩)
      (hb.reads_part room hfollows.closes)
    have hfits : max sDepth bDepth + 1 ≤ room ↔ sDepth < room ∧ bDepth < room := by omega
    rw [hfits]
    exact hbinding.map fun e he => .pure he
  rw [readHead, Cursor.next_of_lexemes hc]
  exact hreads.map fun d hd => .pure hd

theorem Opens.grouped {e : Expr} {level depth : Nat} {ls : List Lexeme} (h : Opens e level depth ls) :
    Opens e atomLevel (depth + 1) (.symbol .leftParen :: ls ++ [.symbol .rightParen]) := by
  refine .of_head fun room rest c _ hc => ?_
  simp only [List.cons_append, List.append_assoc] at hc
  have hreads : Reads (depth < room) e rest (readGroup (read room) c.skip) := by
    refine (h.reads_part room ⟨rfl, rfl⟩ _ (Cursor.lexemes_skip hc)).map fun d hd => ?_
    simp only [Cursor.next_of_lexemes hd]
    exact .pure (Cursor.lexemes_skip hd)
  rw [readHead, Cursor.next_of_lexemes hc]
  exact hreads.map fun d hd => .pure hd

theorem Opens.pair {a b : Expr} {aLevel aDepth bLevel bDepth : Nat} {ls ms : List Lexeme}
    (ha : Opens a aLevel aDepth ls) (hb : Opens b bLevel bDepth ms) :
    Opens (.pair a b) atomLevel (max aDepth bDepth + 1)
      (.symbol .leftParen :: ls ++ .symbol .comma :: ms ++ [.symbol .rightParen]) := by
  refine .of_head fun room rest c _ hc => ?_
  simp only [List.cons_append, List.append_assoc] at hc
  have hreads : Reads (aDepth < room ∧ bDepth < room) (Expr.pair a b) rest
      (readGroup (read room) c.skip) := by
    refine (ha.reads_part room ⟨rfl, rfl⟩ _ (Cursor.lexemes_skip hc)).bind fun d hd => ?_
    simp only [Cursor.next_of_lexemes hd]
    refine (hb.reads_part room ⟨rfl, rfl⟩ _ (Cursor.lexemes_skip hd)).map fun d hd => ?_
    exact .expect hd fun d hd => .pure hd
  have hfits : max aDepth bDepth + 1 ≤ room ↔ aDepth < room ∧ bDepth < room := by omega
  rw [readHead, Cursor.next_of_lexemes hc, hfits]
  exact hreads.map fun d hd => .pure hd

theorem Opens.caseOf (x y : String) {s l r : Expr} {sLevel sDepth lLevel lDepth rLevel rDepth : Nat}
    {ks ls ms : List Lexeme} (hs : Opens s sLevel sDepth ks) (hl : Opens l lLevel lDepth ls)
    (hr : Opens r rLevel rDepth ms) :
    Opens (.caseOf s x l y r) atomLevel (max sDepth (max lDepth rDepth) + 1)
      (.keyword .caseWord :: ks ++ .symbol .leftBrace :: .keyword .inl :: .name x
        :: .symbol .fatArrow :: ls ++ .symbol .pipe :: .keyword .inr :: .name y
        :: .symbol .fatArrow :: ms ++ [.symbol .rightBrace]) := by
  refine .of_head fun room rest c _ hc => ?_
  simp only [List.cons_append, List.append_assoc] at hc
  have hreads : Reads (sDepth < room ∧ lDepth < room ∧ rDepth < room) (Expr.caseOf s x l y r) rest
      (readCase (read room) c.skip) := by
    refine (hs.reads_part room ⟨rfl, rfl⟩ _ (Cursor.lexemes_skip hc)).bind fun d hd => ?_
    refine .expect hd fun d hd => ?_
    refine (reads_readBranch hd (hl.reads_part room ⟨rfl, rfl⟩)).bind fun d hd => ?_
    refine .expect hd fun d hd => ?_
    refine (reads_readBranch hd (hr.reads_part room ⟨rfl, rfl⟩)).map fun d hd => ?_
    exact .expect hd fun d hd => .pure hd
  have hfits : max sDepth (max lDepth rDepth) + 1 ≤ room ↔
      sDepth < room ∧ lDepth < room ∧ rDepth < room := by omega
  rw [readHead, Cursor.next_of_lexemes hc, hfits]
  exact hreads.map fun d hd => .pure hd

-- A strict rendering has no open binder, so its operands reach the minimum of their place.
theorem min_le_of_admits {min level : Nat} (h : Admits False min level) : min ≤ level := by
  obtain hle | ⟨hf, -⟩ := h
  · exact hle
  · exact hf.elim

theorem Rendering.opens {e : Expr} {level depth : Nat} {ls : List Lexeme}
    (h : Rendering False e level depth ls) : Opens e level depth ls := by
  induction h with
  | identifier x => exact .atom fun inner c hc => by rw [readHead, hc]
  | index n => exact .atom fun inner c hc => by rw [readHead, hc]
  | sample s => exact .atom fun inner c hc => by rw [readHead, hc]
  | apply fn hfn arg harg ihf ihx => exact ihf.apply hfn ihx (min_le_of_admits harg) arg.head
  | cons head hhead tail htail ihh iht => exact ihh.cons hhead iht (min_le_of_admits htail)
  | annotate inner hinner ty ih => exact ih.annotate hinner ty
  | unary form inner hinner ih => exact .unary form ih (min_le_of_admits hinner)
  | binder form x inner ih => exact .binder form x ih
  | letIn x value inner ihv ihb => exact .letIn x ihv ihb
  | unpair x y scrutinee inner ihs ihb => exact .unpair x y ihs ihb
  | pair first second iha ihb => exact .pair iha ihb
  | caseOf x y scrutinee left right ihs ihl ihr => exact .caseOf x y ihs ihl ihr
  | grouped inner ih => exact ih.grouped

end SampleStream.Expr
