import SampleStream.Proofs.Cursor
import SampleStream.Proofs.Ty.Rendering
import SampleStream.Ty.Parser

/-!
# Reading types back

Every rendering of a type is read back to that type, as long as what follows cannot belong to it, and a
rendering that nests deeper than the reader may go is refused for just that. The reader climbs along the
left operands of a rendering, which it never reads by themselves; so the induction is about what it has
still to climb once a rendering lies behind it (`Opens`).
-/

namespace SampleStream.Ty

/-- What may follow a form of some level: an operator only if the form may be its left operand. -/
def Follows (level : Nat) (rest : List Lexeme) : Prop :=
  ∀ op, Operator.ofLexeme? (rest.headD .done) = some op → op.fixity.leftMin ≤ level

/-- What ends a phrase that takes operators from a minimum on. -/
def Ends (min : Nat) (rest : List Lexeme) : Prop :=
  ∀ op, Operator.ofLexeme? (rest.headD .done) = some op → op.fixity.level < min

@[simp] theorem ofLexeme?_symbol (op : Operator) :
    Operator.ofLexeme? (.symbol op.symbol) = some op := by
  cases op <;> rfl

theorem Follows.of_none {level : Nat} {rest : List Lexeme}
    (h : Operator.ofLexeme? (rest.headD .done) = none) : Follows level rest := by
  intro op hop
  rw [h] at hop
  cases hop

theorem Ends.of_none {min : Nat} {rest : List Lexeme}
    (h : Operator.ofLexeme? (rest.headD .done) = none) : Ends min rest := by
  intro op hop
  rw [h] at hop
  cases hop

theorem Follows.mono {level level' : Nat} {rest : List Lexeme} (h : Follows level rest)
    (hle : level ≤ level') : Follows level' rest :=
  fun op hop => Nat.le_trans (h op hop) hle

-- What may follow an operation ends its right operand.
theorem Follows.ends_rightMin {op : Operator} {rest : List Lexeme}
    (h : Follows op.fixity.level rest) : Ends op.fixity.rightMin rest := by
  intro next hnext
  have hle := h next hnext
  cases op <;> cases next <;> revert hle <;> decide

theorem Follows.ends_streamLevel {rest : List Lexeme} : Ends streamLevel rest := by
  intro next _
  cases next <;> decide

theorem climb_of_ends {inner : Nat → Reader Ty} {min level : Nat} {t : Ty} {c : Cursor}
    (h : Ends min c.lexemes) (fuel : Nat) : climb inner min fuel (t, level) c = .ok (t, c) := by
  cases fuel with
  | zero => rfl
  | succ fuel =>
    rw [climb]
    split
    · rfl
    · rename_i op hop
      rw [if_pos]
      rw [Cursor.next_eq_headD] at hop
      exact .inl (h op hop)

theorem climb_operation {inner : Nat → Reader Ty} {min level : Nat} {t : Ty} {op : Operator}
    {c : Cursor} {ls : List Lexeme} (hc : c.lexemes = .symbol op.symbol :: ls)
    (hmin : min ≤ op.fixity.level) (hlevel : op.fixity.leftMin ≤ level) (fuel : Nat) :
    climb inner min (fuel + 1) (t, level) c = (do
      let (rhs, c) ← inner op.fixity.rightMin c.skip
      climb inner min fuel (op.apply t rhs, op.fixity.level) c) := by
  rw [climb, Cursor.next_of_lexemes hc, ofLexeme?_symbol]
  exact if_neg (by omega)

/-- Having read a rendering, the reader stands behind it with the type and its level, and goes on
climbing. -/
def Opens (t : Ty) (level depth : Nat) (ls : List Lexeme) : Prop :=
  ∀ (room min : Nat) (rest : List Lexeme) (c : Cursor), min ≤ level → Follows level rest →
    c.lexemes = ls ++ rest →
    (depth ≤ room → ∃ fuel d, rest.length ≤ fuel ∧ d.lexemes = rest ∧
      read (room + 1) min c = climb (read room) min fuel (t, level) d) ∧
    (room < depth → TooDeep (read (room + 1) min c))

theorem Opens.reads {t : Ty} {level depth : Nat} {ls : List Lexeme} (h : Opens t level depth ls)
    (room : Nat) {min : Nat} {rest : List Lexeme} {c : Cursor} (hmin : min ≤ level)
    (hfollows : Follows level rest) (hends : Ends min rest) (hc : c.lexemes = ls ++ rest) :
    Reads (depth < room) t rest (read room min c) := by
  cases room with
  | zero => exact ⟨fun hlt => absurd hlt (Nat.not_lt_zero _), fun _ => tooDeep_tooDeep c⟩
  | succ room =>
    obtain ⟨hfit, hdeep⟩ := h room min rest c hmin hfollows hc
    constructor
    · intro hlt
      obtain ⟨fuel, d, -, hd, hread⟩ := hfit (Nat.le_of_lt_succ hlt)
      exact ⟨d, by rw [hread, climb_of_ends (by rwa [hd])], hd⟩
    · intro hn
      exact hdeep (by omega)

-- A form that no operator opens is read as a head, and then climbed from.
theorem Opens.of_head {t : Ty} {level depth : Nat} {ls : List Lexeme}
    (h : ∀ (room : Nat) (rest : List Lexeme) (c : Cursor), Follows level rest →
      c.lexemes = ls ++ rest → Reads (depth ≤ room) (t, level) rest (readHead (read room) c)) :
    Opens t level depth ls := by
  intro room min rest c hmin hfollows hc
  obtain ⟨hfit, hdeep⟩ := h room rest c hfollows hc
  constructor
  · intro hle
    obtain ⟨d, hread, hd⟩ := hfit hle
    refine ⟨d.rest.length, d, Nat.le_of_eq (by rw [Cursor.length_rest, hd]), hd, ?_⟩
    rw [read, hread]
    rfl
  · intro hlt
    exact (hdeep (by omega)).bind _

theorem Opens.base (b : BaseTy) : Opens (.base b) atomLevel 0 [.name b.keyword] := by
  apply Opens.of_head
  intro room rest c _ hc
  rw [readHead, Cursor.next_of_lexemes hc]
  simp only [BaseTy.ofKeyword?_keyword]
  exact (Reads.pure (Cursor.lexemes_skip hc)).congr (by simp)

theorem Opens.stream {t : Ty} {level depth : Nat} {ls : List Lexeme} (h : Opens t level depth ls)
    (hmin : streamLevel ≤ level) :
    Opens (.stream t) streamLevel (depth + 1) (.symbol .tilde :: ls) := by
  apply Opens.of_head
  intro room rest c hfollows hc
  have hskip := Cursor.lexemes_skip hc
  rw [readHead, Cursor.next_of_lexemes hc]
  have hinner := h.reads room hmin (hfollows.mono hmin) Follows.ends_streamLevel hskip
  exact hinner.map fun d hd => .pure hd

theorem Opens.grouped {t : Ty} {level depth : Nat} {ls : List Lexeme} (h : Opens t level depth ls) :
    Opens t atomLevel (depth + 1) (.symbol .leftParen :: ls ++ [.symbol .rightParen]) := by
  apply Opens.of_head
  intro room rest c _ hc
  simp only [List.cons_append, List.append_assoc] at hc
  have hskip := Cursor.lexemes_skip hc
  rw [readHead, Cursor.next_of_lexemes hc]
  have hinner := h.reads room (Nat.zero_le level) (Follows.of_none rfl) (Ends.of_none rfl) hskip
  exact hinner.map fun d hd => .expect hd fun e he => .pure he

theorem Opens.operation (op : Operator) {a b : Ty} {aLevel aDepth bLevel bDepth : Nat}
    {ls ms : List Lexeme} (ha : Opens a aLevel aDepth ls) (hleft : op.fixity.leftMin ≤ aLevel)
    (hb : Opens b bLevel bDepth ms) (hright : op.fixity.rightMin ≤ bLevel) :
    Opens (op.apply a b) op.fixity.level (max aDepth (bDepth + 1))
      (ls ++ .symbol op.symbol :: ms) := by
  intro room min rest c hmin hfollows hc
  rw [List.append_assoc, List.cons_append] at hc
  have haLevel : op.fixity.level ≤ aLevel := Nat.le_trans (level_le_leftMin op) hleft
  have hbLevel : op.fixity.level ≤ bLevel := Nat.le_trans (level_le_rightMin op) hright
  have hafter : Follows aLevel (.symbol op.symbol :: ms ++ rest) := by
    intro next hnext
    rw [List.cons_append, List.headD_cons, ofLexeme?_symbol] at hnext
    cases hnext
    exact hleft
  obtain ⟨hfit, hdeep⟩ := ha room min _ c (Nat.le_trans hmin haLevel) hafter hc
  -- once the left operand is read, the operator is next and the loop takes it
  have hstep : aDepth ≤ room → ∃ fuel d, rest.length ≤ fuel ∧
      d.lexemes = ms ++ rest ∧ read (room + 1) min c = (do
        let (rhs, c) ← read room op.fixity.rightMin d
        climb (read room) min fuel (op.apply a rhs, op.fixity.level) c) := by
    intro hle
    obtain ⟨fuel, d, hfuel, hd, hread⟩ := hfit hle
    simp only [List.length_cons, List.length_append] at hfuel
    obtain ⟨fuel, rfl⟩ : ∃ n, fuel = n + 1 := ⟨fuel - 1, by omega⟩
    refine ⟨fuel, d.skip, by omega, Cursor.lexemes_skip hd, ?_⟩
    rw [hread, climb_operation hd hmin hleft]
  have hbReads {d : Cursor} (hd : d.lexemes = ms ++ rest) :
      Reads (bDepth < room) b rest (read room op.fixity.rightMin d) :=
    hb.reads room hright (hfollows.mono hbLevel) hfollows.ends_rightMin hd
  constructor
  · intro hle
    obtain ⟨fuel, d, hfuel, hd, hread⟩ := hstep (by omega)
    obtain ⟨e, he, herest⟩ := (hbReads hd).1 (by omega)
    exact ⟨fuel, e, hfuel, herest, by rw [hread, he]; rfl⟩
  · intro hlt
    by_cases hle : aDepth ≤ room
    · obtain ⟨fuel, d, hfuel, hd, hread⟩ := hstep hle
      rw [hread]
      exact ((hbReads hd).2 (by omega)).bind _
    · exact hdeep (by omega)

theorem Rendering.opens {t : Ty} {level depth : Nat} {ls : List Lexeme}
    (h : Rendering t level depth ls) : Opens t level depth ls := by
  induction h with
  | base b => exact .base b
  | stream inner hmin ih => exact ih.stream hmin
  | operation op left hleft right hright iha ihb => exact .operation op iha hleft ihb hright
  | grouped inner ih => exact ih.grouped

-- Where no operator follows, a rendering is read back from any minimum that its level reaches, if there
-- is room for one level more than it has inside.
theorem Rendering.reads {t : Ty} {level depth : Nat} {ls : List Lexeme}
    (h : Rendering t level depth ls) (room : Nat) {min : Nat} {rest : List Lexeme} {c : Cursor}
    (hmin : min ≤ level) (hrest : Operator.ofLexeme? (rest.headD .done) = none)
    (hc : c.lexemes = ls ++ rest) : Reads (depth < room) t rest (read room min c) :=
  h.opens.reads room hmin (.of_none hrest) (.of_none hrest) hc

end SampleStream.Ty
