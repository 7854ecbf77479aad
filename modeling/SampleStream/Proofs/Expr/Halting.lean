import SampleStream.Proofs.Expr.Reading
import SampleStream.Proofs.Expr.Soundness

/-!
# Where the reader of expressions stops

An operator that binds tightly enough for the minimum asked for ends a phrase for one reason only: what
has been read ends in an annotation, and the operator may not take that as its left operand. Nothing else
ends it, also not inside a binder, whose body is read from the lowest level on. `Halts` says this of a
whole phrase and `Stuck` of the phrase that a climb goes on from.
-/

namespace SampleStream.Expr

/-- Whether an annotation stands at the open right end: of a cons the tail, of a binder the body. -/
def endsInAnnotation : Expr → Bool
  | .annotate _ _ => true
  | .cons _ tail => tail.endsInAnnotation
  | .lambda _ body | .fix _ body | .letIn _ _ body | .unpair _ _ _ body => body.endsInAnnotation
  | _ => false

/-- The phrase read from `min` on is followed by an operator at or above `min` only behind an annotation,
and not by another annotation. -/
def Halts (min : Nat) (e : Expr) (c : Cursor) : Prop :=
  ∀ op, Operator.ofLexeme? c.next = some op → min ≤ op.fixity.level →
    op ≠ .annotate ∧ e.endsInAnnotation = true

/-- The phrase of that level is followed by an operator that may not take it only behind an annotation, and
not by another annotation. -/
def Stuck (level : Nat) (e : Expr) (c : Cursor) : Prop :=
  ∀ op, Operator.ofLexeme? c.next = some op → level < op.fixity.leftMin →
    op ≠ .annotate ∧ e.endsInAnnotation = true

-- Applications and what binds tighter may be the left operand of any operator.
theorem leftMin_le_apply (op : Operator) : op.fixity.leftMin ≤ Operator.apply.fixity.level := by
  cases op <;> decide

theorem stuck_of_apply_le {level : Nat} (h : Operator.apply.fixity.level ≤ level) (e : Expr)
    (c : Cursor) : Stuck level e c := by
  intro op _ hlt
  exact absurd (Nat.le_trans (leftMin_le_apply op) h) (Nat.not_le_of_lt hlt)

theorem stuck_annotate (e : Expr) (t : Ty) (c : Cursor) :
    Stuck Operator.annotate.fixity.level (.annotate e t) c := by
  intro op _ hlt
  refine ⟨?_, rfl⟩
  rintro rfl
  exact absurd hlt (Nat.lt_irrefl _)

theorem Halts.stuck_cons {e tail : Expr} {c : Cursor} (h : Halts Operator.cons.fixity.rightMin tail c) :
    Stuck Operator.cons.fixity.level (.cons e tail) c := by
  intro op hop hlt
  have hle : Operator.cons.fixity.rightMin ≤ op.fixity.level := by
    revert hlt
    cases op <;> decide
  exact h op hop hle

-- All that can follow a binder's body can follow the binder.
theorem Halts.stuck_lowest {body e : Expr} {c : Cursor} (h : Halts lowest body c)
    (he : e.endsInAnnotation = body.endsInAnnotation) : Stuck lowest e c := by
  intro op hop _
  rw [he]
  exact h op hop (Nat.zero_le _)

section Parts

variable {inner : Nat → Reader Expr}
  (hinner : ∀ min c, min ≤ prefixLevel → Leaves (Halts min) (inner min c))

include hinner

theorem leaves_readBinder (c : Cursor) :
    Leaves (fun p d => Halts lowest p.2 d) (readBinder inner c) :=
  .after fun _ => .after fun d => (hinner lowest d (Nat.zero_le _)).bind fun _ _ h => .pure h

theorem leaves_readBinding (c : Cursor) :
    Leaves (fun p d => Halts lowest p.2 d) (readBinding inner c) :=
  .after fun _ => .after fun _ => .after fun d =>
    (hinner lowest d (Nat.zero_le _)).bind fun _ _ h => .pure h

theorem leaves_readLet (c : Cursor) : Leaves (Stuck lowest) (readLet inner c) := by
  unfold readLet
  split
  · exact .after fun _ => .after fun _ => .after fun _ => .after fun d =>
      (leaves_readBinding hinner d).bind fun _ _ h => .pure (h.stuck_lowest rfl)
  · exact .after fun _ => (leaves_readBinding hinner _).bind fun _ _ h => .pure (h.stuck_lowest rfl)

theorem leaves_readHead (c : Cursor) : Leaves (fun p d => Stuck p.2 p.1 d) (readHead inner c) := by
  have hatom (e : Expr) (d : Cursor) : Stuck atomLevel e d := stuck_of_apply_le (by decide) e d
  have hunary (e : Expr) (d : Cursor) : Stuck prefixLevel e d := stuck_of_apply_le (by decide) e d
  unfold readHead
  cases c.next with
  | name x => exact .pure (hatom _ _)
  | index n => exact .pure (hatom _ _)
  | sample s => exact .pure (hatom _ _)
  | done => exact .error _
  | keyword k =>
    cases k with
    | inl => exact .after fun p => .pure (hunary _ _)
    | inr => exact .after fun p => .pure (hunary _ _)
    | letWord => exact (leaves_readLet hinner _).bind fun _ _ h => .pure h
    | caseWord => exact .after fun p => .pure (hatom _ _)
    | inWord => exact .error _
  | symbol s =>
    cases s with
    | bang => exact .after fun p => .pure (hunary _ _)
    | backslash => exact (leaves_readBinder hinner _).bind fun _ _ h => .pure (h.stuck_lowest rfl)
    | ampersand => exact (leaves_readBinder hinner _).bind fun _ _ h => .pure (h.stuck_lowest rfl)
    | leftParen => exact .after fun p => .pure (hatom _ _)
    | _ => exact .error _

theorem leaves_readOperation (ascribed : Reader Ty) (lhs : Expr) (op : Operator) (c : Cursor) :
    Leaves (Stuck op.fixity.level) (readOperation inner ascribed lhs op c) := by
  cases op with
  | apply => exact .after fun p => .pure (stuck_of_apply_le (Nat.le_refl _) _ _)
  | annotate => exact .after fun p => .pure (stuck_annotate _ _ _)
  | cons => exact (hinner _ _ (rightMin_le_prefixLevel .cons)).bind fun _ _ h => .pure h.stuck_cons

end Parts

theorem Fits.ne_nil {room min : Nat} {e : Expr} {ls : List Lexeme} (h : Fits room min e ls) :
    ls ≠ [] := by
  obtain ⟨level, depth, hrendering, -, -⟩ := h
  obtain ⟨l, ms, rfl, -, -⟩ := hrendering.head
  exact List.cons_ne_nil l ms

section Climbing

variable {inner : Nat → Reader Expr} {ascribed : Reader Ty} {room : Nat}
  (htakes : ∀ min c, min ≤ prefixLevel → Takes c (Fits room min) (inner min c))
  (hascribed : ∀ c, Takes c (Ty.Fits room Ty.lowest) (ascribed c))

include htakes hascribed

-- An operation takes one lexeme at least, so that a climb with one turn for each lexeme comes to its end.
theorem shortens_readOperation (lhs : Expr) {op : Operator} {c : Cursor}
    (hop : Operator.ofLexeme? c.next = some op) :
    Leaves (fun _ d => d.lexemes.length < c.lexemes.length)
      (readOperation inner ascribed lhs op c) := by
  cases op with
  | apply =>
    have hread : Leaves (fun _ d => d.lexemes.length < c.lexemes.length)
        (inner Operator.apply.fixity.rightMin c) := by
      intro x d hx
      obtain ⟨ls, hc, hfits⟩ := htakes _ c (rightMin_le_prefixLevel .apply) x d hx
      have hpos := List.length_pos_iff.mpr hfits.ne_nil
      rw [hc, List.length_append]
      omega
    exact hread.bind fun _ _ h => .pure h
  | cons =>
    have hskip := Cursor.lexemes_eq_cons (eq_colonColon_of_ofLexeme? hop) (by simp)
    have hread : Leaves (fun _ d => d.lexemes.length < c.lexemes.length)
        (inner Operator.cons.fixity.rightMin c.skip) := by
      intro t d ht
      obtain ⟨ls, hc, -⟩ := htakes _ c.skip (rightMin_le_prefixLevel .cons) t d ht
      rw [hskip, hc, List.length_cons, List.length_append]
      omega
    exact hread.bind fun _ _ h => .pure h
  | annotate =>
    have hskip := Cursor.lexemes_eq_cons (eq_colon_of_ofLexeme? hop) (by simp)
    have hread : Leaves (fun _ d => d.lexemes.length < c.lexemes.length) (ascribed c.skip) := by
      intro t d ht
      obtain ⟨ls, hc, -⟩ := hascribed c.skip t d ht
      rw [hskip, hc, List.length_cons, List.length_append]
      omega
    exact hread.bind fun _ _ h => .pure h

theorem halts_climb (hinner : ∀ min c, min ≤ prefixLevel → Leaves (Halts min) (inner min c))
    {min : Nat} (fuel : Nat) : ∀ (e : Expr) (level : Nat) (c : Cursor), Stuck level e c →
      c.lexemes.length ≤ fuel → Leaves (Halts min) (climb inner ascribed min fuel (e, level) c) := by
  induction fuel with
  | zero =>
    intro e level c _ hfuel
    refine .pure fun op hop _ => ?_
    rw [Cursor.next_eq_headD, List.eq_nil_of_length_eq_zero (Nat.le_zero.mp hfuel)] at hop
    cases hop
  | succ fuel ih =>
    intro e level c hstuck hfuel
    rw [climb]
    split
    · rename_i hnone
      refine .pure fun op hop _ => ?_
      rw [hnone] at hop
      cases hop
    · rename_i op hop
      split
      · rename_i hends
        refine .pure fun op' hop' hmin => ?_
        rw [hop] at hop'
        cases hop'
        have hlevel : level < op.fixity.leftMin := hends.resolve_left (Nat.not_lt_of_le hmin)
        exact hstuck op hop hlevel
      · have hnext : Leaves (fun a d => Stuck op.fixity.level a d ∧
            d.lexemes.length < c.lexemes.length) (readOperation inner ascribed e op c) :=
          fun a d h => ⟨leaves_readOperation hinner ascribed e op c a d h,
            shortens_readOperation htakes hascribed e hop a d h⟩
        refine hnext.bind fun a d h => ih a _ d h.1 ?_
        exact Nat.le_of_lt_succ (Nat.lt_of_lt_of_le h.2 hfuel)

end Climbing

-- What is read from `min` on stops where an operator may go on only behind an annotation.
theorem halts_read (room : Nat) :
    ∀ min c, min ≤ prefixLevel → Leaves (Halts min) (read room min c) := by
  induction room with
  | zero => exact fun _ c _ => .error c.tooDeep
  | succ room ih =>
    intro min c _
    refine (leaves_readHead ih c).bind fun p d hstuck => ?_
    obtain ⟨head, level⟩ := p
    have hascribed (c : Cursor) := Ty.takes_read room Ty.lowest c (Nat.zero_le _)
    exact halts_climb (takes_read room) hascribed ih _ head level d hstuck
      (Nat.le_of_eq (Cursor.length_rest d).symm)

end SampleStream.Expr
