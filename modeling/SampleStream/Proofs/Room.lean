import SampleStream.Expr.Parser
import SampleStream.Proofs.Cursor

/-!
# Readers with more room

What is read with some room for nesting is read with more room just the same, and it makes no difference
where in its text the lexemes stand. `Repeats` says this of two readers.
-/

namespace SampleStream

namespace Cursor

theorem lexemes_skip_eq (c : Cursor) : c.skip.lexemes = c.lexemes.tail := by
  obtain ⟨last, rest⟩ := c
  cases rest <;> rfl

theorem next_congr {c d : Cursor} (h : d.lexemes = c.lexemes) : d.next = c.next := by
  rw [next_eq_headD, next_eq_headD, h]

theorem skip_congr {c d : Cursor} (h : d.lexemes = c.lexemes) : d.skip.lexemes = c.skip.lexemes := by
  rw [lexemes_skip_eq, lexemes_skip_eq, h]

end Cursor

variable {α β : Type}

/-- The second reader gives what the first gives, if that gives something, and leaves the same lexemes. -/
def Repeats (r r' : Except SyntaxError (α × Cursor)) : Prop :=
  ∀ a d, r = .ok (a, d) → ∃ d', r' = .ok (a, d') ∧ d'.lexemes = d.lexemes

namespace Repeats

theorem error (e : SyntaxError) (r' : Except SyntaxError (α × Cursor)) : Repeats (.error e) r' := by
  intro a d h
  cases h

theorem pure (a : α) {c c' : Cursor} (h : c'.lexemes = c.lexemes) : Repeats (.ok (a, c)) (.ok (a, c')) := by
  intro a' d hd
  cases hd
  exact ⟨c', rfl, h⟩

theorem bind {r r' : Except SyntaxError (α × Cursor)}
    {f f' : α × Cursor → Except SyntaxError (β × Cursor)} (h : Repeats r r')
    (hf : ∀ a d d', d'.lexemes = d.lexemes → Repeats (f (a, d)) (f' (a, d'))) :
    Repeats (r >>= f) (r' >>= f') := by
  intro b d hb
  obtain ⟨⟨a, c⟩, hr, hfa⟩ := exists_of_bind_eq_ok hb
  obtain ⟨c', hr', hc⟩ := h a c hr
  rw [hr']
  exact hf a c c' hc b d hfa

theorem expect (l : Lexeme) {f f' : Cursor → Except SyntaxError (β × Cursor)} {c c' : Cursor}
    (hc : c'.lexemes = c.lexemes) (hf : ∀ d d', d'.lexemes = d.lexemes → Repeats (f d) (f' d')) :
    Repeats (c.expect l >>= f) (c'.expect l >>= f') := by
  by_cases hnext : c.next = l
  · have hnext' : c'.next = l := (Cursor.next_congr hc).trans hnext
    rw [Cursor.expect, Cursor.expect, if_pos hnext, if_pos hnext']
    exact hf c.skip c'.skip (Cursor.skip_congr hc)
  · rw [Cursor.expect, if_neg hnext]
    exact error _ _

theorem name {f f' : String × Cursor → Except SyntaxError (β × Cursor)} {c c' : Cursor}
    (hc : c'.lexemes = c.lexemes)
    (hf : ∀ x d d', d'.lexemes = d.lexemes → Repeats (f (x, d)) (f' (x, d'))) :
    Repeats (c.name >>= f) (c'.name >>= f') := by
  refine bind ?_ hf
  unfold Cursor.name
  rw [Cursor.next_congr hc]
  split
  · exact pure _ (Cursor.skip_congr hc)
  · exact error _ _

end Repeats

namespace Ty

section Parts

variable {inner inner' : Nat → Reader Ty}
  (hinner : ∀ min c c', c'.lexemes = c.lexemes → Repeats (inner min c) (inner' min c'))

include hinner

theorem repeats_readHead {c c' : Cursor} (hc : c'.lexemes = c.lexemes) :
    Repeats (readHead inner c) (readHead inner' c') := by
  have hskip := Cursor.skip_congr hc
  unfold readHead
  rw [Cursor.next_congr hc]
  split
  · exact (hinner _ _ _ hskip).bind fun t d d' hd => .pure _ hd
  · exact (hinner _ _ _ hskip).bind fun t d d' hd => .expect _ hd fun d d' hd => .pure _ hd
  · split
    · exact .pure _ hskip
    · exact .error _ _
  · exact .error _ _

theorem repeats_climb (min fuel : Nat) : ∀ (lhs : Ty) (level : Nat) (c c' : Cursor),
    c'.lexemes = c.lexemes →
      Repeats (climb inner min fuel (lhs, level) c) (climb inner' min fuel (lhs, level) c') := by
  induction fuel with
  | zero => exact fun lhs level c c' hc => .pure lhs hc
  | succ fuel ih =>
    intro lhs level c c' hc
    rw [climb, climb, Cursor.next_congr hc]
    split
    · exact .pure lhs hc
    · split
      · exact .pure lhs hc
      · exact (hinner _ _ _ (Cursor.skip_congr hc)).bind fun rhs d d' hd => ih _ _ d d' hd

end Parts

theorem repeats_read {room room' : Nat} (hroom : room ≤ room') : ∀ (min : Nat) (c c' : Cursor),
    c'.lexemes = c.lexemes → Repeats (read room min c) (read room' min c') := by
  induction room generalizing room' with
  | zero => exact fun min c c' _ => .error c.tooDeep _
  | succ room ih =>
    obtain ⟨room', rfl⟩ := Nat.exists_eq_add_of_lt hroom
    intro min c c' hc
    have hinner := ih (Nat.le_add_right room room')
    refine (repeats_readHead hinner hc).bind fun p d d' hd => ?_
    obtain ⟨head, level⟩ := p
    dsimp only
    -- a phrase may have as many operators as before
    rw [Cursor.length_rest d', hd, ← Cursor.length_rest d]
    exact repeats_climb hinner min _ head level d d' hd

end Ty

namespace Expr

section Parts

variable {inner inner' : Nat → Reader Expr}
  (hinner : ∀ min c c', c'.lexemes = c.lexemes → Repeats (inner min c) (inner' min c'))

include hinner

theorem repeats_readBinder {c c' : Cursor} (hc : c'.lexemes = c.lexemes) :
    Repeats (readBinder inner c) (readBinder inner' c') :=
  .name hc fun _ _ _ hd => .expect _ hd fun _ _ hd => (hinner _ _ _ hd).bind fun _ _ _ hd => .pure _ hd

theorem repeats_readBinding {c c' : Cursor} (hc : c'.lexemes = c.lexemes) :
    Repeats (readBinding inner c) (readBinding inner' c') :=
  .expect _ hc fun _ _ hd => (hinner _ _ _ hd).bind fun _ _ _ hd => .expect _ hd fun _ _ hd =>
    (hinner _ _ _ hd).bind fun _ _ _ hd => .pure _ hd

theorem repeats_readLet {c c' : Cursor} (hc : c'.lexemes = c.lexemes) :
    Repeats (readLet inner c) (readLet inner' c') := by
  unfold readLet
  rw [Cursor.next_congr hc]
  split
  · exact .name (Cursor.skip_congr hc) fun _ _ _ hd => .expect _ hd fun _ _ hd => .name hd fun _ _ _ hd =>
      .expect _ hd fun _ _ hd => (repeats_readBinding hinner hd).bind fun _ _ _ hd => .pure _ hd
  · exact .name hc fun _ _ _ hd => (repeats_readBinding hinner hd).bind fun _ _ _ hd => .pure _ hd

theorem repeats_readBranch (side : Keyword) {c c' : Cursor} (hc : c'.lexemes = c.lexemes) :
    Repeats (readBranch inner side c) (readBranch inner' side c') :=
  .expect _ hc fun _ _ hd => .name hd fun _ _ _ hd => .expect _ hd fun _ _ hd =>
    (hinner _ _ _ hd).bind fun _ _ _ hd => .pure _ hd

theorem repeats_readCase {c c' : Cursor} (hc : c'.lexemes = c.lexemes) :
    Repeats (readCase inner c) (readCase inner' c') :=
  (hinner _ _ _ hc).bind fun _ _ _ hd => .expect _ hd fun _ _ hd =>
    (repeats_readBranch hinner .inl hd).bind fun _ _ _ hd => .expect _ hd fun _ _ hd =>
      (repeats_readBranch hinner .inr hd).bind fun _ _ _ hd => .expect _ hd fun _ _ hd => .pure _ hd

theorem repeats_readGroup {c c' : Cursor} (hc : c'.lexemes = c.lexemes) :
    Repeats (readGroup inner c) (readGroup inner' c') := by
  refine (hinner _ _ _ hc).bind fun first d d' hd => ?_
  dsimp only
  rw [Cursor.next_congr hd]
  split
  · exact .pure _ (Cursor.skip_congr hd)
  · exact (hinner _ _ _ (Cursor.skip_congr hd)).bind fun _ _ _ hd => .expect _ hd fun _ _ hd =>
      .pure _ hd
  · exact .error _ _

theorem repeats_readHead {c c' : Cursor} (hc : c'.lexemes = c.lexemes) :
    Repeats (readHead inner c) (readHead inner' c') := by
  have hskip := Cursor.skip_congr hc
  unfold readHead
  rw [Cursor.next_congr hc]
  cases c.next with
  | name x => exact .pure _ hskip
  | index n => exact .pure _ hskip
  | sample s => exact .pure _ hskip
  | done => exact .error _ _
  | keyword k =>
    cases k with
    | inl => exact (hinner _ _ _ hskip).bind fun _ _ _ hd => .pure _ hd
    | inr => exact (hinner _ _ _ hskip).bind fun _ _ _ hd => .pure _ hd
    | letWord => exact (repeats_readLet hinner hskip).bind fun _ _ _ hd => .pure _ hd
    | caseWord => exact (repeats_readCase hinner hskip).bind fun _ _ _ hd => .pure _ hd
    | inWord => exact .error _ _
  | symbol s =>
    cases s with
    | bang => exact (hinner _ _ _ hskip).bind fun _ _ _ hd => .pure _ hd
    | backslash => exact (repeats_readBinder hinner hskip).bind fun _ _ _ hd => .pure _ hd
    | ampersand => exact (repeats_readBinder hinner hskip).bind fun _ _ _ hd => .pure _ hd
    | leftParen => exact (repeats_readGroup hinner hskip).bind fun _ _ _ hd => .pure _ hd
    | _ => exact .error _ _

variable {ascribed ascribed' : Reader Ty}
  (hascribed : ∀ c c', c'.lexemes = c.lexemes → Repeats (ascribed c) (ascribed' c'))

include hascribed

theorem repeats_readOperation (lhs : Expr) (op : Operator) {c c' : Cursor}
    (hc : c'.lexemes = c.lexemes) :
    Repeats (readOperation inner ascribed lhs op c) (readOperation inner' ascribed' lhs op c') := by
  cases op with
  | apply => exact (hinner _ _ _ hc).bind fun _ _ _ hd => .pure _ hd
  | annotate => exact (hascribed _ _ (Cursor.skip_congr hc)).bind fun _ _ _ hd => .pure _ hd
  | cons => exact (hinner _ _ _ (Cursor.skip_congr hc)).bind fun _ _ _ hd => .pure _ hd

theorem repeats_climb (min fuel : Nat) : ∀ (lhs : Expr) (level : Nat) (c c' : Cursor),
    c'.lexemes = c.lexemes → Repeats (climb inner ascribed min fuel (lhs, level) c)
      (climb inner' ascribed' min fuel (lhs, level) c') := by
  induction fuel with
  | zero => exact fun lhs level c c' hc => .pure lhs hc
  | succ fuel ih =>
    intro lhs level c c' hc
    rw [climb, climb, Cursor.next_congr hc]
    split
    · exact .pure lhs hc
    · split
      · exact .pure lhs hc
      · exact (repeats_readOperation hinner hascribed lhs _ hc).bind fun e d d' hd => ih _ _ d d' hd

end Parts

-- Room that is not needed makes no difference, nor does the place in the text.
theorem repeats_read {room room' : Nat} (hroom : room ≤ room') : ∀ (min : Nat) (c c' : Cursor),
    c'.lexemes = c.lexemes → Repeats (read room min c) (read room' min c') := by
  induction room generalizing room' with
  | zero => exact fun min c c' _ => .error c.tooDeep _
  | succ room ih =>
    obtain ⟨room', rfl⟩ := Nat.exists_eq_add_of_lt hroom
    intro min c c' hc
    have hinner := ih (Nat.le_add_right room room')
    have hascribed := Ty.repeats_read (Nat.le_add_right room room') Ty.lowest
    refine (repeats_readHead hinner hc).bind fun p d d' hd => ?_
    obtain ⟨head, level⟩ := p
    dsimp only
    rw [Cursor.length_rest d', hd, ← Cursor.length_rest d]
    exact repeats_climb hinner hascribed min _ head level d d' hd

end Expr

end SampleStream
