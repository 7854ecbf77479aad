import SampleStream.Proofs.Cursor
import SampleStream.Proofs.Ty.Rendering
import SampleStream.Ty.Parser

/-!
# What has been read as a type

Whatever the reader takes for a type is a rendering of that type from the minimum it was asked for, and
nests no deeper than there was room for.
-/

namespace SampleStream.Ty

/-- The lexemes are a rendering from `min` on, whose nesting fits into `room`. -/
def Fits (room min : Nat) (t : Ty) (ls : List Lexeme) : Prop :=
  ∃ level depth, Rendering t level depth ls ∧ min ≤ level ∧ depth < room

/-- What a climb may start from and gives back: the lexemes so far, with their form's own level. -/
def Climbs (room min : Nat) (t : Ty) (level : Nat) (ls : List Lexeme) : Prop :=
  ∃ depth, Rendering t level depth ls ∧ min ≤ level ∧ depth ≤ room

theorem eq_symbol_of_ofLexeme? {l : Lexeme} {op : Operator} (h : Operator.ofLexeme? l = some op) :
    l = .symbol op.symbol := by
  unfold Operator.ofLexeme? at h
  split at h <;> cases h <;> rfl

theorem eq_keyword_of_ofKeyword? {word : String} {b : BaseTy}
    (h : BaseTy.ofKeyword? word = some b) : word = b.keyword := by
  unfold BaseTy.ofKeyword? at h
  split at h
  · rename_i hw; cases h; exact hw
  · split at h
    · rename_i hw; cases h; exact hw
    · split at h
      · rename_i hw; cases h; exact hw
      · cases h

theorem rightMin_le_streamLevel (op : Operator) : op.fixity.rightMin ≤ streamLevel := by
  cases op <;> decide

variable {inner : Nat → Reader Ty} {room : Nat}

theorem takes_readHead
    (hinner : ∀ min c, min ≤ streamLevel → Takes c (Fits room min) (inner min c)) (c : Cursor) :
    Takes c (fun p ls => Climbs room streamLevel p.1 p.2 ls) (readHead inner c) := by
  unfold readHead
  split
  · rename_i hnext
    refine .skip hnext (by simp) ?_
    refine (hinner streamLevel _ (Nat.le_refl _)).bind fun t d ls ht => ?_
    obtain ⟨level, depth, h, hmin, hdepth⟩ := ht
    exact .pure ⟨depth + 1, by simpa using h.stream hmin, Nat.le_refl _, hdepth⟩
  · rename_i hnext
    refine .skip hnext (by simp) ?_
    refine (hinner lowest _ (Nat.zero_le _)).bind fun t d ls ht => ?_
    obtain ⟨level, depth, h, -, hdepth⟩ := ht
    refine Takes.bind_expect (by simp) fun e => ?_
    exact .pure ⟨depth + 1, by simpa using h.grouped, Nat.le_succ _, hdepth⟩
  · rename_i word hnext
    cases hword : BaseTy.ofKeyword? word with
    | none => exact .error _
    | some b =>
      refine .skip hnext (by simp) (.pure ⟨0, ?_, Nat.le_succ _, Nat.zero_le _⟩)
      rw [eq_keyword_of_ofKeyword? hword]
      exact .base b
  · exact .error _

-- The loop keeps that the lexemes so far are a rendering of the type so far, whose form has the level
-- that the loop goes by.
theorem takes_climb {min : Nat}
    (hinner : ∀ m c, m ≤ streamLevel → Takes c (Fits room m) (inner m c)) (fuel : Nat) :
    ∀ {t : Ty} {level : Nat} {ls : List Lexeme} (c : Cursor), Climbs room min t level ls →
      Takes c (fun u ms => Fits (room + 1) min u (ls ++ ms)) (climb inner min fuel (t, level) c) := by
  induction fuel with
  | zero =>
    rintro t level ls c ⟨depth, h, hmin, hdepth⟩
    exact .pure ⟨level, depth, by simpa using h, hmin, Nat.lt_succ_of_le hdepth⟩
  | succ fuel ih =>
    rintro t level ls c ⟨depth, h, hmin, hdepth⟩
    have hstop : Takes c (fun u ms => Fits (room + 1) min u (ls ++ ms)) (.ok (t, c)) :=
      .pure ⟨level, depth, by simpa using h, hmin, Nat.lt_succ_of_le hdepth⟩
    rw [climb]
    split
    · exact hstop
    · rename_i op hop
      split
      · exact hstop
      · rename_i hlevels
        rw [not_or, Nat.not_lt, Nat.not_lt] at hlevels
        refine .skip (eq_symbol_of_ofLexeme? hop) (by simp) ?_
        refine (hinner _ _ (rightMin_le_streamLevel op)).bind fun rhs d ms hrhs => ?_
        obtain ⟨rLevel, rDepth, hr, hrMin, hrDepth⟩ := hrhs
        have hop := Rendering.operation op h hlevels.2 hr hrMin
        have hclimb : Climbs room min (op.apply t rhs) op.fixity.level
            (ls ++ .symbol op.symbol :: ms) := ⟨_, hop, hlevels.1, by omega⟩
        simpa using ih d hclimb

-- What is read as a type from `min` on is a rendering of it from `min` on.
theorem takes_read (room : Nat) :
    ∀ min c, min ≤ streamLevel → Takes c (Fits room min) (read room min c) := by
  induction room with
  | zero => exact fun _ c _ => .error c.tooDeep
  | succ room ih =>
    intro min c hmin
    refine (takes_readHead ih c).bind fun p d ls hp => ?_
    obtain ⟨t, level⟩ := p
    obtain ⟨depth, h, hlevel, hdepth⟩ := hp
    exact takes_climb ih _ d ⟨depth, h, Nat.le_trans hmin hlevel, hdepth⟩

end SampleStream.Ty
