import SampleStream.Expr.Parser
import SampleStream.Proofs.Expr.Rendering
import SampleStream.Proofs.Ty.Soundness

/-!
# What has been read as an expression

Whatever the reader takes for an expression is a lax rendering of that expression from the minimum it was
asked for, and nests no deeper than there was room for. Only lax: a binder is read wherever an expression
may begin, so also where the printer would put it in parentheses.
-/

namespace SampleStream.Expr

/-- The lexemes are a lax rendering from `min` on, whose nesting fits into `room`. -/
def Fits (room min : Nat) (e : Expr) (ls : List Lexeme) : Prop :=
  ∃ level depth, Rendering True e level depth ls ∧ Admits True min level ∧ depth < room

/-- What a climb may start from and gives back: the lexemes so far, with their form's own level. -/
def Climbs (room min : Nat) (e : Expr) (level : Nat) (ls : List Lexeme) : Prop :=
  ∃ depth, Rendering True e level depth ls ∧ Admits True min level ∧ depth ≤ room

theorem Admits.mono {lax : Prop} {min min' level : Nat} (h : Admits lax min' level)
    (hle : min ≤ min') : Admits lax min level :=
  h.imp_left (Nat.le_trans hle)

theorem eq_colon_of_ofLexeme? {l : Lexeme} (h : Operator.ofLexeme? l = some .annotate) :
    l = .symbol .colon := by
  unfold Operator.ofLexeme? at h
  split at h
  · rfl
  · cases h
  · split at h <;> cases h

theorem eq_colonColon_of_ofLexeme? {l : Lexeme} (h : Operator.ofLexeme? l = some .cons) :
    l = .symbol .colonColon := by
  unfold Operator.ofLexeme? at h
  split at h
  · cases h
  · rfl
  · split at h <;> cases h

theorem rightMin_le_prefixLevel (op : Operator) : op.fixity.rightMin ≤ prefixLevel := by
  cases op <;> decide

section Parts

variable {inner : Nat → Reader Expr} {room : Nat}
  (hinner : ∀ min c, min ≤ prefixLevel → Takes c (Fits room min) (inner min c))

include hinner

-- What is read whole nests less deep than the whole.
theorem takes_part (c : Cursor) : Takes c
    (fun e ls => ∃ level depth, Rendering True e level depth ls ∧ depth < room) (inner lowest c) :=
  (hinner lowest c (Nat.zero_le _)).mono fun _ _ ⟨level, depth, h, _, hdepth⟩ =>
    ⟨level, depth, h, hdepth⟩

theorem takes_readBinder (c : Cursor) : Takes c (fun p ls => ∃ level depth ms,
    ls = .name p.1 :: .symbol .dot :: ms ∧ Rendering True p.2 level depth ms ∧ depth < room)
    (readBinder inner c) := by
  refine Takes.name.bind fun x d ls hx => ?_
  subst hx
  refine Takes.bind_expect (by simp) fun d => ?_
  refine (takes_part hinner d).bind fun body d ms hbody => ?_
  obtain ⟨level, depth, h, hdepth⟩ := hbody
  exact .pure ⟨level, depth, ms, by simp, h, hdepth⟩

theorem takes_readBinding (c : Cursor) : Takes c (fun p ls => ∃ vLevel vDepth bLevel bDepth ks ms,
    ls = .symbol .equals :: ks ++ .keyword .inWord :: ms ∧ Rendering True p.1 vLevel vDepth ks ∧
    Rendering True p.2 bLevel bDepth ms ∧ max vDepth bDepth < room) (readBinding inner c) := by
  refine Takes.bind_expect (by simp) fun d => ?_
  refine (takes_part hinner d).bind fun value d ks hvalue => ?_
  refine Takes.bind_expect (by simp) fun d => ?_
  refine (takes_part hinner d).bind fun body d ms hbody => ?_
  obtain ⟨vLevel, vDepth, hv, hvDepth⟩ := hvalue
  obtain ⟨bLevel, bDepth, hb, hbDepth⟩ := hbody
  exact .pure ⟨vLevel, vDepth, bLevel, bDepth, ks, ms, by simp, hv, hb, by omega⟩

theorem takes_readLet (c : Cursor) : Takes c
    (fun e ls => Climbs room prefixLevel e lowest (.keyword .letWord :: ls)) (readLet inner c) := by
  unfold readLet
  split
  · rename_i hnext
    refine .skip hnext (by simp) ?_
    refine Takes.name.bind fun x d ls hx => ?_
    subst hx
    refine Takes.bind_expect (by simp) fun d => ?_
    refine Takes.name.bind fun y d ls hy => ?_
    subst hy
    refine Takes.bind_expect (by simp) fun d => ?_
    refine (takes_readBinding hinner d).bind fun p d ls hp => ?_
    obtain ⟨sLevel, sDepth, bLevel, bDepth, ks, ms, rfl, hs, hb, hdepth⟩ := hp
    exact .pure ⟨_, by simpa using Rendering.unpair x y hs hb, .inr ⟨trivial, rfl⟩, hdepth⟩
  · refine Takes.name.bind fun x d ls hx => ?_
    subst hx
    refine (takes_readBinding hinner d).bind fun p d ls hp => ?_
    obtain ⟨vLevel, vDepth, bLevel, bDepth, ks, ms, rfl, hv, hb, hdepth⟩ := hp
    exact .pure ⟨_, by simpa using Rendering.letIn x hv hb, .inr ⟨trivial, rfl⟩, hdepth⟩

theorem takes_readBranch (side : Keyword) (c : Cursor) : Takes c (fun p ls => ∃ level depth ms,
    ls = .keyword side :: .name p.1 :: .symbol .fatArrow :: ms ∧ Rendering True p.2 level depth ms ∧
    depth < room) (readBranch inner side c) := by
  refine Takes.bind_expect (by simp) fun d => ?_
  refine Takes.name.bind fun x d ls hx => ?_
  subst hx
  refine Takes.bind_expect (by simp) fun d => ?_
  refine (takes_part hinner d).bind fun body d ms hbody => ?_
  obtain ⟨level, depth, h, hdepth⟩ := hbody
  exact .pure ⟨level, depth, ms, by simp, h, hdepth⟩

theorem takes_readCase (c : Cursor) : Takes c
    (fun e ls => Climbs room prefixLevel e atomLevel (.keyword .caseWord :: ls)) (readCase inner c) := by
  refine (takes_part hinner c).bind fun s d ks hs => ?_
  refine Takes.bind_expect (by simp) fun d => ?_
  refine (takes_readBranch hinner .inl d).bind fun p d ls hp => ?_
  refine Takes.bind_expect (by simp) fun d => ?_
  refine (takes_readBranch hinner .inr d).bind fun q d ms hq => ?_
  refine Takes.bind_expect (by simp) fun d => ?_
  obtain ⟨sLevel, sDepth, hs, hsDepth⟩ := hs
  obtain ⟨lLevel, lDepth, ls, rfl, hl, hlDepth⟩ := hp
  obtain ⟨rLevel, rDepth, ms, rfl, hr, hrDepth⟩ := hq
  refine .pure ⟨_, by simpa using Rendering.caseOf p.1 q.1 hs hl hr, .inl (Nat.le_succ _), ?_⟩
  omega

theorem takes_readGroup (c : Cursor) : Takes c
    (fun e ls => Climbs room prefixLevel e atomLevel (.symbol .leftParen :: ls))
    (readGroup inner c) := by
  refine (takes_part hinner c).bind fun a d ls ha => ?_
  obtain ⟨aLevel, aDepth, ha, haDepth⟩ := ha
  dsimp only
  split
  · rename_i hnext
    refine .skip hnext (by simp) ?_
    exact .pure ⟨_, by simpa using ha.grouped, .inl (Nat.le_succ _), haDepth⟩
  · rename_i hnext
    refine .skip hnext (by simp) ?_
    refine (takes_part hinner _).bind fun b d ms hb => ?_
    obtain ⟨bLevel, bDepth, hb, hbDepth⟩ := hb
    refine Takes.bind_expect (by simp) fun d => ?_
    refine .pure ⟨_, by simpa using Rendering.pair ha hb, .inl (Nat.le_succ _), ?_⟩
    omega
  · exact .error _

theorem takes_unary (form : Unary) (c : Cursor) : Takes c
    (fun e ls => Climbs room prefixLevel (form.apply e) prefixLevel (form.lexeme :: ls))
    (inner prefixLevel c) :=
  (hinner prefixLevel c (Nat.le_refl _)).mono fun _ _ ⟨_, depth, h, hmin, hdepth⟩ =>
    ⟨depth + 1, .unary form h hmin, .inl (Nat.le_refl _), hdepth⟩

theorem takes_binder (form : Binder) (c : Cursor) : Takes c
    (fun p ls => Climbs room prefixLevel (form.apply p.1 p.2) lowest (.symbol form.symbol :: ls))
    (readBinder inner c) :=
  (takes_readBinder hinner c).mono fun _ _ ⟨_, depth, _, hls, h, hdepth⟩ =>
    ⟨depth + 1, hls ▸ .binder form _ h, .inr ⟨trivial, rfl⟩, hdepth⟩

theorem takes_readHead (c : Cursor) : Takes c
    (fun p ls => Climbs room prefixLevel p.1 p.2 ls) (readHead inner c) := by
  have hatom : prefixLevel ≤ atomLevel := Nat.le_succ _
  -- the lexeme that the reader goes by is part of the rendering already
  have hwrap {e : Expr} {level : Nat} {ls : List Lexeme} {d : Cursor}
      (h : Climbs room prefixLevel e level ls) :
      Takes d (fun p ms => Climbs room prefixLevel p.1 p.2 (ls ++ ms)) (.ok ((e, level), d)) :=
    .pure (by simpa using h)
  unfold readHead
  cases hnext : c.next with
  | name x => exact .skip hnext (by simp) (.pure ⟨0, .identifier x, .inl hatom, Nat.zero_le _⟩)
  | index n => exact .skip hnext (by simp) (.pure ⟨0, .index n, .inl hatom, Nat.zero_le _⟩)
  | sample s => exact .skip hnext (by simp) (.pure ⟨0, .sample s, .inl hatom, Nat.zero_le _⟩)
  | done => exact .error _
  | keyword k =>
    cases k with
    | inl => exact .skip hnext (by simp) ((takes_unary hinner .inl _).bind fun e d ls he => hwrap he)
    | inr => exact .skip hnext (by simp) ((takes_unary hinner .inr _).bind fun e d ls he => hwrap he)
    | letWord => exact .skip hnext (by simp) ((takes_readLet hinner _).bind fun e d ls he => hwrap he)
    | caseWord => exact .skip hnext (by simp) ((takes_readCase hinner _).bind fun e d ls he => hwrap he)
    | inWord => exact .error _
  | symbol s =>
    cases s with
    | bang => exact .skip hnext (by simp) ((takes_unary hinner .force _).bind fun e d ls he => hwrap he)
    | backslash =>
      exact .skip hnext (by simp) ((takes_binder hinner .lambda _).bind fun p d ls hp => hwrap hp)
    | ampersand =>
      exact .skip hnext (by simp) ((takes_binder hinner .fix _).bind fun p d ls hp => hwrap hp)
    | leftParen =>
      exact .skip hnext (by simp) ((takes_readGroup hinner _).bind fun e d ls he => hwrap he)
    | _ => exact .error _

-- An operator that may have the phrase so far as its left operand extends it to a rendering.
theorem takes_readOperation {ascribed : Reader Ty}
    (hascribed : ∀ c, Takes c (Ty.Fits room Ty.lowest) (ascribed c)) {lhs : Expr} {level depth : Nat}
    {ls : List Lexeme} (h : Rendering True lhs level depth ls) (hdepth : depth ≤ room)
    {op : Operator} (hleft : op.fixity.leftMin ≤ level) {c : Cursor}
    (hop : Operator.ofLexeme? c.next = some op) :
    Takes c (fun e ms => ∃ depth', Rendering True e op.fixity.level depth' (ls ++ ms) ∧ depth' ≤ room)
      (readOperation inner ascribed lhs op c) := by
  cases op with
  | apply =>
    refine (hinner _ c (rightMin_le_prefixLevel .apply)).bind fun x d ms hx => ?_
    obtain ⟨xLevel, xDepth, hx, hxMin, hxDepth⟩ := hx
    exact .pure ⟨_, by simpa using h.apply hleft hx hxMin, by omega⟩
  | cons =>
    refine .skip (eq_colonColon_of_ofLexeme? hop) (by simp) ?_
    refine (hinner _ _ (rightMin_le_prefixLevel .cons)).bind fun t d ms ht => ?_
    obtain ⟨tLevel, tDepth, ht, htMin, htDepth⟩ := ht
    exact .pure ⟨_, by simpa using h.cons hleft ht htMin, by omega⟩
  | annotate =>
    refine .skip (eq_colon_of_ofLexeme? hop) (by simp) ?_
    refine (hascribed _).bind fun t d ms ht => ?_
    obtain ⟨tLevel, tDepth, ht, -, htDepth⟩ := ht
    exact .pure ⟨_, by simpa using h.annotate hleft ht, by omega⟩

-- The loop keeps that the lexemes so far are a rendering of the expression so far, whose form has the
-- level that the loop goes by. A binder ends it, since no operator has one as its left operand.
theorem takes_climb {ascribed : Reader Ty}
    (hascribed : ∀ c, Takes c (Ty.Fits room Ty.lowest) (ascribed c)) {min : Nat} (fuel : Nat) :
    ∀ {e : Expr} {level : Nat} {ls : List Lexeme} (c : Cursor), Climbs room min e level ls →
      Takes c (fun a ms => Fits (room + 1) min a (ls ++ ms))
        (climb inner ascribed min fuel (e, level) c) := by
  induction fuel with
  | zero =>
    rintro e level ls c ⟨depth, h, hmin, hdepth⟩
    exact .pure ⟨level, depth, by simpa using h, hmin, Nat.lt_succ_of_le hdepth⟩
  | succ fuel ih =>
    rintro e level ls c ⟨depth, h, hmin, hdepth⟩
    -- at an operator that may not go on, the expression so far is the result
    have hstop : Takes c (fun a ms => Fits (room + 1) min a (ls ++ ms)) (.ok (e, c)) :=
      .pure ⟨level, depth, by simpa using h, hmin, Nat.lt_succ_of_le hdepth⟩
    rw [climb]
    split
    · exact hstop
    · rename_i op hop
      split
      · exact hstop
      · rename_i hlevels
        rw [not_or, Nat.not_lt, Nat.not_lt] at hlevels
        refine (takes_readOperation hinner hascribed h hdepth hlevels.2 hop).bind fun a d ms ha => ?_
        obtain ⟨depth', ha, hdepth'⟩ := ha
        have hclimb : Climbs room min a op.fixity.level (ls ++ ms) :=
          ⟨depth', ha, .inl hlevels.1, hdepth'⟩
        simpa using ih d hclimb

end Parts

-- What is read as an expression from `min` on is a lax rendering of it from `min` on.
theorem takes_read (room : Nat) :
    ∀ min c, min ≤ prefixLevel → Takes c (Fits room min) (read room min c) := by
  induction room with
  | zero => exact fun _ c _ => .error c.tooDeep
  | succ room ih =>
    intro min c hmin
    refine (takes_readHead ih c).bind fun p d ls hp => ?_
    obtain ⟨e, level⟩ := p
    obtain ⟨depth, h, hlevel, hdepth⟩ := hp
    have hascribed (c : Cursor) := Ty.takes_read room Ty.lowest c (Nat.zero_le _)
    exact takes_climb ih hascribed _ d ⟨depth, h, hlevel.mono hmin, hdepth⟩

end SampleStream.Expr
