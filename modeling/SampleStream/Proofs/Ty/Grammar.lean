import SampleStream.Proofs.Parsing
import SampleStream.Proofs.Ty.Soundness

/-!
# The grammar of types

Types as a grammar without levels: one nonterminal for each, in which every operator groups to the right.
What a nonterminal derives is what the table of levels lets stand there (`derives_iff`), so that reading
types accepts this grammar and nothing else, up to the limit of nesting.
-/

namespace SampleStream.Ty

/-- What a phrase may be without parentheses, from any type down to one without infix operators. -/
inductive Nonterminal
  | function
  | sum
  | product
  | unary
deriving DecidableEq, Repr

/-- The least level of a form that stands for it. -/
def Nonterminal.level : Nonterminal → Nat
  | .function => lowest
  | .sum => Operator.sum.fixity.level
  | .product => Operator.product.fixity.level
  | .unary => streamLevel

/-- `Derives n t depth ls`: the lexemes `ls` derive the type `t` from the nonterminal. Each right operand,
operand of a tilde and parenthesised type is one level of nesting deeper, and `depth` is the deepest. -/
inductive Derives : Nonterminal → Ty → Nat → List Lexeme → Prop
  | ofSum {t : Ty} {depth : Nat} {ls : List Lexeme} (h : Derives .sum t depth ls) :
      Derives .function t depth ls
  | arrow {a b : Ty} {aDepth bDepth : Nat} {ls ms : List Lexeme} (left : Derives .sum a aDepth ls)
      (right : Derives .function b bDepth ms) :
      Derives .function (.function a b) (max aDepth (bDepth + 1)) (ls ++ .symbol .arrow :: ms)
  | ofProduct {t : Ty} {depth : Nat} {ls : List Lexeme} (h : Derives .product t depth ls) :
      Derives .sum t depth ls
  | plus {a b : Ty} {aDepth bDepth : Nat} {ls ms : List Lexeme} (left : Derives .product a aDepth ls)
      (right : Derives .sum b bDepth ms) :
      Derives .sum (.sum a b) (max aDepth (bDepth + 1)) (ls ++ .symbol .plus :: ms)
  | ofUnary {t : Ty} {depth : Nat} {ls : List Lexeme} (h : Derives .unary t depth ls) :
      Derives .product t depth ls
  | star {a b : Ty} {aDepth bDepth : Nat} {ls ms : List Lexeme} (left : Derives .unary a aDepth ls)
      (right : Derives .product b bDepth ms) :
      Derives .product (.product a b) (max aDepth (bDepth + 1)) (ls ++ .symbol .star :: ms)
  | tilde {t : Ty} {depth : Nat} {ls : List Lexeme} (inner : Derives .unary t depth ls) :
      Derives .unary (.stream t) (depth + 1) (.symbol .tilde :: ls)
  | base (b : BaseTy) : Derives .unary (.base b) 0 [.name b.keyword]
  | grouped {t : Ty} {depth : Nat} {ls : List Lexeme} (inner : Derives .function t depth ls) :
      Derives .unary t (depth + 1) (.symbol .leftParen :: ls ++ [.symbol .rightParen])

variable {t : Ty} {depth : Nat} {ls : List Lexeme}

-- A derivation is a rendering, whose outermost form the nonterminal lets stand.
theorem Derives.rendering {n : Nonterminal} (h : Derives n t depth ls) :
    ∃ level, Rendering t level depth ls ∧ n.level ≤ level := by
  have joined {a b : Ty} {aDepth bDepth aLevel bLevel : Nat} {ls ms : List Lexeme} (op : Operator)
      (ha : Rendering a aLevel aDepth ls ∧ op.fixity.leftMin ≤ aLevel)
      (hb : Rendering b bLevel bDepth ms ∧ op.fixity.rightMin ≤ bLevel) :
      ∃ level, Rendering (op.apply a b) level (max aDepth (bDepth + 1)) (ls ++ .symbol op.symbol :: ms) ∧
        op.fixity.level ≤ level :=
    ⟨op.fixity.level, .operation op ha.1 ha.2 hb.1 hb.2, Nat.le_refl _⟩
  induction h with
  | ofSum h ih | ofProduct h ih | ofUnary h ih =>
    obtain ⟨level, hrendering, hle⟩ := ih
    exact ⟨level, hrendering, Nat.le_of_succ_le hle⟩
  | arrow left right iha ihb =>
    obtain ⟨aLevel, ha⟩ := iha
    obtain ⟨bLevel, hb⟩ := ihb
    exact joined .function ha hb
  | plus left right iha ihb =>
    obtain ⟨aLevel, ha⟩ := iha
    obtain ⟨bLevel, hb⟩ := ihb
    exact joined .sum ha hb
  | star left right iha ihb =>
    obtain ⟨aLevel, ha⟩ := iha
    obtain ⟨bLevel, hb⟩ := ihb
    exact joined .product ha hb
  | tilde inner ih =>
    obtain ⟨level, hrendering, hle⟩ := ih
    exact ⟨streamLevel, .stream hrendering hle, Nat.le_refl _⟩
  | base b => exact ⟨atomLevel, .base b, by decide⟩
  | grouped inner ih =>
    obtain ⟨level, hrendering, -⟩ := ih
    exact ⟨atomLevel, .grouped hrendering, by decide⟩

-- What a tighter nonterminal derives, a looser one derives too.
theorem Derives.loosen {m n : Nonterminal} (h : Derives m t depth ls) (hle : n.level ≤ m.level) :
    Derives n t depth ls := by
  cases n with
  | unary =>
    cases m with
    | unary => exact h
    | _ => exact absurd hle (by decide)
  | product =>
    cases m with
    | unary => exact .ofUnary h
    | product => exact h
    | _ => exact absurd hle (by decide)
  | sum =>
    cases m with
    | unary => exact .ofProduct (.ofUnary h)
    | product => exact .ofProduct h
    | sum => exact h
    | function => exact absurd hle (by decide)
  | function =>
    cases m with
    | unary => exact .ofSum (.ofProduct (.ofUnary h))
    | product => exact .ofSum (.ofProduct h)
    | sum => exact .ofSum h
    | function => exact h

theorem Rendering.derives {level : Nat} (h : Rendering t level depth ls) {n : Nonterminal}
    (hn : n.level ≤ level) : Derives n t depth ls := by
  induction h generalizing n with
  | base b => exact (Derives.base b).loosen (by cases n <;> decide)
  | stream inner hmin ih => exact (ih (n := .unary) hmin).tilde.loosen hn
  | operation op left hleft right hright iha ihb =>
    -- the operator is that of one nonterminal, and its operands' minimums are the levels of others
    cases op with
    | function =>
      have h : Derives .function _ _ _ := .arrow (iha (n := .sum) hleft) (ihb (n := .function) hright)
      exact h.loosen hn
    | sum =>
      have h : Derives .sum _ _ _ := .plus (iha (n := .product) hleft) (ihb (n := .sum) hright)
      exact h.loosen hn
    | product =>
      have h : Derives .product _ _ _ := .star (iha (n := .unary) hleft) (ihb (n := .product) hright)
      exact h.loosen hn
  | grouped inner ih =>
    have h : Derives .unary _ _ _ := (ih (n := .function) (Nat.zero_le _)).grouped
    exact h.loosen (by cases n <;> decide)

/-- What a nonterminal derives is what the table of levels lets stand there. -/
theorem derives_iff {n : Nonterminal} :
    Derives n t depth ls ↔ ∃ level, Rendering t level depth ls ∧ n.level ≤ level :=
  ⟨Derives.rendering, fun ⟨_, h, hn⟩ => h.derives hn⟩

-- What is read from a list of tokens derives from the widest nonterminal, up to the end.
theorem derives_of_ofTokens {room : Nat} {ts : List Token} (hts : ts.map Token.lexeme = ls ++ [.done])
    (hdone : Lexeme.done ∉ ls) (h : ofTokens room ts = .ok t) :
    ∃ depth, Derives .function t depth ls ∧ depth < room := by
  obtain ⟨level, depth, hrendering, -, hdepth⟩ :=
    (takes_read room lowest (.start ts) (Nat.zero_le _)).closed hts hdone
      (fun _ _ ⟨_, _, hrendering, _⟩ => hrendering.done_not_mem) h
  exact ⟨depth, hrendering.derives (Nat.zero_le _), hdepth⟩

-- With room for the nesting the derived type is read, and without it nothing else is.
theorem Derives.ofTokens {n : Nonterminal} (h : Derives n t depth ls) {ts : List Token}
    (hts : ts.map Token.lexeme = ls ++ [.done]) (room : Nat) :
    (depth < room → Ty.ofTokens room ts = .ok t) ∧ (¬depth < room → TooDeep (Ty.ofTokens room ts)) := by
  obtain ⟨level, hrendering, -⟩ := h.rendering
  exact ofTokens_of_rendering hrendering hts room

-- The grammar is unambiguous, the nesting included.
theorem Derives.unique {m n : Nonterminal} {u : Ty} {other : Nat} (h : Derives m t depth ls)
    (h' : Derives n u other ls) : t = u ∧ depth = other := by
  -- any tokens with these lexemes will do, since spans play no part
  let ts : List Token := (ls ++ [Lexeme.done]).map fun l => ⟨l, .point 0⟩
  have hts : ts.map Token.lexeme = ls ++ [.done] := by
    simp only [ts, List.map_map, Function.comp_def, List.map_id']
  have hfit (room : Nat) := h.ofTokens hts room
  have hfit' (room : Nat) := h'.ofTokens hts room
  have hread := (hfit (max depth other + 1)).1 (by omega)
  have hread' := (hfit' (max depth other + 1)).1 (by omega)
  constructor
  · rw [hread] at hread'
    cases hread'
    rfl
  · -- with just enough room for one of them, the other would be refused
    rcases Nat.lt_trichotomy depth other with hlt | heq | hlt
    · obtain ⟨span, hdeep⟩ := (hfit' other).2 (Nat.lt_irrefl _)
      rw [(hfit other).1 hlt] at hdeep
      cases hdeep
    · exact heq
    · obtain ⟨span, hdeep⟩ := (hfit depth).2 (Nat.lt_irrefl _)
      rw [(hfit' depth).1 hlt] at hdeep
      cases hdeep

/-- Reading types accepts the grammar, all of it and nothing else, as far as the nesting may go: a source
is read as a type if and only if its tokens derive that type, and where they derive a type that nests
deeper the source is refused for that. No tokens derive two types. -/
theorem parse_eq_ok_iff_derives :
    (∀ (source : String) (t : Ty), parse source = .ok t ↔ ∃ ts ls depth, tokenize source = .ok ts ∧
      ts.map Token.lexeme = ls ++ [.done] ∧ Derives .function t depth ls ∧ depth + 1 ≤ maxNesting) ∧
    (∀ (source : String) (t : Ty) (ts : List Token) (ls : List Lexeme) (depth : Nat),
      tokenize source = .ok ts → ts.map Token.lexeme = ls ++ [.done] → Derives .function t depth ls →
      maxNesting < depth + 1 → TooDeep (parse source)) ∧
    ∀ (t u : Ty) (depth other : Nat) (ls : List Lexeme), Derives .function t depth ls →
      Derives .function u other ls → t = u ∧ depth = other := by
  have hparse {source : String} {ts : List Token} (hts : tokenize source = .ok ts) :
      parse source = ofTokens maxNesting ts := by
    rw [parse, hts]
    rfl
  refine ⟨fun source t => ⟨fun h => ?_, ?_⟩, ?_, fun _ _ _ _ _ h h' => h.unique h'⟩
  · cases hts : tokenize source with
    | error e =>
      rw [parse, hts] at h
      cases h
    | ok ts =>
      rw [hparse hts] at h
      obtain ⟨ls, hspells, hmap⟩ := spells_of_tokenize hts
      have hdone : Lexeme.done ∉ ls := fun hmem => hspells.isWritable _ hmem
      obtain ⟨depth, hderives, hdepth⟩ := derives_of_ofTokens hmap hdone h
      exact ⟨ts, ls, depth, rfl, hmap, hderives, hdepth⟩
  · rintro ⟨ts, ls, depth, hts, hmap, hderives, hdepth⟩
    rw [hparse hts]
    exact (hderives.ofTokens hmap maxNesting).1 hdepth
  · intro source t ts ls depth hts hmap hderives hdepth
    rw [hparse hts]
    exact (hderives.ofTokens hmap maxNesting).2 (by omega)

/-- A type that is read, and a hundred tildes, which are one level too many. -/
theorem parse_eq_ok_iff_derives_stream :
    let deep := stream^[100] (.base .sample)
    parse "~unit -> sample" = .ok (.function (.stream (.base .unit)) (.base .sample)) ∧
      maxNesting < deep.depth + 1 ∧ TooDeep (parse deep.text) := by
  intro deep
  have hunit : IsWord "unit" := ⟨by decide, by decide, by decide⟩
  have hsample : IsWord "sample" := ⟨by decide, by decide, by decide⟩
  have hspells : Spells "~unit -> sample".toList
      [.symbol .tilde, .name "unit", .symbol .arrow, .name "sample"] :=
    .lexeme (.symbol .tilde) trivial (.lexeme (.name hunit) rfl (.blank rfl
      (.lexeme (.symbol .arrow) trivial (.blank rfl (.lexeme (.name hsample) rfl .nil)))))
  obtain ⟨ts, hts, hmap⟩ := tokenize_of_spells hspells
  have hderives : Derives .function _ 1 _ :=
    .arrow (.ofProduct (.ofUnary (.tilde (.base .unit)))) (.ofSum (.ofProduct (.ofUnary (.base .sample))))
  obtain ⟨us, hus, humap⟩ := tokenize_of_spells deep.spelled_phrase.text
  have hdeep : Derives .function deep deep.depth _ := deep.rendering_phrase.derives (Nat.zero_le _)
  have hlt : maxNesting < deep.depth + 1 := by decide +kernel
  exact ⟨(parse_eq_ok_iff_derives.1 _ _).mpr ⟨ts, _, 1, hts, hmap, hderives, by decide⟩, hlt,
    parse_eq_ok_iff_derives.2.1 _ deep us _ _ hus humap hdeep hlt⟩

end SampleStream.Ty
