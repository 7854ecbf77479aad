import SampleStream.Proofs.Viable

/-!
# How deep and how far the readers go

A turn leaves the next token or takes it, and never takes the end of the text. It leaves it only so often
before it takes it, because operators that end a phrase leave one thing less to read, and because what comes
next can begin the argument that it brings. So the readers come to an end (`wellFounded_turns`), and what a
phrase is read from lies between where it begins and the end of the text (`descent`).
-/

namespace SampleStream

/-- What is read of the category. -/
def Category.Tree : Category → Type
  | .ty => Ty
  | .expr => Expr

/-- The reader of the phrases of the category. -/
def Category.read : (k : Category) → (room min : Nat) → Reader k.Tree
  | .ty => Ty.read
  | .expr => Expr.read

theorem Category.enacts_read (k : Category) {room limit : Nat} (min : Nat) (c : Cursor) (rest : List Item)
    (h : room + openPhrases rest = limit) :
    Enacts limit ⟨.phrase k min :: rest, c⟩ (fun _ => rest) (k.read room min c) := by
  cases k with
  | ty => exact Ty.enacts_read room min c rest h
  | expr => exact Expr.enacts_read room min c rest h

namespace Cursor

/-- The cursor with `n` tokens of the list behind it. -/
def before (tokens : List Token) : (n : Nat) → Cursor
  | 0 => .start tokens
  | n + 1 => ⟨tokens[n]?.map Token.span, tokens.drop (n + 1)⟩

variable {tokens : List Token} {n : Nat}

theorem rest_before (tokens : List Token) (n : Nat) : (before tokens n).rest = tokens.drop n := by
  cases n <;> rfl

theorem rest_before_eq_cons (h : n < tokens.length) :
    (before tokens n).rest = tokens[n] :: tokens.drop (n + 1) := by
  rw [rest_before, List.drop_eq_getElem_cons h]

theorem peek_before (h : n < tokens.length) : (before tokens n).peek = tokens[n] := by
  rw [peek, rest_before_eq_cons h, List.headD_cons]

theorem skip_before (h : n < tokens.length) : (before tokens n).skip = before tokens (n + 1) := by
  have hrest := rest_before_eq_cons h
  unfold skip
  split
  · rename_i hnil
    rw [hnil] at hrest
    cases hrest
  · rename_i t ts hcons
    rw [hcons] at hrest
    cases hrest
    rw [before, List.getElem?_eq_getElem h]
    rfl

-- The complaint about nesting points at the token behind the cursor, or at the first one.
theorem tooDeep_before (h : n < tokens.length) :
    (before tokens n).tooDeep = ⟨tokens[n - 1].span, .nestingTooDeep maxNesting⟩ := by
  cases n with
  | zero => rw [tooDeep, peek_before h]; rfl
  | succ n => simp [tooDeep, before, List.getElem?_eq_getElem (Nat.lt_of_succ_lt h)]

end Cursor

/-- The items that leave the lexeme where it is, each with what then stands in its place. -/
inductive Item.Stays : Item → List Item → Prop
  | begin (k : Category) (min : Nat) : Stays (.phrase k min) [.head k min]
  | finish (k : Category) (min level : Nat) : Stays (.climb k min level) []
  | argument (min level : Nat) : Stays (.climb .expr min level)
      [.phrase .expr Expr.Operator.apply.fixity.rightMin,
        .climb .expr min Expr.Operator.apply.fixity.level]

/-- What may be made of a lexeme: it is left in one of these ways, or it is taken and as many phrases are
open as before. -/
def Item.Regular (i : Item) : Response → Prop
  | .stay items => i.Stays items
  | .take items => openPhrases items = i.isOpen.toNat
  | .refuse _ => True

theorem Ty.regular_headResponse (min : Nat) (l : Lexeme) :
    (Item.head .ty min).Regular (headResponse min l) := by
  unfold headResponse
  repeat' split
  all_goals first | exact rfl | exact trivial

theorem Ty.regular_climbResponse (min level : Nat) (l : Lexeme) :
    (Item.climb .ty min level).Regular (climbResponse min level l) := by
  unfold climbResponse
  repeat' split
  all_goals first | exact rfl | exact .finish ..

theorem Expr.regular_headResponse (min : Nat) (l : Lexeme) :
    (Item.head .expr min).Regular (headResponse min l) := by
  cases l with
  | name _ | index _ | sample _ => exact rfl
  | symbol s => cases s <;> first | exact rfl | exact trivial
  | keyword w => cases w <;> first | exact rfl | exact trivial
  | done => exact trivial

theorem Expr.regular_climbResponse (min level : Nat) (l : Lexeme) :
    (Item.climb .expr min level).Regular (climbResponse min level l) := by
  unfold climbResponse
  split
  · exact .finish ..
  · rename_i op _
    split
    · exact .finish ..
    · cases op with
      | apply => exact .argument min level
      | annotate => exact rfl
      | cons => exact rfl

namespace Item

theorem regular_fixed {i : Item} (hi : i.isOpen = false) (wanted l : Lexeme) :
    i.Regular (fixed wanted l) := by
  unfold fixed
  split
  · exact congrArg Bool.toNat hi.symm
  · exact trivial

theorem regular_response (i : Item) (l : Lexeme) : i.Regular (i.response l) := by
  cases i with
  | symbol s => exact regular_fixed rfl _ _
  | keyword w => exact regular_fixed rfl _ _
  | phrase k min => exact .begin k min
  | head k min =>
    cases k with
    | ty => exact Ty.regular_headResponse min l
    | expr => exact Expr.regular_headResponse min l
  | climb k min level =>
    cases k with
    | ty => exact Ty.regular_climbResponse min level l
    | expr => exact Expr.regular_climbResponse min level l
  | name | binding | close =>
    unfold response
    split <;> simp_all [Regular, openPhrases, isOpen]

theorem stays_of_response {i : Item} {l : Lexeme} {items : List Item} (h : i.response l = .stay items) :
    i.Stays items := by
  have hregular := i.regular_response l
  rwa [h] at hregular

theorem openPhrases_of_response {i : Item} {l : Lexeme} {items : List Item}
    (h : i.response l = .take items) : openPhrases items = i.isOpen.toNat := by
  have hregular := i.regular_response l
  rwa [h] at hregular

end Item

theorem openPhrases_append (items rest : List Item) :
    openPhrases (items ++ rest) = openPhrases items + openPhrases rest := by
  induction items with
  | nil => rw [List.nil_append, openPhrases, Nat.zero_add]
  | cons i items ih =>
    rw [List.cons_append, openPhrases, openPhrases, ih]
    omega

namespace Progress

variable {limit : Nat} {p q : Progress}

/-- A bound on the turns that leave the next lexeme where it is. -/
def patience : List Item → Nat
  | .head .. :: _ => 0
  | .phrase .. :: _ => 1
  | agenda => agenda.length + 1

theorem patience_le (agenda : List Item) : patience agenda ≤ agenda.length + 1 := by
  unfold patience
  split <;> simp

theorem patience_climb (k : Category) (min level : Nat) (rest : List Item) :
    patience (.climb k min level :: rest) = rest.length + 2 := rfl

theorem patience_lt {i : Item} {items : List Item} (h : i.Stays items) (rest : List Item) :
    patience (items ++ rest) < patience (i :: rest) := by
  cases h with
  | begin k min => exact Nat.zero_lt_one
  | finish k min level =>
    have hle := patience_le rest
    rw [patience_climb, List.nil_append]
    omega
  | argument min level =>
    rw [patience_climb]
    exact Nat.succ_lt_succ (Nat.succ_pos _)

-- What is taken is a token of the text.
theorem length_rest_take {i : Item} {c : Cursor} {items : List Item} (h : i.response c.next = .take items) :
    c.skip.rest.length + 1 = c.rest.length := by
  have hnext : c.next ≠ .done := by
    intro hdone
    rw [hdone] at h
    exact i.response_done items h
  obtain ⟨t, ts, hts⟩ := Cursor.exists_rest_of_next hnext
  rw [Cursor.rest_skip hts, hts, List.length_cons]

theorem length_rest_turn (h : p.turn limit = .ok (some q)) :
    q.cursor.rest.length ≤ p.cursor.rest.length := by
  obtain ⟨i, rest, items, -, -, -, ⟨-, hcursor⟩ | ⟨htake, hcursor⟩⟩ := turn_cases h
  · rw [hcursor]
  · have hlength := length_rest_take htake
    rw [hcursor]
    omega

theorem Reaches.length_rest (h : p.Reaches limit q) : q.cursor.rest.length ≤ p.cursor.rest.length := by
  induction h with
  | refl => exact Nat.le_refl _
  | tail _ hturn ih => exact Nat.le_trans (length_rest_turn hturn) ih

/-- No run of turns goes on for ever: each takes a token, or leaves it and is one of the few that may. -/
theorem wellFounded_turns (limit : Nat) :
    WellFounded fun q p : Progress => p.turn limit = .ok (some q) := by
  let measure (p : Progress) : Nat × Nat := (p.cursor.rest.length, patience p.agenda)
  refine Subrelation.wf (fun {q p} h => ?_) (InvImage.wf measure (Prod.lex Nat.lt_wfRel Nat.lt_wfRel).wf)
  obtain ⟨i, rest, items, hagenda, -, hagenda', ⟨hstay, hcursor⟩ | ⟨htake, hcursor⟩⟩ := turn_cases h
  · refine Prod.lex_def.mpr (.inr ⟨congrArg (fun c => c.rest.length) hcursor, ?_⟩)
    change patience q.agenda < patience p.agenda
    rw [hagenda, hagenda']
    exact patience_lt (Item.stays_of_response hstay) rest
  · refine Prod.lex_def.mpr (.inl ?_)
    have hlength := length_rest_take htake
    change q.cursor.rest.length < p.cursor.rest.length
    rw [hcursor]
    omega

-- A phrase has begun with a token once it is more than begun.
theorem Reaches.phrase_cases {k : Category} {min : Nat} {rest : List Item} {c : Cursor}
    (h : Reaches limit ⟨.phrase k min :: rest, c⟩ q) :
    q.agenda = .phrase k min :: rest ∨ q.agenda = .head k min :: rest ∨
      q.cursor.rest.length < c.rest.length := by
  obtain rfl | ⟨p, hfirst, hp⟩ := Relation.ReflTransGen.cases_head h
  · exact .inl rfl
  obtain ⟨i, rest', items, hagenda, -, hagenda', hturn⟩ := turn_cases hfirst
  cases hagenda
  obtain ⟨hstay, hcursor⟩ | ⟨htake, -⟩ := hturn
  · cases hstay
    obtain rfl | ⟨p', hsecond, hp'⟩ := Relation.ReflTransGen.cases_head hp
    · exact .inr (.inl hagenda')
    obtain ⟨i, rest', items, hhead, -, -, hturn⟩ := turn_cases hsecond
    rw [hagenda'] at hhead
    cases hhead
    obtain ⟨hstay, -⟩ | ⟨htake, hcursor'⟩ := hturn
    · cases Item.stays_of_response hstay
    · have hlength := length_rest_take htake
      have hle := Reaches.length_rest hp'
      rw [hcursor', hcursor] at hle
      rw [hcursor] at hlength
      dsimp only at hlength hle
      omega
  · cases htake

-- An operator that does not end a phrase comes with a token at least.
theorem Reaches.climb_again {k : Category} {min level level' : Nat} {rest : List Item} {s : Progress}
    (hp : p.agenda = .climb k min level :: rest) (hturn : p.turn limit = .ok (some q))
    (hgoes : q.agenda ≠ rest) (h : q.Reaches limit s) (hs : s.agenda = .climb k min level' :: rest) :
    s.cursor.rest.length < p.cursor.rest.length := by
  obtain ⟨i, rest', items, hagenda, -, hagenda', ⟨hstay, hcursor⟩ | ⟨htake, hcursor⟩⟩ := turn_cases hturn
  · rw [hp] at hagenda
    cases hagenda
    cases Item.stays_of_response hstay with
    | finish => exact absurd hagenda' hgoes
    | argument =>
      obtain ⟨agenda, c⟩ := q
      dsimp only at hagenda' hcursor
      subst hagenda' hcursor
      obtain hagain | hagain | hless := h.phrase_cases
      · rw [hs] at hagain
        cases hagain
      · rw [hs] at hagain
        cases hagain
      · exact hless
  · have hlength := length_rest_take htake
    have hle := h.length_rest
    rw [hcursor] at hle
    omega

theorem depth_turn (h : p.turn limit = .ok (some q)) (hp : p.depth ≤ limit) : q.depth ≤ limit := by
  obtain ⟨i, rest, items, hagenda, hfits, hagenda', hturn⟩ := turn_cases h
  rw [depth, hagenda, openPhrases] at hp
  rw [depth, hagenda', openPhrases_append]
  obtain ⟨hstay, -⟩ | ⟨htake, -⟩ := hturn
  · cases Item.stays_of_response hstay with
    | begin k min =>
      have hlt : openPhrases rest < limit := by simpa [Item.fits] using hfits
      change 0 + 1 + openPhrases rest ≤ limit
      omega
    | finish k min level =>
      change 0 + openPhrases rest ≤ limit
      omega
    | argument min level =>
      change openPhrases rest + 1 ≤ limit at hp
      change 0 + 1 + 0 + openPhrases rest ≤ limit
      omega
  · rw [Item.openPhrases_of_response htake]
    omega

/-- The place is one of the text, behind `n` of its tokens, and no more phrases are open than may be. -/
structure Stands (limit : Nat) (tokens : List Token) (n : Nat) (p : Progress) : Prop where
  depth_le : p.depth ≤ limit
  lt_length : n < tokens.length
  cursor_eq : p.cursor = .before tokens n

namespace Stands

variable {tokens : List Token} {n : Nat}

-- The end of the text is not taken, so that a token comes next again.
theorem turn (hends : (tokens.map Token.lexeme).getLast? = some .done) (hp : Stands limit tokens n p)
    (h : p.turn limit = .ok (some q)) : ∃ m, n ≤ m ∧ Stands limit tokens m q := by
  have hdepth := depth_turn h hp.depth_le
  have hlt := hp.lt_length
  obtain ⟨i, rest, items, -, -, -, ⟨-, hcursor⟩ | ⟨htake, hcursor⟩⟩ := turn_cases h
  · exact ⟨n, Nat.le_refl n, hdepth, hlt, hcursor.trans hp.cursor_eq⟩
  · refine ⟨n + 1, Nat.le_succ n, hdepth, ?_, ?_⟩
    · refine Nat.lt_of_le_of_ne hlt fun hlast => ?_
      have hnext : p.cursor.next = .done := by
        rw [List.getLast?_eq_getElem?, List.length_map, ← hlast, Nat.add_sub_cancel, List.getElem?_map,
          List.getElem?_eq_getElem hlt] at hends
        rw [Cursor.next, hp.cursor_eq, Cursor.peek_before hlt]
        exact Option.some.inj hends
      rw [hnext] at htake
      exact i.response_done items htake
    · rw [hcursor, hp.cursor_eq, Cursor.skip_before hlt]

theorem reaches (hends : (tokens.map Token.lexeme).getLast? = some .done) (hp : Stands limit tokens n p)
    (h : p.Reaches limit q) : ∃ m, n ≤ m ∧ Stands limit tokens m q := by
  induction h with
  | refl => exact ⟨n, Nat.le_refl n, hp⟩
  | tail _ hturn ih =>
    obtain ⟨m, hm, hstands⟩ := ih
    obtain ⟨m', hm', hstands'⟩ := hstands.turn hends hturn
    exact ⟨m', Nat.le_trans hm hm', hstands'⟩

theorem lt_of_length_rest {m : Nat} (hp : Stands limit tokens n p) (hq : Stands limit tokens m q)
    (h : q.cursor.rest.length < p.cursor.rest.length) : n < m := by
  have hlt := hp.lt_length
  rw [hp.cursor_eq, hq.cursor_eq, Cursor.rest_before, Cursor.rest_before, List.length_drop,
    List.length_drop] at h
  omega

end Stands

/-- What the reader of phrases does behind `n` tokens, with the agenda `below` to go on with afterwards. -/
structure Descends (k : Category) (min : Nat) (tokens : List Token) (n : Nat) (below : List Item) :
    Prop where
  /-- no run of turns goes on for ever -/
  halts : Acc (fun q p : Progress => p.turn maxNesting = .ok (some q))
    ⟨.phrase k min :: below, .before tokens n⟩
  /-- the turns end as the reader does: with as many phrases open as before, or with its complaint -/
  enacts : Enacts maxNesting ⟨.phrase k min :: below, .before tokens n⟩ (fun _ => below)
    (k.read (maxNesting - openPhrases below) min (.before tokens n))
  /-- what is read ends further on, and not behind the end of the text -/
  advances : ∀ a d, k.read (maxNesting - openPhrases below) min (.before tokens n) = .ok (a, d) →
    ∃ m, n < m ∧ m < tokens.length ∧ d = .before tokens m
  /-- on the way no more phrases are open than may be, and each place is one of the text, where a
  complaint about nesting has the span of a token -/
  stands : ∀ q, Reaches maxNesting ⟨.phrase k min :: below, .before tokens n⟩ q →
    q.depth ≤ maxNesting ∧ ∃ m, n ≤ m ∧ ∃ h : m < tokens.length, q.cursor = .before tokens m ∧
      q.cursor.tooDeep = ⟨tokens[m - 1].span, .nestingTooDeep maxNesting⟩
  /-- an operator that does not end its phrase takes a token before the next operator is looked at -/
  climbs : ∀ p q s k' min' level level' rest,
    Reaches maxNesting ⟨.phrase k min :: below, .before tokens n⟩ p →
    p.agenda = .climb k' min' level :: rest → p.turn maxNesting = .ok (some q) → q.agenda ≠ rest →
    q.Reaches maxNesting s → s.agenda = .climb k' min' level' :: rest →
    ∃ i j, p.cursor = .before tokens i ∧ s.cursor = .before tokens j ∧ i < j

/-- Wherever it begins in a text that ends, and however many phrases are open, a phrase is read in finitely
many turns, from a token at least and from none behind the end, with the nesting bounded all the while. -/
theorem descent (k : Category) (min : Nat) {tokens : List Token} {n : Nat} {below : List Item}
    (hends : (tokens.map Token.lexeme).getLast? = some .done) (hn : n < tokens.length)
    (hdepth : openPhrases below ≤ maxNesting) : Descends k min tokens n below := by
  have hstart : Stands maxNesting tokens n ⟨.phrase k min :: below, .before tokens n⟩ :=
    ⟨hdepth, hn, rfl⟩
  have henacts := k.enacts_read min (.before tokens n) below (Nat.sub_add_cancel hdepth)
  refine ⟨(wellFounded_turns maxNesting).apply _, henacts, ?_, ?_, ?_⟩
  · intro a d hread
    rw [hread] at henacts
    obtain ⟨m, -, hstands⟩ := hstart.reaches hends henacts
    refine ⟨m, ?_, hstands.lt_length, hstands.cursor_eq⟩
    obtain hbelow | hbelow | hless := henacts.phrase_cases
    · exact absurd hbelow (List.ne_cons_self)
    · exact absurd hbelow (List.ne_cons_self)
    · exact hstart.lt_of_length_rest hstands hless
  · intro q hq
    obtain ⟨m, hm, hstands⟩ := hstart.reaches hends hq
    refine ⟨hstands.depth_le, m, hm, hstands.lt_length, hstands.cursor_eq, ?_⟩
    rw [hstands.cursor_eq, Cursor.tooDeep_before hstands.lt_length]
  · intro p q s k' min' level level' rest hp hagenda hturn hgoes hs hagain
    obtain ⟨i, -, hi⟩ := hstart.reaches hends hp
    obtain ⟨j, -, hj⟩ := hi.reaches hends (.head hturn hs)
    exact ⟨i, j, hi.cursor_eq, hj.cursor_eq,
      hi.lt_of_length_rest hj (Reaches.climb_again hagenda hturn hgoes hs hagain)⟩

/-- An argument behind a function, and an expression for which there is no level left. -/
theorem descent_argument :
    (∃ e d, Expr.read maxNesting 0 (.before [⟨.name "f", ⟨0, 1⟩⟩, ⟨.name "x", ⟨2, 3⟩⟩, ⟨.done, ⟨3, 3⟩⟩] 0) =
        .ok (e, d) ∧
      Descends .expr 0 [⟨.name "f", ⟨0, 1⟩⟩, ⟨.name "x", ⟨2, 3⟩⟩, ⟨.done, ⟨3, 3⟩⟩] 0 []) ∧
    Descends .expr 0 [⟨.symbol .leftParen, ⟨0, 1⟩⟩, ⟨.name "x", ⟨1, 2⟩⟩, ⟨.done, ⟨2, 2⟩⟩] 1
      (List.replicate maxNesting (.climb .expr 0 0)) := by
  refine ⟨⟨.apply (.identifier "f") (.identifier "x"), ⟨some ⟨2, 3⟩, [⟨.done, ⟨3, 3⟩⟩]⟩, by rfl,
    descent .expr 0 rfl (by decide) (by decide)⟩, descent .expr 0 rfl (by decide) (by decide +kernel)⟩

end Progress

end SampleStream
