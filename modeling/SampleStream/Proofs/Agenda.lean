import Mathlib.Logic.Relation
import SampleStream.Proofs.Expr.Halting

/-!
# The agenda of the readers

The readers call themselves; here what they still have to read is a list of items, the next one first. A
turn looks at one item and one lexeme. It puts other items in place of the item, takes the lexeme or leaves
it, or refuses. Phrases that have begun and have not ended are the depth of nesting. `Ty.enacts_read` and
`Expr.enacts_read` say that the turns do what the readers do, complaints and limit included, so that what
holds of every turn holds of the readers.
-/

namespace SampleStream

/-- The two kinds of phrases. -/
inductive Category
  | ty
  | expr
deriving DecidableEq, Repr

/-- The least level of the category. -/
def Category.lowest : Category → Nat
  | .ty => Ty.lowest
  | .expr => Expr.lowest

/-- One thing that has still to be read. -/
inductive Item
  | symbol (s : Symbol)
  | keyword (k : Keyword)
  | name
  /-- A phrase from the minimum on, one level of nesting deeper. -/
  | phrase (k : Category) (min : Nat)
  /-- What begins a phrase, up to its first operator. -/
  | head (k : Category) (min : Nat)
  /-- The operators that extend a phrase of the level. -/
  | climb (k : Category) (min level : Nat)
  /-- The name of a `let`, or its two names in parentheses. -/
  | binding
  /-- The end of a group, or the other half of a pair. -/
  | close
deriving DecidableEq, Repr

/-- What an item makes of the lexeme that comes next. -/
inductive Response
  | stay (items : List Item)
  | take (items : List Item)
  | refuse (wanted : List String)
deriving DecidableEq, Repr

namespace Ty

def headResponse (min : Nat) : Lexeme → Response
  | .symbol .tilde => .take [.phrase .ty streamLevel, .climb .ty min streamLevel]
  | .symbol .leftParen => .take [.phrase .ty lowest, .symbol .rightParen, .climb .ty min atomLevel]
  | .name word =>
    match BaseTy.ofKeyword? word with
    | some _ => .take [.climb .ty min atomLevel]
    | none => .refuse ["a type"]
  | _ => .refuse ["a type"]

def climbResponse (min level : Nat) (l : Lexeme) : Response :=
  match Operator.ofLexeme? l with
  | none => .stay []
  | some op =>
    if op.fixity.level < min ∨ level < op.fixity.leftMin then .stay []
    else .take [.phrase .ty op.fixity.rightMin, .climb .ty min op.fixity.level]

end Ty

namespace Expr

def headResponse (min : Nat) : Lexeme → Response
  | .name _ | .index _ | .sample _ => .take [.climb .expr min atomLevel]
  | .symbol .bang | .keyword .inl | .keyword .inr =>
    .take [.phrase .expr prefixLevel, .climb .expr min prefixLevel]
  | .symbol .backslash | .symbol .ampersand =>
    .take [.name, .symbol .dot, .phrase .expr lowest, .climb .expr min lowest]
  | .keyword .letWord =>
    .take [.binding, .symbol .equals, .phrase .expr lowest, .keyword .inWord, .phrase .expr lowest,
      .climb .expr min lowest]
  | .keyword .caseWord =>
    .take [.phrase .expr lowest, .symbol .leftBrace,
      .keyword .inl, .name, .symbol .fatArrow, .phrase .expr lowest, .symbol .pipe,
      .keyword .inr, .name, .symbol .fatArrow, .phrase .expr lowest, .symbol .rightBrace,
      .climb .expr min atomLevel]
  | .symbol .leftParen => .take [.phrase .expr lowest, .close, .climb .expr min atomLevel]
  | _ => .refuse ["an expression"]

/-- An argument begins where its application does; other operators are lexemes of their own. -/
def operationResponse (min : Nat) : Operator → Response
  | .apply => .stay [.phrase .expr Operator.apply.fixity.rightMin,
      .climb .expr min Operator.apply.fixity.level]
  | .annotate => .take [.phrase .ty Ty.lowest, .climb .expr min Operator.annotate.fixity.level]
  | .cons => .take [.phrase .expr Operator.cons.fixity.rightMin,
      .climb .expr min Operator.cons.fixity.level]

def climbResponse (min level : Nat) (l : Lexeme) : Response :=
  match Operator.ofLexeme? l with
  | none => .stay []
  | some op =>
    if op.fixity.level < min ∨ level < op.fixity.leftMin then .stay [] else operationResponse min op

end Expr

namespace Item

/-- The lexeme, or the complaint that it is another. -/
def fixed (wanted found : Lexeme) : Response :=
  if found = wanted then .take [] else .refuse [wanted.describe]

def response : Item → Lexeme → Response
  | .symbol s, l => fixed (.symbol s) l
  | .keyword k, l => fixed (.keyword k) l
  | .name, .name _ => .take []
  | .name, _ => .refuse ["an identifier"]
  | .phrase k min, _ => .stay [.head k min]
  | .head .ty min, l => Ty.headResponse min l
  | .head .expr min, l => Expr.headResponse min l
  | .climb .ty min level, l => Ty.climbResponse min level l
  | .climb .expr min level, l => Expr.climbResponse min level l
  | .binding, .symbol .leftParen => .take [.name, .symbol .comma, .name, .symbol .rightParen]
  | .binding, .name _ => .take []
  | .binding, _ => .refuse ["an identifier"]
  | .close, .symbol .rightParen => .take []
  | .close, .symbol .comma => .take [.phrase .expr Expr.lowest, .symbol .rightParen]
  | .close, _ => .refuse [(Lexeme.symbol .rightParen).describe, (Lexeme.symbol .comma).describe]

/-- Whether the item belongs to a phrase that has begun. -/
def isOpen : Item → Bool
  | .head .. | .climb .. => true
  | _ => false

/-- Whether the item may be turned to with so many phrases open and so many allowed. -/
def fits (limit depth : Nat) : Item → Bool
  | .phrase .. => depth < limit
  | _ => true

end Item

/-- How many phrases have begun and have not ended. -/
def openPhrases : List Item → Nat
  | [] => 0
  | i :: rest => openPhrases rest + i.isOpen.toNat

theorem eq_error_of_map {α β : Type} {r : Except SyntaxError α} {f : α → β} {e : SyntaxError}
    (h : r.map f = .error e) : r = .error e := by
  cases r with
  | error e' => exact congrArg Except.error (Except.error.inj h)
  | ok a => cases h

theorem exists_ok_of_map {α β : Type} {r : Except SyntaxError α} {f : α → β} {b : β}
    (h : r.map f = .ok b) : ∃ a, r = .ok a := by
  cases r with
  | error e => cases h
  | ok a => exact ⟨a, rfl⟩

/-- What has still to be read, and where. -/
structure Progress where
  agenda : List Item
  cursor : Cursor
deriving DecidableEq, Repr

namespace Progress

/-- The levels of nesting that are open. -/
def depth (p : Progress) : Nat :=
  openPhrases p.agenda

/-- Before a text of one phrase. -/
def start (k : Category) (tokens : List Token) : Progress :=
  ⟨[.phrase k k.lowest], .start tokens⟩

/-- Where it goes on, nowhere if all has been read, or why it does not. -/
def turn (limit : Nat) (p : Progress) : Except SyntaxError (Option Progress) :=
  match p.agenda with
  | [] => if p.cursor.next = .done then .ok none else .error (p.cursor.expected ["end of input"])
  | i :: rest =>
    if i.fits limit (openPhrases rest) then
      match i.response p.cursor.next with
      | .stay items => .ok (some ⟨items ++ rest, p.cursor⟩)
      | .take items => .ok (some ⟨items ++ rest, p.cursor.skip⟩)
      | .refuse wanted => .error (p.cursor.expected wanted)
    else .error p.cursor.tooDeep

/-- The second is reached from the first by any number of turns. -/
def Reaches (limit : Nat) : Progress → Progress → Prop :=
  Relation.ReflTransGen fun p q => p.turn limit = .ok (some q)

variable {limit : Nat} {p q q' : Progress}

/-- Where no turn leads on. -/
def Ends (limit : Nat) (p : Progress) : Prop :=
  ∀ q, p.turn limit ≠ .ok (some q)

-- A turn is a function, so that all that is reached lies on one way, and at most one end does.
theorem Reaches.eq_of_ends (h : p.Reaches limit q) (h' : p.Reaches limit q') (hq : q.Ends limit)
    (hq' : q'.Ends limit) : q = q' := by
  have stays {a b : Progress} (ha : a.Ends limit) (hab : a.Reaches limit b) : a = b := by
    obtain rfl | ⟨c, hc, -⟩ := Relation.ReflTransGen.cases_head hab
    · rfl
    · exact absurd hc (ha c)
  have unique : Relator.RightUnique fun p q : Progress => p.turn limit = .ok (some q) := by
    intro a b c hb hc
    rw [hb] at hc
    cases hc
    rfl
  obtain hto | hback := Relation.ReflTransGen.total_of_right_unique unique h h'
  · exact stays hq hto
  · exact (stays hq' hback).symm

theorem ends_of_error {e : SyntaxError} (h : p.turn limit = .error e) : p.Ends limit := by
  intro q hq
  rw [h] at hq
  cases hq

theorem ends_of_none (h : p.turn limit = .ok none) : p.Ends limit := by
  intro q hq
  rw [h] at hq
  cases hq

-- Where the turns are known to end with some result, they end with it wherever they end.
theorem turn_eq_of_ends {α : Type} {r : Except SyntaxError α} (h : ∃ t, p.Reaches limit t ∧
    t.turn limit = r.map fun _ => none) (hq : p.Reaches limit q) (hends : q.Ends limit) :
    q.turn limit = r.map fun _ => none := by
  obtain ⟨t, ht, hturn⟩ := h
  have htends : t.Ends limit := by
    cases r with
    | error e => exact ends_of_error hturn
    | ok a => exact ends_of_none hturn
  rw [hq.eq_of_ends ht hends htends, hturn]

section Turns

variable {i : Item} {rest items : List Item} {c : Cursor} {wanted : List String}

theorem turn_of_stay (hfits : i.fits limit (openPhrases rest) = true) (h : i.response c.next = .stay items) :
    turn limit ⟨i :: rest, c⟩ = .ok (some ⟨items ++ rest, c⟩) := by
  simp [turn, hfits, h]

theorem turn_of_take (hfits : i.fits limit (openPhrases rest) = true) (h : i.response c.next = .take items) :
    turn limit ⟨i :: rest, c⟩ = .ok (some ⟨items ++ rest, c.skip⟩) := by
  simp [turn, hfits, h]

theorem turn_of_refuse (hfits : i.fits limit (openPhrases rest) = true)
    (h : i.response c.next = .refuse wanted) : turn limit ⟨i :: rest, c⟩ = .error (c.expected wanted) := by
  simp [turn, hfits, h]

end Turns

end Progress

variable {α β : Type}

/-- The turns from `p` on end as the reader does: with the rest of the agenda at the cursor that it leaves,
or with its complaint. -/
def Enacts (limit : Nat) (p : Progress) (agenda : α → List Item)
    (r : Except SyntaxError (α × Cursor)) : Prop :=
  match r with
  | .ok (a, c) => p.Reaches limit ⟨agenda a, c⟩
  | .error e => ∃ q, p.Reaches limit q ∧ q.turn limit = .error e

namespace Enacts

variable {limit : Nat} {p q : Progress} {agenda : α → List Item} {after : β → List Item}
  {r : Except SyntaxError (α × Cursor)} {r' : Except SyntaxError (β × Cursor)} {rest items : List Item}
  {c : Cursor}

theorem pure {a : α} (h : items = agenda a) : Enacts limit ⟨items, c⟩ agenda (.ok (a, c)) :=
  h ▸ Relation.ReflTransGen.refl

theorem error {e : SyntaxError} (h : p.turn limit = .error e) : Enacts limit p agenda (.error e) :=
  ⟨p, Relation.ReflTransGen.refl, h⟩

theorem reached (hpq : p.Reaches limit q) (h : Enacts limit q agenda r) : Enacts limit p agenda r := by
  match r, h with
  | .ok (a, c), h => exact hpq.trans h
  | .error e, ⟨t, ht, hturn⟩ => exact ⟨t, hpq.trans ht, hturn⟩

theorem turned (hpq : p.turn limit = .ok (some q)) (h : Enacts limit q agenda r) :
    Enacts limit p agenda r :=
  reached (.single hpq) h

theorem bind {f : α × Cursor → Except SyntaxError (β × Cursor)} (h : Enacts limit p agenda r)
    (hf : ∀ a d, r = .ok (a, d) → Enacts limit ⟨agenda a, d⟩ after (f (a, d))) :
    Enacts limit p after (r >>= f) := by
  match r, h with
  | .ok (a, d), h => exact reached h (hf a d rfl)
  | .error e, h => exact h

-- An item that takes the lexeme it goes by.
theorem took {i : Item} {l : Lexeme} (hnext : c.next = l) (hresponse : i.response l = .take items)
    (hfits : i.fits limit (openPhrases rest) = true) (h : Enacts limit ⟨items ++ rest, c.skip⟩ after r') :
    Enacts limit ⟨i :: rest, c⟩ after r' :=
  turned (Progress.turn_of_take hfits (hnext ▸ hresponse)) h

theorem refused {i : Item} {l : Lexeme} {wanted : List String} (hnext : c.next = l)
    (hresponse : i.response l = .refuse wanted) (hfits : i.fits limit (openPhrases rest) = true) :
    Enacts limit ⟨i :: rest, c⟩ after (.error (c.expected wanted)) :=
  error (Progress.turn_of_refuse hfits (hnext ▸ hresponse))

theorem fixed {i : Item} {l : Lexeme} {f : Cursor → Except SyntaxError (β × Cursor)}
    (hfits : ∀ depth, i.fits limit depth = true) (hresponse : ∀ m, i.response m = Item.fixed l m)
    (hf : ∀ d, Enacts limit ⟨rest, d⟩ after (f d)) :
    Enacts limit ⟨i :: rest, c⟩ after (c.expect l >>= f) := by
  unfold Cursor.expect
  have hi := hresponse c.next
  unfold Item.fixed at hi
  split at hi
  · rename_i hnext
    rw [if_pos hnext]
    exact turned (Progress.turn_of_take (hfits _) hi) (hf c.skip)
  · rename_i hnext
    rw [if_neg hnext]
    exact error (Progress.turn_of_refuse (hfits _) hi)

theorem symbol {s : Symbol} {f : Cursor → Except SyntaxError (β × Cursor)}
    (hf : ∀ d, Enacts limit ⟨rest, d⟩ after (f d)) :
    Enacts limit ⟨.symbol s :: rest, c⟩ after (c.symbol s >>= f) :=
  fixed (fun _ => rfl) (fun _ => rfl) hf

theorem keyword {k : Keyword} {f : Cursor → Except SyntaxError (β × Cursor)}
    (hf : ∀ d, Enacts limit ⟨rest, d⟩ after (f d)) :
    Enacts limit ⟨.keyword k :: rest, c⟩ after (c.keyword k >>= f) :=
  fixed (fun _ => rfl) (fun _ => rfl) hf

theorem name : Enacts limit ⟨.name :: rest, c⟩ (fun _ => rest) c.name := by
  unfold Cursor.name
  cases hnext : c.next with
  | name x => exact took hnext rfl rfl (pure rfl)
  | _ => exact refused hnext rfl rfl

-- Where the reader has read its phrase, all that is left is to see that nothing follows.
theorem closed (h : Enacts limit p (fun _ => []) r) :
    ∃ q, p.Reaches limit q ∧ q.turn limit = (r >>= Cursor.closed).map fun _ => none := by
  match r, h with
  | .ok (a, c), h =>
    refine ⟨⟨[], c⟩, h, ?_⟩
    change (if c.next = .done then _ else _) = (Cursor.closed (a, c)).map _
    unfold Cursor.closed
    split
    · rename_i hdone
      rw [show (a, c).2.next = .done from hdone]
      rfl
    · split
      · contradiction
      · rfl
  | .error e, h => exact h

end Enacts

namespace Ty

section Parts

variable {inner : Nat → Reader Ty} {room limit : Nat}
  (hinner : ∀ min c rest, room + openPhrases rest = limit →
    Enacts limit ⟨.phrase .ty min :: rest, c⟩ (fun _ => rest) (inner min c))

include hinner

theorem enacts_readHead {min : Nat} {c : Cursor} {rest : List Item}
    (hroom : room + openPhrases rest + 1 = limit) :
    Enacts limit ⟨.head .ty min :: rest, c⟩ (fun p => .climb .ty min p.2 :: rest) (readHead inner c) := by
  unfold readHead
  split
  · rename_i hnext
    exact .took hnext rfl rfl <| (hinner _ _ _ (by exact hroom)).bind fun _ _ _ => .pure rfl
  · rename_i hnext
    exact .took hnext rfl rfl <| (hinner _ _ _ (by exact hroom)).bind fun _ _ _ => .symbol fun _ => .pure rfl
  · rename_i word hnext
    cases hword : BaseTy.ofKeyword? word with
    | some b =>
      have hresponse : Item.response (.head .ty min) (.name word) = .take [.climb .ty min atomLevel] := by
        simp [Item.response, headResponse, hword]
      exact .took hnext hresponse rfl (.pure rfl)
    | none =>
      have hresponse : Item.response (.head .ty min) (.name word) = .refuse ["a type"] := by
        simp [Item.response, headResponse, hword]
      exact .refused hnext hresponse rfl
  · have hresponse : Item.response (.head .ty min) c.next = .refuse ["a type"] := by
      unfold Item.response headResponse
      split <;> simp_all
    exact .refused rfl hresponse rfl

theorem enacts_climb {min : Nat} {rest : List Item}
    (htakes : ∀ m c, m ≤ streamLevel → Takes c (Fits room m) (inner m c))
    (hroom : room + openPhrases rest + 1 = limit) (fuel : Nat) :
    ∀ (t : Ty) (level : Nat) (c : Cursor), c.lexemes.length ≤ fuel →
      Enacts limit ⟨.climb .ty min level :: rest, c⟩ (fun _ => rest)
        (climb inner min fuel (t, level) c) := by
  induction fuel with
  | zero =>
    intro t level c hfuel
    have hnext : c.next = .done := by
      rw [Cursor.next_eq_headD, List.eq_nil_of_length_eq_zero (Nat.le_zero.mp hfuel)]
      rfl
    have hresponse : Item.response (.climb .ty min level) c.next = .stay [] := by rw [hnext]; rfl
    exact .turned (Progress.turn_of_stay rfl hresponse) (.pure rfl)
  | succ fuel ih =>
    intro t level c hfuel
    have hstop (hresponse : climbResponse min level c.next = .stay []) :
        Enacts limit ⟨.climb .ty min level :: rest, c⟩ (fun _ => rest) (.ok (t, c)) :=
      .turned (Progress.turn_of_stay (i := .climb .ty min level) rfl hresponse) (.pure rfl)
    rw [climb]
    split
    · rename_i hop
      exact hstop (by simp only [climbResponse, hop])
    · rename_i op hop
      split
      · rename_i hends
        exact hstop (by simp only [climbResponse, hop, if_pos hends])
      · rename_i hgoes
        have hresponse : climbResponse min level c.next =
            .take [.phrase .ty op.fixity.rightMin, .climb .ty min op.fixity.level] := by
          simp only [climbResponse, hop, if_neg hgoes]
        have hshort : Leaves (fun _ d => d.lexemes.length ≤ fuel) (inner op.fixity.rightMin c.skip) := by
          intro u d hu
          obtain ⟨ls, hls, -⟩ := htakes _ _ (rightMin_le_streamLevel op) u d hu
          have hlexemes := Cursor.lexemes_eq_cons (eq_symbol_of_ofLexeme? hop) (by simp)
          rw [hlexemes, hls, List.length_cons, List.length_append] at hfuel
          omega
        refine .took (i := .climb .ty min level) rfl hresponse rfl ?_
        exact (hinner _ _ _ (by exact hroom)).bind fun u d hu => ih _ _ d (hshort u d hu)

end Parts

-- A phrase is read with the room that the open phrases leave of the limit.
theorem enacts_read (room : Nat) : ∀ (min : Nat) (c : Cursor) (rest : List Item) {limit : Nat},
    room + openPhrases rest = limit →
      Enacts limit ⟨.phrase .ty min :: rest, c⟩ (fun _ => rest) (read room min c) := by
  induction room with
  | zero =>
    intro min c rest limit hroom
    refine .error ?_
    simp [Progress.turn, Item.fits, ← hroom]
  | succ room ih =>
    intro min c rest limit hroom
    have hfits : (Item.phrase .ty min).fits limit (openPhrases rest) = true := by
      simp only [Item.fits, decide_eq_true_eq]
      omega
    have hroom : room + openPhrases rest + 1 = limit := by omega
    have hinner (min : Nat) (c : Cursor) (rest : List Item) (h : room + openPhrases rest = limit) :=
      ih min c rest h
    refine .turned (Progress.turn_of_stay hfits rfl) ?_
    refine (enacts_readHead hinner hroom).bind fun p d _ => ?_
    exact enacts_climb hinner (takes_read room) hroom _ p.1 p.2 d (Nat.le_of_eq (Cursor.length_rest d).symm)

/-- The turns from the start of a text end as the reader of types does. -/
theorem exists_turn_ofTokens (room : Nat) (tokens : List Token) :
    ∃ q, (Progress.start .ty tokens).Reaches room q ∧
      q.turn room = (ofTokens room tokens).map fun _ => none :=
  (enacts_read room lowest (.start tokens) [] (Nat.add_zero room)).closed

end Ty

namespace Expr

section Parts

variable {inner : Nat → Reader Expr} {room limit : Nat}
  (hinner : ∀ min c rest, room + openPhrases rest = limit →
    Enacts limit ⟨.phrase .expr min :: rest, c⟩ (fun _ => rest) (inner min c))

include hinner

theorem enacts_readBinder {c : Cursor} {rest : List Item} (hroom : room + openPhrases rest = limit) :
    Enacts limit ⟨.name :: .symbol .dot :: .phrase .expr lowest :: rest, c⟩ (fun _ => rest)
      (readBinder inner c) :=
  Enacts.name.bind fun _ _ _ => .symbol fun _ => (hinner _ _ _ hroom).bind fun _ _ _ => .pure rfl

theorem enacts_readBinding {c : Cursor} {rest : List Item} (hroom : room + openPhrases rest = limit) :
    Enacts limit ⟨.symbol .equals :: .phrase .expr lowest :: .keyword .inWord :: .phrase .expr lowest
      :: rest, c⟩ (fun _ => rest) (readBinding inner c) :=
  .symbol fun _ => (hinner _ _ _ (by exact hroom)).bind fun _ _ _ => .keyword fun _ =>
    (hinner _ _ _ hroom).bind fun _ _ _ => .pure rfl

theorem enacts_readLet {c : Cursor} {rest : List Item} (hroom : room + openPhrases rest = limit) :
    Enacts limit ⟨.binding :: .symbol .equals :: .phrase .expr lowest :: .keyword .inWord
      :: .phrase .expr lowest :: rest, c⟩ (fun _ => rest) (readLet inner c) := by
  unfold readLet
  split
  · rename_i hnext
    exact .took hnext rfl rfl <| Enacts.name.bind fun _ _ _ => .symbol fun _ =>
      Enacts.name.bind fun _ _ _ => .symbol fun _ =>
        (enacts_readBinding hinner hroom).bind fun _ _ _ => .pure rfl
  · rename_i hnext
    -- one name is read by the item itself
    have hname : Enacts limit ⟨.binding :: .symbol .equals :: .phrase .expr lowest :: .keyword .inWord
        :: .phrase .expr lowest :: rest, c⟩ (fun _ => .symbol .equals :: .phrase .expr lowest
        :: .keyword .inWord :: .phrase .expr lowest :: rest) c.name := by
      unfold Cursor.name
      cases hc : c.next with
      | name x => exact .took hc rfl rfl (.pure rfl)
      | symbol s =>
        cases s with
        | leftParen => exact absurd hc hnext
        | _ => exact .refused hc rfl rfl
      | _ => exact .refused hc rfl rfl
    exact hname.bind fun _ _ _ => (enacts_readBinding hinner hroom).bind fun _ _ _ => .pure rfl

theorem enacts_readBranch (side : Keyword) {c : Cursor} {rest : List Item}
    (hroom : room + openPhrases rest = limit) :
    Enacts limit ⟨.keyword side :: .name :: .symbol .fatArrow :: .phrase .expr lowest :: rest, c⟩
      (fun _ => rest) (readBranch inner side c) :=
  .keyword fun _ => Enacts.name.bind fun _ _ _ => .symbol fun _ =>
    (hinner _ _ _ hroom).bind fun _ _ _ => .pure rfl

theorem enacts_readCase {c : Cursor} {rest : List Item} (hroom : room + openPhrases rest = limit) :
    Enacts limit ⟨.phrase .expr lowest :: .symbol .leftBrace
      :: .keyword .inl :: .name :: .symbol .fatArrow :: .phrase .expr lowest :: .symbol .pipe
      :: .keyword .inr :: .name :: .symbol .fatArrow :: .phrase .expr lowest :: .symbol .rightBrace
      :: rest, c⟩ (fun _ => rest) (readCase inner c) :=
  (hinner _ _ _ (by exact hroom)).bind fun _ _ _ => .symbol fun _ =>
    (enacts_readBranch hinner .inl (by exact hroom)).bind fun _ _ _ => .symbol fun _ =>
      (enacts_readBranch hinner .inr (by exact hroom)).bind fun _ _ _ => .symbol fun _ => .pure rfl

theorem enacts_readGroup {c : Cursor} {rest : List Item} (hroom : room + openPhrases rest = limit) :
    Enacts limit ⟨.phrase .expr lowest :: .close :: rest, c⟩ (fun _ => rest) (readGroup inner c) := by
  refine (hinner _ _ (.close :: rest) hroom).bind fun first d _ => ?_
  dsimp only
  split
  · rename_i hnext
    exact .took hnext rfl rfl (.pure rfl)
  · rename_i hnext
    exact .took hnext rfl rfl <| (hinner _ _ _ (by exact hroom)).bind fun second d _ =>
      .symbol fun _ => .pure rfl
  · have hresponse : Item.response .close d.next = .refuse
        [(Lexeme.symbol .rightParen).describe, (Lexeme.symbol .comma).describe] := by
      unfold Item.response
      split <;> simp_all
    exact .refused rfl hresponse rfl

theorem enacts_readHead {min : Nat} {c : Cursor} {rest : List Item}
    (hroom : room + openPhrases rest + 1 = limit) :
    Enacts limit ⟨.head .expr min :: rest, c⟩ (fun p => .climb .expr min p.2 :: rest)
      (readHead inner c) := by
  unfold readHead
  cases hnext : c.next with
  | name x => exact .took hnext rfl rfl (.pure rfl)
  | index n => exact .took hnext rfl rfl (.pure rfl)
  | sample s => exact .took hnext rfl rfl (.pure rfl)
  | done => exact .refused hnext rfl rfl
  | keyword k =>
    cases k with
    | inl => exact .took hnext rfl rfl <| (hinner _ _ _ (by exact hroom)).bind fun _ _ _ => .pure rfl
    | inr => exact .took hnext rfl rfl <| (hinner _ _ _ (by exact hroom)).bind fun _ _ _ => .pure rfl
    | letWord =>
      exact .took hnext rfl rfl <| (enacts_readLet hinner (by exact hroom)).bind fun _ _ _ => .pure rfl
    | caseWord =>
      exact .took hnext rfl rfl <| (enacts_readCase hinner (by exact hroom)).bind fun _ _ _ => .pure rfl
    | inWord => exact .refused hnext rfl rfl
  | symbol s =>
    cases s with
    | bang => exact .took hnext rfl rfl <| (hinner _ _ _ (by exact hroom)).bind fun _ _ _ => .pure rfl
    | backslash =>
      exact .took hnext rfl rfl <| (enacts_readBinder hinner (by exact hroom)).bind fun _ _ _ => .pure rfl
    | ampersand =>
      exact .took hnext rfl rfl <| (enacts_readBinder hinner (by exact hroom)).bind fun _ _ _ => .pure rfl
    | leftParen =>
      exact .took hnext rfl rfl <| (enacts_readGroup hinner (by exact hroom)).bind fun _ _ _ => .pure rfl
    | _ => exact .refused hnext rfl rfl

variable {ascribed : Reader Ty}
  (hascribed : ∀ c rest, room + openPhrases rest = limit →
    Enacts limit ⟨.phrase .ty Ty.lowest :: rest, c⟩ (fun _ => rest) (ascribed c))

include hascribed

theorem enacts_readOperation {min level : Nat} {lhs : Expr} {op : Operator} {c : Cursor}
    {rest : List Item} (hroom : room + openPhrases rest + 1 = limit)
    (hop : Operator.ofLexeme? c.next = some op)
    (hgoes : ¬(op.fixity.level < min ∨ level < op.fixity.leftMin)) :
    Enacts limit ⟨.climb .expr min level :: rest, c⟩ (fun _ => .climb .expr min op.fixity.level :: rest)
      (readOperation inner ascribed lhs op c) := by
  have hresponse : Item.response (.climb .expr min level) c.next = operationResponse min op := by
    simp only [Item.response, climbResponse, hop, if_neg hgoes]
  cases op with
  | apply =>
    refine .turned (Progress.turn_of_stay rfl hresponse) ?_
    exact (hinner _ _ _ (by exact hroom)).bind fun _ _ _ => .pure rfl
  | annotate =>
    refine .took rfl hresponse rfl ?_
    exact (hascribed _ _ (by exact hroom)).bind fun _ _ _ => .pure rfl
  | cons =>
    refine .took rfl hresponse rfl ?_
    exact (hinner _ _ _ (by exact hroom)).bind fun _ _ _ => .pure rfl

theorem enacts_climb {min : Nat} {rest : List Item}
    (htakes : ∀ m c, m ≤ prefixLevel → Takes c (Fits room m) (inner m c))
    (htakesTy : ∀ c, Takes c (Ty.Fits room Ty.lowest) (ascribed c))
    (hroom : room + openPhrases rest + 1 = limit) (fuel : Nat) :
    ∀ (e : Expr) (level : Nat) (c : Cursor), c.lexemes.length ≤ fuel →
      Enacts limit ⟨.climb .expr min level :: rest, c⟩ (fun _ => rest)
        (climb inner ascribed min fuel (e, level) c) := by
  induction fuel with
  | zero =>
    intro e level c hfuel
    have hnext : c.next = .done := by
      rw [Cursor.next_eq_headD, List.eq_nil_of_length_eq_zero (Nat.le_zero.mp hfuel)]
      rfl
    have hresponse : Item.response (.climb .expr min level) c.next = .stay [] := by rw [hnext]; rfl
    exact .turned (Progress.turn_of_stay rfl hresponse) (.pure rfl)
  | succ fuel ih =>
    intro e level c hfuel
    have hstop (hresponse : climbResponse min level c.next = .stay []) :
        Enacts limit ⟨.climb .expr min level :: rest, c⟩ (fun _ => rest) (.ok (e, c)) :=
      .turned (Progress.turn_of_stay (i := .climb .expr min level) rfl hresponse) (.pure rfl)
    rw [climb]
    split
    · rename_i hop
      exact hstop (by simp only [climbResponse, hop])
    · rename_i op hop
      split
      · rename_i hends
        exact hstop (by simp only [climbResponse, hop, if_pos hends])
      · rename_i hgoes
        refine (enacts_readOperation hinner hascribed hroom hop hgoes).bind fun a d ha => ih a _ d ?_
        have hshort := shortens_readOperation htakes htakesTy e hop a d ha
        omega

end Parts

theorem enacts_read (room : Nat) : ∀ (min : Nat) (c : Cursor) (rest : List Item) {limit : Nat},
    room + openPhrases rest = limit →
      Enacts limit ⟨.phrase .expr min :: rest, c⟩ (fun _ => rest) (read room min c) := by
  induction room with
  | zero =>
    intro min c rest limit hroom
    refine .error ?_
    simp [Progress.turn, Item.fits, ← hroom]
  | succ room ih =>
    intro min c rest limit hroom
    have hfits : (Item.phrase .expr min).fits limit (openPhrases rest) = true := by
      simp only [Item.fits, decide_eq_true_eq]
      omega
    have hroom : room + openPhrases rest + 1 = limit := by omega
    have hinner (min : Nat) (c : Cursor) (rest : List Item) (h : room + openPhrases rest = limit) :=
      ih min c rest h
    have hascribed (c : Cursor) (rest : List Item) (h : room + openPhrases rest = limit) :=
      Ty.enacts_read room Ty.lowest c rest h
    have htakesTy (c : Cursor) := Ty.takes_read room Ty.lowest c (Nat.zero_le _)
    refine .turned (Progress.turn_of_stay hfits rfl) ?_
    refine (enacts_readHead hinner hroom).bind fun p d _ => ?_
    exact enacts_climb hinner hascribed (takes_read room) htakesTy hroom _ p.1 p.2 d
      (Nat.le_of_eq (Cursor.length_rest d).symm)

/-- The turns from the start of a text end as the reader of expressions does. -/
theorem exists_turn_ofTokens (room : Nat) (tokens : List Token) :
    ∃ q, (Progress.start .expr tokens).Reaches room q ∧
      q.turn room = (ofTokens room tokens).map fun _ => none :=
  (enacts_read room lowest (.start tokens) [] (Nat.add_zero room)).closed

end Expr

end SampleStream
