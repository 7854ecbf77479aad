import SampleStream.Json.Reader
import SampleStream.Proofs.Json.Spelling

/-!
# Reading JSON back

The tokens of a value in their only order (`Json.tokens`). Reading takes just these off the front of a list,
whatever is behind them, and so a text that spells them is read as the value (`ofText?_of_spelledBy`).
-/

namespace SampleStream.Json

mutual
def tokens : Json → List Token
  | .null => [.null]
  | .bool b => [.bool b]
  | .number n => [.number n]
  | .string content => [.string content]
  | .array items => .leftBracket :: (tokensAll items ++ [.rightBracket])
  | .object members => .leftBrace :: (tokensMembers members ++ [.rightBrace])

def tokensAll : List Json → List Token
  | [] => []
  | [j] => j.tokens
  | j :: js => j.tokens ++ .comma :: tokensAll js

def tokensMembers : List (Option String × Json) → List Token
  | [] => []
  | [(key, j)] => .string key :: .colon :: j.tokens
  | (key, j) :: js => .string key :: .colon :: (j.tokens ++ .comma :: tokensMembers js)
end

/-- The text spells the value, with any blanks between its tokens. -/
def SpelledBy (j : Json) (text : String) : Prop :=
  Spells text.toList j.tokens

/-- Whether a value may begin with the token. -/
def Token.opens : Token → Bool
  | .rightBrace | .rightBracket | .colon | .comma | .junk => false
  | _ => true

theorem tokens_cons (j : Json) : ∃ t ts, j.tokens = t :: ts ∧ t.opens = true := by
  cases j <;> exact ⟨_, _, by rw [tokens], rfl⟩

theorem length_tokens_pos (j : Json) : 0 < j.tokens.length := by
  obtain ⟨t, ts, h, -⟩ := j.tokens_cons
  rw [h]
  exact Nat.zero_lt_succ _

theorem tokensAll_cons_cons (j k : Json) (js : List Json) :
    tokensAll (j :: k :: js) = j.tokens ++ .comma :: tokensAll (k :: js) := by
  rw [tokensAll]
  nofun

theorem tokensMembers_cons_cons (key : Option String) (j : Json) (m : Option String × Json)
    (ms : List (Option String × Json)) : tokensMembers ((key, j) :: m :: ms) =
      .string key :: .colon :: (j.tokens ++ .comma :: tokensMembers (m :: ms)) := by
  rw [tokensMembers]
  nofun

theorem tokensAll_eq_cons (j : Json) (js : List Json) :
    ∃ t ts, tokensAll (j :: js) = t :: ts ∧ t.opens = true := by
  obtain ⟨t, ts, htokens, hopens⟩ := j.tokens_cons
  cases js with
  | nil => exact ⟨t, ts, htokens, hopens⟩
  | cons k js =>
    refine ⟨t, ts ++ .comma :: tokensAll (k :: js), ?_, hopens⟩
    rw [tokensAll_cons_cons, htokens]
    rfl

theorem ofTokens?_array {t : Token} (ht : t.opens = true) (fuel : Nat) (ts : List Token) :
    ofTokens? (fuel + 1) (.leftBracket :: t :: ts) =
      (items? fuel (t :: ts)).bind fun (items, rest) => some (.array items, rest) := by
  cases t with
  | rightBracket => cases ht
  | _ => rfl

/-- So many calls read what has half as many tokens. -/
structure Reads (fuel : Nat) : Prop where
  value : ∀ (j : Json) (rest : List Token), 2 * j.tokens.length ≤ fuel + 1 →
    ofTokens? fuel (j.tokens ++ rest) = some (j, rest)
  items : ∀ (j : Json) (js : List Json) (rest : List Token), 2 * (tokensAll (j :: js)).length ≤ fuel →
    items? fuel (tokensAll (j :: js) ++ .rightBracket :: rest) = some (j :: js, rest)
  members : ∀ (m : Option String × Json) (ms : List (Option String × Json)) (rest : List Token),
    2 * (tokensMembers (m :: ms)).length ≤ fuel →
    members? fuel (tokensMembers (m :: ms) ++ .rightBrace :: rest) = some (m :: ms, rest)

namespace Reads

variable {fuel : Nat} (hr : Reads fuel)
include hr

-- Brackets and braces take one call, and their two tokens leave room for it.
theorem value_succ (j : Json) (rest : List Token) (hfuel : 2 * j.tokens.length ≤ fuel + 1 + 1) :
    ofTokens? (fuel + 1) (j.tokens ++ rest) = some (j, rest) := by
  cases j with
  | array items =>
    cases items with
    | nil => rfl
    | cons j js =>
      obtain ⟨t, ts, htokens, hopens⟩ := tokensAll_eq_cons j js
      rw [tokens, List.length_cons, List.length_append, List.length_singleton] at hfuel
      have hitems := hr.items j js rest (by omega)
      rw [tokens, List.cons_append, List.append_assoc, List.singleton_append]
      rw [htokens, List.cons_append] at hitems ⊢
      rw [ofTokens?_array hopens, hitems]
      rfl
  | object members =>
    cases members with
    | nil => rfl
    | cons m ms =>
      rw [tokens, List.length_cons, List.length_append, List.length_singleton] at hfuel
      have hmembers := hr.members m ms rest (by omega)
      have hobject : ofTokens? (fuel + 1) ((object (m :: ms)).tokens ++ rest) =
          (members? fuel (tokensMembers (m :: ms) ++ .rightBrace :: rest)).bind
            fun result => some (.object result.1, result.2) := by
        rw [tokens, List.cons_append, List.append_assoc]
        obtain ⟨key, j⟩ := m
        cases ms <;> rfl
      rw [hobject, hmembers]
      rfl
  | _ => rfl

theorem items_succ (j : Json) (js : List Json) (rest : List Token)
    (hfuel : 2 * (tokensAll (j :: js)).length ≤ fuel + 1) :
    items? (fuel + 1) (tokensAll (j :: js) ++ .rightBracket :: rest) = some (j :: js, rest) := by
  cases js with
  | nil =>
    have hvalue := hr.value j (.rightBracket :: rest) hfuel
    rw [items?]
    change (ofTokens? fuel (j.tokens ++ .rightBracket :: rest)).bind _ = _
    rw [hvalue]
    rfl
  | cons k js =>
    rw [tokensAll_cons_cons, List.length_append, List.length_cons] at hfuel
    have hpos := j.length_tokens_pos
    have hvalue := hr.value j (.comma :: (tokensAll (k :: js) ++ .rightBracket :: rest)) (by omega)
    have hitems := hr.items k js rest (by omega)
    rw [tokensAll_cons_cons, List.append_assoc, List.cons_append, items?]
    change (ofTokens? fuel _).bind _ = _
    rw [hvalue]
    change (items? fuel _).bind _ = _
    rw [hitems]
    rfl

theorem members_succ (m : Option String × Json) (ms : List (Option String × Json)) (rest : List Token)
    (hfuel : 2 * (tokensMembers (m :: ms)).length ≤ fuel + 1) :
    members? (fuel + 1) (tokensMembers (m :: ms) ++ .rightBrace :: rest) = some (m :: ms, rest) := by
  obtain ⟨key, j⟩ := m
  cases ms with
  | nil =>
    rw [tokensMembers, List.length_cons, List.length_cons] at hfuel
    have hvalue := hr.value j (.rightBrace :: rest) (by omega)
    rw [tokensMembers, List.cons_append, List.cons_append, members?]
    change (ofTokens? fuel _).bind _ = _
    rw [hvalue]
    rfl
  | cons m ms =>
    rw [tokensMembers_cons_cons, List.length_cons, List.length_cons, List.length_append,
      List.length_cons] at hfuel
    have hvalue := hr.value j (.comma :: (tokensMembers (m :: ms) ++ .rightBrace :: rest)) (by omega)
    have hmembers := hr.members m ms rest (by omega)
    rw [tokensMembers_cons_cons, List.cons_append, List.cons_append, List.append_assoc, List.cons_append,
      members?]
    change (ofTokens? fuel _).bind _ = _
    rw [hvalue]
    change (members? fuel _).bind _ = _
    rw [hmembers]
    rfl

end Reads

theorem reads (fuel : Nat) : Reads fuel := by
  induction fuel with
  | zero =>
    refine ⟨fun j rest hfuel => ?_, fun j js rest hfuel => ?_, fun m ms rest hfuel => ?_⟩
    · have hpos := j.length_tokens_pos
      omega
    · obtain ⟨t, ts, htokens, -⟩ := tokensAll_eq_cons j js
      rw [htokens, List.length_cons] at hfuel
      omega
    · obtain ⟨key, j⟩ := m
      cases ms with
      | nil => cases hfuel
      | cons m ms =>
        rw [tokensMembers_cons_cons] at hfuel
        cases hfuel
  | succ fuel ih => exact ⟨ih.value_succ, ih.items_succ, ih.members_succ⟩

/-- What may stand behind a value: it closes what the value is in, or goes on with a comma. -/
structure Token.Behind (rest : List Token) : Prop where
  closes : ∀ t ∈ rest.head?, t.closes = true
  separated : Separated rest

theorem Token.Behind.nil : Behind [] :=
  ⟨nofun, trivial⟩

theorem Token.Behind.cons {t : Token} {rest : List Token} (ht : t.closes = true) (h : Separated rest) :
    Behind (t :: rest) where
  closes := by
    intro u hu
    cases hu
    exact ht
  separated := by
    cases t with
    | number n => cases ht
    | _ => exact h

mutual
theorem separated_tokens (j : Json) {rest : List Token} (h : Token.Behind rest) :
    Token.Separated (j.tokens ++ rest) := by
  match j with
  | .null | .bool _ | .string _ => exact h.separated
  | .number n =>
    cases rest with
    | nil => trivial
    | cons t rest => exact ⟨h.closes t rfl, h.separated⟩
  | .array items =>
    rw [tokens, List.cons_append, List.append_assoc]
    exact separated_tokensAll items (.cons rfl h.separated)
  | .object members =>
    rw [tokens, List.cons_append, List.append_assoc]
    exact separated_tokensMembers members (.cons rfl h.separated)

theorem separated_tokensAll (items : List Json) {rest : List Token} (h : Token.Behind rest) :
    Token.Separated (tokensAll items ++ rest) := by
  match items with
  | [] => exact h.separated
  | [j] => exact separated_tokens j h
  | j :: k :: js =>
    rw [tokensAll_cons_cons, List.append_assoc]
    exact separated_tokens j (.cons rfl (separated_tokensAll (k :: js) h))

theorem separated_tokensMembers (members : List (Option String × Json)) {rest : List Token}
    (h : Token.Behind rest) : Token.Separated (tokensMembers members ++ rest) := by
  match members with
  | [] => exact h.separated
  | [(_, j)] => exact separated_tokens j h
  | (_, j) :: m :: ms =>
    rw [tokensMembers_cons_cons, List.cons_append, List.cons_append, List.append_assoc]
    exact separated_tokens j (.cons rfl (separated_tokensMembers (m :: ms) h))
end

/-- A text that spells a value is read as that value, however many blanks stand between its tokens. -/
theorem ofText?_of_spelledBy {j : Json} {text : String} (h : j.SpelledBy text) :
    ofText? text = some (j, true) := by
  have hseparated := separated_tokens j .nil
  rw [List.append_nil] at hseparated
  have htokens : Token.ofText text.toList = j.tokens := Token.ofText_of_spells h hseparated
  have hvalue := (reads (2 * j.tokens.length + 1)).value j [] (by omega)
  rw [List.append_nil] at hvalue
  unfold ofText?
  rw [htokens]
  dsimp only
  rw [hvalue]
  rfl

end SampleStream.Json
