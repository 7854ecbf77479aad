import SampleStream.Json.Token

/-!
# Reading JSON

One value from the front of a token list. Arrays and objects may nest as deep as the text goes on.
-/

namespace SampleStream.Json

mutual
/-- The value at the front, and the tokens behind it. -/
def ofTokens? : Nat → List Token → Option (Json × List Token)
  | 0, _ => none
  | fuel + 1, tokens =>
    match tokens with
    | .null :: rest => some (.null, rest)
    | .bool b :: rest => some (.bool b, rest)
    | .number n :: rest => some (.number n, rest)
    | .string content :: rest => some (.string content, rest)
    | .leftBracket :: .rightBracket :: rest => some (.array [], rest)
    | .leftBracket :: rest => do
      let (items, rest) ← items? fuel rest
      some (.array items, rest)
    | .leftBrace :: .rightBrace :: rest => some (.object [], rest)
    | .leftBrace :: rest => do
      let (members, rest) ← members? fuel rest
      some (.object members, rest)
    | _ => none

/-- One item or more, up to the closing bracket. -/
def items? : Nat → List Token → Option (List Json × List Token)
  | 0, _ => none
  | fuel + 1, tokens => do
    let (item, rest) ← ofTokens? fuel tokens
    match rest with
    | .rightBracket :: rest => some ([item], rest)
    | .comma :: rest => do
      let (items, rest) ← items? fuel rest
      some (item :: items, rest)
    | _ => none

/-- One member or more, up to the closing brace. -/
def members? : Nat → List Token → Option (List (Option String × Json) × List Token)
  | 0, _ => none
  | fuel + 1, tokens =>
    match tokens with
    | .string key :: .colon :: rest => do
      let (value, rest) ← ofTokens? fuel rest
      match rest with
      | .rightBrace :: rest => some ([(key, value)], rest)
      | .comma :: rest => do
        let (members, rest) ← members? fuel rest
        some ((key, value) :: members, rest)
      | _ => none
    | _ => none
end

/-- The value at the front of a text, and whether nothing but blanks follows it. Each call takes a token
or hands over to one that does, so twice as many calls as tokens are enough. -/
def ofText? (text : String) : Option (Json × Bool) := do
  let tokens := Token.ofText text.toList
  let (value, rest) ← ofTokens? (2 * tokens.length + 1) tokens
  some (value, rest.isEmpty)

end SampleStream.Json
