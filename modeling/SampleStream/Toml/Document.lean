import SampleStream.Toml.Scalar

/-!
# Reading TOML

Values with parts, and documents line by line. Arrays and inline tables nest at most 79 deep, and a key
has at most 79 parts.
-/

namespace SampleStream.Toml

def maxDepth : Nat := 79

/-- The items of an array after its bracket: comments and line ends may stand anywhere between them, and
a comma may follow the last. -/
def items (inner : Scanner Toml) : Nat → Scanner (List Toml)
  | 0, _ => none
  | fuel + 1, cs =>
    match skipLines cs.length cs with
    | ']' :: rest => some ([], rest)
    | cs => do
      let (item, rest) ← inner cs
      match skipLines rest.length rest with
      | ',' :: rest => do
        let (more, rest) ← items inner fuel rest
        some (item :: more, rest)
      | ']' :: rest => some ([item], rest)
      | _ => none

/-- A key, an equals sign and a value. -/
def assignment (inner : Scanner Toml) : Scanner (List String × Toml) := fun cs => do
  let (path, rest) ← key? maxDepth cs
  match rest with
  | '=' :: rest => do
    let (value, rest) ← inner (skipBlanks rest)
    some ((path, value), rest)
  | _ => none

/-- The table with one more assignment. -/
def assigned (path : List String) (value : Toml) (t : Toml) : Option Toml :=
  match path.getLast? with
  | some key => assign path.dropLast key value t
  | none => none

/-- The assignments of an inline table, the first not yet read, up to its brace. -/
def entries (inner : Scanner Toml) : Nat → Toml → Scanner Toml
  | 0, _, _ => none
  | fuel + 1, t, cs => do
    let ((path, value), rest) ← assignment inner cs
    let t ← assigned path value t
    match skipBlanks rest with
    | ',' :: rest => entries inner fuel t rest
    | '}' :: rest => some (t, rest)
    | _ => none

def closed : Toml → Toml
  | .table _ es => .table .inline es
  | t => t

/-- A value whose arrays and inline tables nest at most `room` deep. -/
def value : (room : Nat) → Scanner Toml
  | 0, cs => scalar? cs
  | room + 1, cs =>
    match cs with
    | '[' :: rest => (items (value room) (rest.length + 1) rest).map fun (is, rest) => (.array is, rest)
    | '{' :: rest =>
      match skipBlanks rest with
      | '}' :: rest => some (.table .inline [], rest)
      | rest => (entries (value room) (rest.length + 1) empty rest).map fun (t, rest) => (closed t, rest)
    | cs => scalar? cs

/-- The rest of the text after the rest of a line, which holds nothing but blanks and a comment. -/
def finishLine (cs : List Char) : Option (List Char) :=
  match skipComment (skipBlanks cs) with
  | [] => some []
  | rest => lineEnd? rest

/-- A document and the path of the table that lines now add to. -/
structure Draft where
  root : Toml
  current : List String

/-- Opens the table of a header. -/
def Draft.header (repeated : Bool) (path : List String) (d : Draft) : Option Draft := do
  let key ← path.getLast?
  let change := if repeated then openElement key else openTable key
  some ⟨← changeAt false path.dropLast change d.root, path⟩

def Draft.assign (path : List String) (value : Toml) (d : Draft) : Option Draft := do
  some { d with root := ← changeAt false d.current (assigned path value) d.root }

/-- What one line adds to the document, and the rest of that line. -/
def line (d : Draft) (cs : List Char) : Option (Draft × List Char) :=
  match cs with
  | '[' :: '[' :: rest => do
    let (path, rest) ← key? maxDepth rest
    match rest with
    | ']' :: ']' :: rest => some (← d.header true path, rest)
    | _ => none
  | '[' :: rest => do
    let (path, rest) ← key? maxDepth rest
    match rest with
    | ']' :: rest => some (← d.header false path, rest)
    | _ => none
  | _ => do
    let ((path, v), rest) ← assignment (value maxDepth) cs
    some (← d.assign path v, rest)

def lines : Nat → Draft → List Char → Option Toml
  | 0, _, _ => none
  | fuel + 1, d, cs =>
    let start := skipBlanks cs
    match start with
    | [] => some d.root
    | c :: _ =>
      if c == '#' || (lineEnd? start).isSome then do
        lines fuel d (← finishLine start)
      else do
        let (d, rest) ← line d start
        lines fuel d (← finishLine rest)

/-- The document of a text. A byte order mark at its beginning does not count. -/
def parse? (text : String) : Option Toml :=
  let cs := match text.toList with
    | '\ufeff' :: cs => cs
    | cs => cs
  lines (cs.length + 1) ⟨empty, []⟩ cs

end SampleStream.Toml
