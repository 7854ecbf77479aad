/-!
# TOML documents

A document is a table of values. Each table remembers how it came to be, because that decides what may
still be added to it: a header opens a table once, dotted keys extend only tables that dotted keys made,
and what stands inside braces is closed. Keys never repeat.
-/

namespace SampleStream

/-- How a table came to be. -/
inductive Toml.Origin
  /-- Opened by a header, or the root. -/
  | header
  /-- Passed through on the way to a header's table. -/
  | implied
  /-- Passed through by a dotted key. -/
  | dotted
  /-- Written in braces. -/
  | inline
deriving DecidableEq, Repr

inductive Toml
  | integer (n : Int)
  /-- A floating-point number. -/
  | float (text : List Char)
  | bool (b : Bool)
  | string (content : String)
  /-- A date, a time, or both. -/
  | moment (text : List Char)
  | array (items : List Toml)
  | table (origin : Toml.Origin) (entries : List (String × Toml))
  /-- The tables under a repeated header. -/
  | tables (elements : List Toml)

namespace Toml

def empty : Toml := .table .header []

def lookup? (key : String) (entries : List (String × Toml)) : Option Toml :=
  (entries.find? (·.1 == key)).map (·.2)

/-- Gives a key its value, in its old place if it had one. -/
def put (key : String) (value : Toml) : List (String × Toml) → List (String × Toml)
  | [] => [(key, value)]
  | (k, v) :: rest => if k == key then (key, value) :: rest else (k, v) :: put key value rest

/-- Changes the table at the end of a path, making the tables on the way that are missing. The path goes
through the last element of repeated tables, and never through a value; dotted keys do not enter a table
that a header opened. -/
def changeAt (dotted : Bool) : List String → (Toml → Option Toml) → Toml → Option Toml
  | [], change, t => change t
  | key :: path, change, .table origin entries => do
    let child := (lookup? key entries).getD (.table (if dotted then .dotted else .implied) [])
    let changed ← match child with
      | .table .inline _ => none
      | .table .header es =>
        if dotted then none else changeAt dotted path change (.table .header es)
      | .table o es => changeAt dotted path change (.table o es)
      | .tables elements => do
        let last ← changeAt dotted path change (← elements.getLast?)
        some (.tables (elements.dropLast ++ [last]))
      | _ => none
    some (.table origin (put key changed entries))
  | _ :: _, _, _ => none

/-- Adds a key to a table; a dotted key (`nested`) only to a table that dotted keys made, and a plain key
only to one that they did not. -/
def add (nested : Bool) (key : String) (value : Toml) : Toml → Option Toml
  | .table origin entries =>
    if (origin == .dotted) != nested then none
    else if (lookup? key entries).isSome then none
    else some (.table origin (put key value entries))
  | _ => none

/-- Assigns a value under a dotted key, seen from the table itself. -/
def assign (path : List String) (key : String) (value : Toml) : Toml → Option Toml :=
  changeAt true path (add (!path.isEmpty) key value)

/-- Opens the table of a header in its parent; only a table that was merely passed through is there
already. -/
def openTable (key : String) : Toml → Option Toml
  | .table origin entries =>
    match lookup? key entries with
    | none => some (.table origin (put key empty entries))
    | some (.table .implied es) => some (.table origin (put key (.table .header es) entries))
    | some _ => none
  | _ => none

/-- Opens one more table under a repeated header. -/
def openElement (key : String) : Toml → Option Toml
  | .table origin entries =>
    match lookup? key entries with
    | none => some (.table origin (put key (.tables [empty]) entries))
    | some (.tables elements) => some (.table origin (put key (.tables (elements ++ [empty])) entries))
    | some _ => none
  | _ => none

/-- The value of a key of the document. -/
def get? (key : String) : Toml → Option Toml
  | .table _ entries => lookup? key entries
  | _ => none

/-- The natural below `bound` that the value is. -/
def natBelow? (bound : Nat) : Toml → Option Nat
  | .integer n => if 0 ≤ n ∧ n < bound then some n.toNat else none
  | _ => none

end Toml

end SampleStream
