import SampleStream.Text.Quoted

/-!
# Outlines

Values shown by their structure: a constructor's name with its parts, on one line or indented over
several. Parts that have names are shown with them.
-/

namespace SampleStream

inductive Outline
  | leaf (text : List Char)
  /-- Parts in parentheses after a name. -/
  | node (name : String) (parts : List Outline)
  /-- Named parts in braces after a name; `more` says that further parts are not shown. -/
  | record (name : String) (fields : List (String × Outline)) (more : Bool)
  | list (items : List Outline)

namespace Outline

def word (text : String) : Outline :=
  .leaf text.toList

def nat (n : Nat) : Outline :=
  .leaf (Numeral.digits n)

def quoted (text : String) : Outline :=
  .leaf (Text.quote text)

mutual
/-- The outline on one line, in front of what follows it. -/
def inline : Outline → List Char → List Char
  | .leaf text, rest => text ++ rest
  | .node name parts, rest => name.toList ++ '(' :: inlineAll parts (')' :: rest)
  | .record name fields more, rest =>
    name.toList ++ ' ' :: '{' :: ' ' :: inlineFields more fields (' ' :: '}' :: rest)
  | .list items, rest => '[' :: inlineAll items (']' :: rest)

def inlineAll : List Outline → List Char → List Char
  | [], rest => rest
  | [o], rest => o.inline rest
  | o :: os, rest => o.inline (',' :: ' ' :: inlineAll os rest)

def inlineFields (more : Bool) : List (String × Outline) → List Char → List Char
  | [], rest => if more then '.' :: '.' :: rest else rest
  | (name, o) :: os, rest =>
    let behind := if os.isEmpty && !more then rest else ',' :: ' ' :: inlineFields more os rest
    name.toList ++ ':' :: ' ' :: o.inline behind
end

/-- One level of indentation. -/
def indent (line : List Char) : List Char :=
  ' ' :: ' ' :: ' ' :: ' ' :: line

/-- Puts a label in front of the first line and a comma behind the last, and indents all. -/
def item (label : List Char) : List (List Char) → List (List Char)
  | [] => []
  | line :: lines => (closeLast ((label ++ line) :: lines)).map indent
where
  closeLast : List (List Char) → List (List Char)
    | [] => []
    | [line] => [line ++ [',']]
    | line :: lines => line :: closeLast lines

mutual
/-- The outline over several lines: a part on each, with a comma, indented by four. -/
def lines : Outline → List (List Char)
  | .leaf text => [text]
  | .node name parts => (name.toList ++ ['(']) :: linesAll parts ++ [[')']]
  | .record name fields more =>
    (name.toList ++ [' ', '{']) :: linesFields fields
      ++ (if more then [indent ['.', '.']] else []) ++ [['}']]
  | .list items => ['['] :: linesAll items ++ [[']']]

def linesAll : List Outline → List (List Char)
  | [] => []
  | o :: os => item [] o.lines ++ linesAll os

def linesFields : List (String × Outline) → List (List Char)
  | [] => []
  | (name, o) :: os => item (name.toList ++ [':', ' ']) o.lines ++ linesFields os
end

def text (o : Outline) : String :=
  String.ofList (o.inline [])

def indented (o : Outline) : String :=
  String.ofList ((o.lines.intersperse ['\n']).flatten)

end Outline

end SampleStream
