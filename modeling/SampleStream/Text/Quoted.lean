import SampleStream.Text.Numeral
import SampleStream.Text.Invisible

/-!
# Quoted text

A text between double quotes, with quotes, backslashes, the usual controls and every invisible character
escaped, so that what is shown on a line is all there is.
-/

namespace SampleStream.Text

/-- The form of one character inside quotes. -/
def escape (c : Char) : List Char :=
  if c == '"' then ['\\', '"']
  else if c == '\\' then ['\\', '\\']
  else if c == '\n' then ['\\', 'n']
  else if c == '\r' then ['\\', 'r']
  else if c == '\t' then ['\\', 't']
  else if c == '\x00' then ['\\', '0']
  else if ' ' ≤ c && c ≤ '~' then [c]
  else if isInvisible c then '\\' :: 'u' :: '{' :: Numeral.hexDigits c.toNat ++ ['}']
  else [c]

def quote (text : String) : List Char :=
  '"' :: text.toList.flatMap escape ++ ['"']

end SampleStream.Text
