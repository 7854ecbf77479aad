/-!
# Numerals

Naturals as digit characters and back, in base ten and in base sixteen.
-/

namespace SampleStream.Numeral

def digitChar (d : Nat) : Char :=
  Char.ofNat ('0'.toNat + d)

def digitValue (c : Char) : Nat :=
  c.toNat - '0'.toNat

/-- The digits of `n`, most significant first, without leading zeros. -/
def digits (n : Nat) : List Char :=
  if n < 10 then [digitChar n] else digits (n / 10) ++ [digitChar (n % 10)]
termination_by n

/-- The number that a run of digits stands for; the empty run stands for zero. -/
def value (cs : List Char) : Nat :=
  cs.foldl (fun n c => 10 * n + digitValue c) 0

def isDigit (c : Char) : Bool :=
  '0' ≤ c && c ≤ '9'

theorem value_append_singleton (cs : List Char) (c : Char) :
    value (cs ++ [c]) = 10 * value cs + digitValue c := by
  simp [value]

theorem digitValue_digitChar {d : Nat} (h : d < 10) : digitValue (digitChar d) = d := by
  have : ∀ d : Fin 10, digitValue (digitChar d.val) = d.val := by decide
  exact this ⟨d, h⟩

theorem value_digits (n : Nat) : value (digits n) = n := by
  fun_induction digits n with
  | case1 n h => simp [value, digitValue_digitChar h]
  | case2 n h ih => rw [value_append_singleton, ih, digitValue_digitChar (by omega)]; omega

/-- The digits of `n` in base sixteen, in lower case. -/
def hexDigits (n : Nat) : List Char :=
  Nat.toDigits 16 n

/-- The value of a digit in base sixteen, in upper or lower case. -/
def hexValue? (c : Char) : Option Nat :=
  if isDigit c then some (digitValue c)
  else if 'a' ≤ c && c ≤ 'f' then some (c.toNat - 'a'.toNat + 10)
  else if 'A' ≤ c && c ≤ 'F' then some (c.toNat - 'A'.toNat + 10)
  else none

end SampleStream.Numeral
