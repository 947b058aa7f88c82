/-
Digits.
-/

namespace Waymark.Digit

/-- The value of a hexadecimal digit. -/
def hexValue? (c : Char) : Option Nat :=
  if '0' ≤ c ∧ c ≤ '9' then some (c.toNat - '0'.toNat)
  else if 'A' ≤ c ∧ c ≤ 'F' then some (c.toNat - 'A'.toNat + 10)
  else if 'a' ≤ c ∧ c ≤ 'f' then some (c.toNat - 'a'.toNat + 10)
  else none

/-- The number that hexadecimal digits write, or digits of a smaller base. -/
def valueIn (base : Nat) (digits : List Char) : Nat :=
  digits.foldl (fun value d => value * base + (hexValue? d).getD 0) 0

/-- The number that decimal digits write. -/
def decimal (digits : List Char) : Nat := valueIn 10 digits

end Waymark.Digit
