/-
Payloads.

A payload is what a route carries without looking at it: texts, numbers, truth
values, lists and objects.  A reader keeps every field of an object as it stands in
the source, a repeated key included, and marks what may be passed over but not used;
`Payload.settle?` keeps the last value of each key and refuses what cannot be used.
-/
import Waymark.Dict

namespace Waymark

/-- A value of a route table. -/
inductive Payload
  | null
  | bool (value : Bool)
  /-- A whole number of at most 64 bits. -/
  | integer (value : Int)
  /-- Any other number, `mantissa · 10 ^ exponent`. -/
  | real (mantissa exponent : Int)
  | text (value : String)
  | list (items : List Payload)
  | object (fields : List (String × Payload))
  /-- Well-formed source that stands for no value. -/
  | unusable
  deriving Repr

/-- The number of decimal digits of a number. -/
def decimalLength (n : Nat) : Nat := (Nat.toDigits 10 n).length

/-- Whether the nearest floating-point number of 64 bits is not infinite. -/
def isFiniteDecimal (mantissa exponent : Int) : Bool :=
  let digits := mantissa.natAbs
  let bound : Nat := Nat.pow 2 1024 - Nat.pow 2 970
  if digits = 0 then true
  else if (decimalLength digits : Int) + exponent > 310 then false
  else if exponent ≥ 0 then digits * Nat.pow 10 exponent.toNat < bound
  else if (decimalLength digits : Int) + exponent < 300 then true
  else digits < bound * Nat.pow 10 (-exponent).toNat

namespace Payload

/-- Whether a number is a whole number of 64 bits, with or without a sign. -/
def fitsInteger (n : Int) : Bool := -0x8000000000000000 ≤ n && n < 0x10000000000000000

/-- The number that an optional minus sign and decimal digits write.  Minus zero is no whole
number. -/
def ofDigits (negative : Bool) (digits : Nat) : Payload :=
  let value : Int := if negative then -(digits : Int) else digits
  if fitsInteger value && !(negative && digits = 0) then .integer value else .real value 0

mutual

/-- The payload with one value for each key, if all of it can be used: a number has to be in the
range of floating-point numbers. -/
def settle? : Payload → Option Payload
  | .null => some .null
  | .bool value => some (.bool value)
  | .integer value => some (.integer value)
  | .real mantissa exponent =>
    if isFiniteDecimal mantissa exponent then some (.real mantissa exponent) else none
  | .text value => some (.text value)
  | .list items => (settleList? items).map .list
  | .object fields => (settleFields? fields).map fun fields => .object (Dict.ofPairs fields)
  | .unusable => none

/-- Settles the items of a list. -/
def settleList? : List Payload → Option (List Payload)
  | [] => some []
  | item :: rest => do some ((← settle? item) :: (← settleList? rest))

/-- Settles the values of fields. -/
def settleFields? : List (String × Payload) → Option (List (String × Payload))
  | [] => some []
  | (key, value) :: rest => do some ((key, ← settle? value) :: (← settleFields? rest))

end

end Payload

end Waymark
