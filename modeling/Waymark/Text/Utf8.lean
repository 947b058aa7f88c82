/-
UTF-8.

A text is written as octets, here natural numbers below 256.  `Utf8.decode` accepts
exactly the shortest forms of characters: it refuses overlong forms, surrogates and
everything above the last code point.
-/

namespace Waymark.Utf8

/-- The octets of a code point. -/
def octets (n : Nat) : List Nat :=
  if n < 0x80 then [n]
  else if n < 0x800 then [0xC0 + n / 64, 0x80 + n % 64]
  else if n < 0x10000 then [0xE0 + n / 4096, 0x80 + n / 64 % 64, 0x80 + n % 64]
  else [0xF0 + n / 262144, 0x80 + n / 4096 % 64, 0x80 + n / 64 % 64, 0x80 + n % 64]

/-- The octets of a character. -/
def ofChar (c : Char) : List Nat := octets c.toNat

/-- The octets of a text. -/
def encode (cs : List Char) : List Nat := cs.flatMap ofChar

/-- The six bits that an octet adds to a character begun before it. -/
def tail? (octet : Nat) : Option Nat :=
  if 0x80 ≤ octet ∧ octet < 0xC0 then some (octet - 0x80) else none

/-- The character with the code `n`, which must need more octets than `least` would. -/
def shortest? (least n : Nat) : Option Char :=
  if least ≤ n ∧ n.isValidChar then some (Char.ofNat n) else none

/-- The character of which `first` is the first octet, given the octets after it, and how many
of those belong to it. -/
def head? (first : Nat) (rest : List Nat) : Option (Char × Nat) :=
  if first < 0x80 then some (Char.ofNat first, 0)
  else if first < 0xC0 then none
  else if first < 0xE0 then do
    let a ← tail? (← rest[0]?)
    some (← shortest? 0x80 ((first - 0xC0) * 64 + a), 1)
  else if first < 0xF0 then do
    let a ← tail? (← rest[0]?)
    let b ← tail? (← rest[1]?)
    some (← shortest? 0x800 ((first - 0xE0) * 4096 + a * 64 + b), 2)
  else if first < 0xF8 then do
    let a ← tail? (← rest[0]?)
    let b ← tail? (← rest[1]?)
    let c ← tail? (← rest[2]?)
    some (← shortest? 0x10000 ((first - 0xF0) * 262144 + a * 4096 + b * 64 + c), 3)
  else none

/-- The text that octets write, if they are UTF-8. -/
def decode (bytes : List Nat) : Option (List Char) :=
  match bytes with
  | [] => some []
  | first :: rest => do
    let (c, taken) ← head? first rest
    some (c :: (← decode (rest.drop taken)))
termination_by bytes.length
decreasing_by simp only [List.length_drop, List.length_cons]; omega

end Waymark.Utf8
