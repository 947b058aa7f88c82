/-
Percent-encoding.

`Percent.encode` keeps letters, digits and the marks `-`, `_`, `.` and `~` of ASCII
and writes every other character as the octets of its UTF-8 form, each as a percent
sign and two capital hexadecimal digits.  `Percent.decode` reads such a text back; a
percent sign without two digits after it stands for itself, and a text whose octets
are not UTF-8 is left as it is.
-/
import Waymark.Text.Digit
import Waymark.Text.Utf8

namespace Waymark.Percent

/-- Whether a character needs no encoding. -/
def isPlain (c : Char) : Bool := c.isAlphanum || c = '-' || c = '_' || c = '.' || c = '~'

/-- The hexadecimal digit for a number below sixteen. -/
def hexDigit (n : Nat) : Char :=
  if n < 10 then Char.ofNat ('0'.toNat + n) else Char.ofNat ('A'.toNat + (n - 10))

/-- A percent sign and the two digits of an octet. -/
def encodeOctet (octet : Nat) : List Char := ['%', hexDigit (octet / 16), hexDigit (octet % 16)]

/-- The encoded form of a character. -/
def encodeChar (c : Char) : List Char :=
  if isPlain c then [c] else (Utf8.ofChar c).flatMap encodeOctet

/-- The encoded form of a text. -/
def encode (cs : List Char) : List Char := cs.flatMap encodeChar

/-- The octet that two digits write. -/
def octet? (high low : Char) : Option Nat := do
  some ((← Digit.hexValue? high) * 16 + (← Digit.hexValue? low))

/-- The octets of a text in which percent signs and two digits stand for octets. -/
def octets : List Char → List Nat
  | [] => []
  | '%' :: high :: low :: rest =>
    match octet? high low with
    | some octet => octet :: octets rest
    | none => '%'.toNat :: octets (high :: low :: rest)
  | c :: rest => Utf8.ofChar c ++ octets rest

/-- The text that an encoded text stands for, if its octets are UTF-8. -/
def decode? (cs : List Char) : Option (List Char) := Utf8.decode (octets cs)

/-- The text that an encoded text stands for, or the encoded text itself. -/
def decode (cs : List Char) : List Char := (decode? cs).getD cs

end Waymark.Percent
