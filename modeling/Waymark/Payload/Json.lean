/-
Reading JSON.

`Json.read?` accepts one JSON value with blanks around it.  Objects keep their fields
in the order of the source.  A string that holds half of a pair of code units is well
formed and yet no text, so neither it nor an object with such a key can be used; nor
can arrays and objects that nest more than 127 deep.
-/
import Waymark.Payload.Basic
import Waymark.Text.Digit

namespace Waymark.Json

/-- How deep arrays and objects may nest that are used. -/
def maxDepth : Nat := 127

/-- Drops blanks. -/
def skipSpace (cs : List Char) : List Char :=
  cs.dropWhile fun c => c = ' ' || c = '\n' || c = '\t' || c = '\r'

/-- The number that four hexadecimal digits write. -/
def codeUnit? (a b c d : Char) : Option Nat := do
  let high := (← Digit.hexValue? a) * 16 + (← Digit.hexValue? b)
  let low := (← Digit.hexValue? c) * 16 + (← Digit.hexValue? d)
  some (high * 256 + low)

/-- The character that a backslash and `c` stand for. -/
def escaped? (c : Char) : Option Char :=
  match c with
  | '"' => some '"'
  | '\\' => some '\\'
  | '/' => some '/'
  | 'b' => some '\x08'
  | 'f' => some '\x0c'
  | 'n' => some '\n'
  | 'r' => some '\r'
  | 't' => some '\t'
  | _ => none

/-- The character that a pair of code units stands for. -/
def pair? (high low : Nat) : Option Char :=
  if 0xD800 ≤ high && high < 0xDC00 && 0xDC00 ≤ low && low < 0xE000 then
    some (Char.ofNat (0x10000 + (high - 0xD800) * 0x400 + (low - 0xDC00)))
  else none

/-- The character that a code unit stands for by itself. -/
def single? (unit : Nat) : Option Char :=
  if unit.isValidChar then some (Char.ofNat unit) else none

/-- The character that a code unit and an escaped one at the front of the text after it stand for,
and the text after both. -/
def readPair? (unit : Nat) (cs : List Char) : Option (Char × List Char) :=
  match cs with
  | '\\' :: 'u' :: a :: b :: c :: d :: rest => do
    some (← pair? unit (← codeUnit? a b c d), rest)
  | _ => none

theorem length_readPair? {unit : Nat} {cs after : List Char} {c : Char}
    (h : readPair? unit cs = some (c, after)) : after.length ≤ cs.length := by
  unfold readPair? at h
  split at h
  · simp only [Option.bind_eq_bind, Option.bind_eq_some_iff, Option.some.injEq, Prod.mk.injEq] at h
    obtain ⟨_, _, _, _, _, rfl⟩ := h
    simp only [List.length_cons]
    omega
  · simp at h

/-- Reads a string up to the quote that ends it.  In the place of half a pair of code units there
is no character. -/
def readChars (cs : List Char) : Option (List (Option Char) × List Char) :=
  match cs with
  | [] => none
  | '\\' :: 'u' :: a :: b :: c :: d :: rest =>
    match codeUnit? a b c d with
    | none => none
    | some unit =>
      match h : readPair? unit rest with
      | some (c, after) =>
        have := length_readPair? h
        (readChars after).map fun (text, after) => (some c :: text, after)
      | none => (readChars rest).map fun (text, after) => (single? unit :: text, after)
  | '\\' :: c :: rest =>
    match escaped? c with
    | none => none
    | some c => (readChars rest).map fun (text, after) => (some c :: text, after)
  | c :: rest =>
    if c = '"' then some ([], rest)
    else if c.toNat < 0x20 || c = '\\' then none
    else (readChars rest).map fun (text, after) => (some c :: text, after)
termination_by cs.length

/-- Reads a string; what comes first is `none` if the string is no text. -/
def readString (cs : List Char) : Option (Option String × List Char) :=
  (readChars cs).map fun (chars, after) => ((chars.mapM id).map String.ofList, after)

/-- Reads digits, of which there must be one at least. -/
def readDigits? (cs : List Char) : Option (List Char × List Char) :=
  match cs.takeWhile Char.isDigit with
  | [] => none
  | digits => some (digits, cs.dropWhile Char.isDigit)

/-- Reads the digits after a point, if there is a point. -/
def readFraction (cs : List Char) : Option (List Char × List Char) :=
  match cs with
  | '.' :: rest => readDigits? rest
  | _ => some ([], cs)

/-- Reads an exponent, if there is one. -/
def readExponent (cs : List Char) : Option (Option Int × List Char) :=
  match cs with
  | [] => some (none, [])
  | c :: rest =>
    if c = 'e' || c = 'E' then
      let (negative, rest) := match rest with
        | '-' :: rest => (true, rest)
        | '+' :: rest => (false, rest)
        | rest => (false, rest)
      (readDigits? rest).map fun (digits, after) =>
        let value : Int := Digit.decimal digits
        (some (if negative then -value else value), after)
    else some (none, cs)

/-- Reads a number. -/
def readNumber (cs : List Char) : Option (Payload × List Char) := do
  let (negative, cs) := match cs with
    | '-' :: rest => (true, rest)
    | cs => (false, cs)
  let (whole, rest) ← readDigits? cs
  if whole.head? = some '0' ∧ whole.length ≠ 1 then none
  let (fraction, rest) ← readFraction rest
  let (exponent, rest) ← readExponent rest
  if fraction.isEmpty && exponent.isNone then
    some (.ofDigits negative (Digit.decimal whole), rest)
  else
    let digits : Int := Digit.decimal (whole ++ fraction)
    some (.real (if negative then -digits else digits)
      (exponent.getD 0 - (fraction.length : Int)), rest)

/-- The payload of a string. -/
def ofText : Option String → Payload
  | some text => .text text
  | none => .unusable

/-- The payload of an array inside of `depth` arrays and objects. -/
def ofItems (depth : Nat) (items : List Payload) : Payload :=
  if maxDepth ≤ depth then .unusable else .list items

/-- The payload of an object inside of `depth` arrays and objects. -/
def ofFields (depth : Nat) (fields : List (Option String × Payload)) : Payload :=
  match fields.mapM fun (key, value) => key.map (·, value) with
  | some fields => if maxDepth ≤ depth then .unusable else .object fields
  | none => .unusable

mutual

/-- Reads a value, inside of `depth` arrays and objects.  A reading and the readings inside of it
are at most `fuel`. -/
def readValue (fuel depth : Nat) (cs : List Char) : Option (Payload × List Char) :=
  match fuel with
  | 0 => none
  | fuel + 1 =>
    match skipSpace cs with
    | [] => none
    | '"' :: rest => (readString rest).map fun (text, after) => (ofText text, after)
    | '[' :: rest =>
      match skipSpace rest with
      | ']' :: after => some (ofItems depth [], after)
      | rest => (readItems fuel (depth + 1) rest).map fun (items, after) =>
          (ofItems depth items, after)
    | '{' :: rest =>
      match skipSpace rest with
      | '}' :: after => some (ofFields depth [], after)
      | rest => (readFields fuel (depth + 1) rest).map fun (fields, after) =>
          (ofFields depth fields, after)
    | 'n' :: 'u' :: 'l' :: 'l' :: rest => some (.null, rest)
    | 't' :: 'r' :: 'u' :: 'e' :: rest => some (.bool true, rest)
    | 'f' :: 'a' :: 'l' :: 's' :: 'e' :: rest => some (.bool false, rest)
    | rest => readNumber rest

/-- Reads the items of an array and the bracket after them. -/
def readItems (fuel depth : Nat) (cs : List Char) : Option (List Payload × List Char) :=
  match fuel with
  | 0 => none
  | fuel + 1 =>
    match readValue fuel depth cs with
    | none => none
    | some (item, rest) =>
      match skipSpace rest with
      | ',' :: rest => (readItems fuel depth rest).map fun (items, after) =>
          (item :: items, after)
      | ']' :: after => some ([item], after)
      | _ => none

/-- Reads the fields of an object and the brace after them. -/
def readFields (fuel depth : Nat) (cs : List Char) :
    Option (List (Option String × Payload) × List Char) :=
  match fuel with
  | 0 => none
  | fuel + 1 =>
    match skipSpace cs with
    | '"' :: rest =>
      match readString rest with
      | none => none
      | some (key, rest) =>
        match skipSpace rest with
        | ':' :: rest =>
          match readValue fuel depth rest with
          | none => none
          | some (value, rest) =>
            match skipSpace rest with
            | ',' :: rest => (readFields fuel depth rest).map fun (fields, after) =>
                ((key, value) :: fields, after)
            | '}' :: after => some ([(key, value)], after)
            | _ => none
        | _ => none
    | _ => none

end

/-- The value that a JSON text holds. -/
def read? (source : String) : Option Payload := do
  let cs := source.toList
  let (value, rest) ← readValue (2 * cs.length + 2) 0 cs
  if (skipSpace rest).isEmpty then some value else none

end Waymark.Json
