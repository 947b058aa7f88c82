/-
The scalars of TOML: strings, numbers, truth values and dates.

A reader takes the text that is left and gives back the value and the text after it.
Numbers, truth values and dates are words: the longest run of the characters that
they are made of has to be one of them as a whole.
-/
import Waymark.Payload.Basic
import Waymark.Text.Digit

namespace Waymark.Toml

/-- Whether the character may stand in a comment. -/
def isCommentChar (c : Char) : Bool :=
  c = '\t' || (0x20 ≤ c.toNat && c.toNat ≤ 0x7E) || 0x80 ≤ c.toNat

/-- Drops spaces and tabs. -/
def skipSpace (cs : List Char) : List Char := cs.dropWhile fun c => c = ' ' || c = '\t'

/-- Drops a comment, if there is one. -/
def skipComment (cs : List Char) : List Char :=
  match cs with
  | '#' :: rest => rest.dropWhile isCommentChar
  | _ => cs

/-- The text after a line end. -/
def newline? (cs : List Char) : Option (List Char) :=
  match cs with
  | '\n' :: rest => some rest
  | '\r' :: '\n' :: rest => some rest
  | _ => none

/-- The text after a line end at the front, if there is one. -/
def dropNewline (cs : List Char) : List Char := (newline? cs).getD cs

/-- The character that a backslash and a letter stand for. -/
def escaped? (c : Char) : Option Char :=
  match c with
  | 'b' => some '\x08'
  | 't' => some '\t'
  | 'n' => some '\n'
  | 'f' => some '\x0c'
  | 'r' => some '\r'
  | '"' => some '"'
  | '\\' => some '\\'
  | _ => none

/-- The character that hexadecimal digits write. -/
def charOfHex? (digits : List Char) : Option Char :=
  let n := Digit.valueIn 16 digits
  if digits.all (fun d => (Digit.hexValue? d).isSome) && n.isValidChar then some (Char.ofNat n)
  else none

/-- Reads what a backslash introduces, given the text after the backslash. -/
def readEscape (cs : List Char) : Option (Char × List Char) :=
  match cs with
  | 'u' :: a :: b :: c :: d :: rest => (charOfHex? [a, b, c, d]).map (·, rest)
  | 'U' :: a :: b :: c :: d :: e :: f :: g :: h :: rest =>
    (charOfHex? [a, b, c, d, e, f, g, h]).map (·, rest)
  | c :: rest => (escaped? c).map (·, rest)
  | [] => none

/-- Reads a string in double quotes on one line, up to the quote that ends it. -/
def readBasic (cs : List Char) : Option (List Char × List Char) :=
  match cs with
  | [] => none
  | c :: rest =>
    if c = '"' then some ([], rest)
    else if c = '\\' then
      match readEscape rest with
      | none => none
      | some (c, after) =>
        if _h : after.length < (c :: rest).length then
          (readBasic after).map fun (text, after) => (c :: text, after)
        else none
    else if isCommentChar c then (readBasic rest).map fun (text, after) => (c :: text, after)
    else none
termination_by cs.length
decreasing_by all_goals first | assumption | exact Nat.lt_succ_self _

/-- Reads a string in single quotes on one line, up to the quote that ends it. -/
def readLiteral : List Char → Option (List Char × List Char)
  | [] => none
  | c :: rest =>
    if c = '\'' then some ([], rest)
    else if isCommentChar c then (readLiteral rest).map fun (text, after) => (c :: text, after)
    else none

/-- The end of a string over several lines: three quotes, of which one or two more may come
before. -/
def closing? (quote : Char) (cs : List Char) : Option (List Char × List Char) :=
  let quotes := cs.takeWhile (· = quote)
  if 3 ≤ quotes.length then
    let inner := min (quotes.length - 3) 2
    some (quotes.take inner, cs.drop (inner + 3))
  else none

/-- The text after a backslash at the end of a line: blanks and line ends are dropped. -/
def continueLine? (cs : List Char) : Option (List Char) :=
  (newline? (skipSpace cs)).map fun rest =>
    rest.dropWhile fun c => c = ' ' || c = '\t' || c = '\n' || c = '\r'

/-- Reads a string over several lines up to the quotes that end it.  Line ends are written as
line feeds; `escapes` tells whether backslashes have a meaning. -/
def readLines (quote : Char) (escapes : Bool) (cs : List Char) :
    Option (List Char × List Char) :=
  match cs with
  | [] => none
  | c :: rest =>
    let next (text : List Char) (after : List Char) : Option (List Char × List Char) :=
      if _h : after.length < (c :: rest).length then
        (readLines quote escapes after).map fun (more, after) => (text ++ more, after)
      else none
    match closing? quote (c :: rest) with
    | some found => some found
    | none =>
      if c = '\\' && escapes then
        match continueLine? rest with
        | some after => next [] after
        | none =>
          match readEscape rest with
          | some (c, after) => next [c] after
          | none => none
      else match newline? (c :: rest) with
        | some after => next ['\n'] after
        | none => if isCommentChar c then next [c] rest else none
termination_by cs.length
decreasing_by assumption

/-- Reads a string, if a quote begins it. -/
def readString (cs : List Char) : Option (List Char × List Char) :=
  match cs with
  | '"' :: '"' :: '"' :: rest => readLines '"' true (dropNewline rest)
  | '"' :: rest => readBasic rest
  | '\'' :: '\'' :: '\'' :: rest => readLines '\'' false (dropNewline rest)
  | '\'' :: rest => readLiteral rest
  | _ => none

/-- Whether numbers, truth values and dates are made of the character. -/
def isWordChar (c : Char) : Bool :=
  c.isAlphanum || c = '_' || c = '+' || c = '-' || c = '.' || c = ':'

/-- The digits without the underscores between them, which need a digit on either side. -/
def digits? (isDigit : Char → Bool) : List Char → Option (List Char)
  | [] => none
  | [d] => if isDigit d then some [d] else none
  | d :: '_' :: rest => if isDigit d then (digits? isDigit rest).map (d :: ·) else none
  | d :: rest => if isDigit d then (digits? isDigit rest).map (d :: ·) else none

/-- A whole number of 64 bits. -/
def integer? (value : Int) : Option Payload :=
  if -0x8000000000000000 ≤ value && value < 0x8000000000000000 then some (.integer value) else none

/-- A number in a base other than ten. -/
def based? (base : Nat) (cs : List Char) : Option Payload := do
  let digits ← digits? (fun c => (Digit.hexValue? c).any (· < base)) cs
  integer? (Digit.valueIn base digits)

/-- A sign at the front, if there is one. -/
def splitSign (cs : List Char) : Bool × List Char :=
  match cs with
  | '-' :: rest => (true, rest)
  | '+' :: rest => (false, rest)
  | _ => (false, cs)

/-- The digits before the point or exponent, without zeros in front. -/
def whole? (cs : List Char) : Option (List Char) := do
  let digits ← digits? Char.isDigit cs
  if digits.head? = some '0' ∧ digits.length ≠ 1 then none else some digits

/-- A number with a point, an exponent or both. -/
def float? (negative : Bool) (cs : List Char) : Option Payload := do
  let isExponent (c : Char) : Bool := c = 'e' || c = 'E'
  let front := cs.takeWhile fun c => !isExponent c
  let exponent : Int ← match cs.dropWhile fun c => !isExponent c with
    | [] => some 0
    | _ :: rest => do
      let (negative, rest) := splitSign rest
      let digits ← digits? Char.isDigit rest
      let value : Int := Digit.decimal digits
      some (if negative then -value else value)
  let whole ← whole? (front.takeWhile (· ≠ '.'))
  let fraction ← match front.dropWhile (· ≠ '.') with
    | [] => some []
    | _ :: rest => digits? Char.isDigit rest
  let digits : Int := Digit.decimal (whole ++ fraction)
  let mantissa := if negative then -digits else digits
  let exponent := exponent - (fraction.length : Int)
  if isFiniteDecimal mantissa exponent then some (.real mantissa exponent) else none

/-- A number with digits of base ten.  What is not a number and what is infinite has no value. -/
def decimal? (cs : List Char) : Option Payload := do
  let (negative, cs) := splitSign cs
  if cs = ['i', 'n', 'f'] || cs = ['n', 'a', 'n'] then some .null
  else if cs.any fun c => c = '.' || c = 'e' || c = 'E' then float? negative cs
  else
    let value : Int := Digit.decimal (← whole? cs)
    integer? (if negative then -value else value)

/-- Exactly the given number of digits at the front. -/
def fixed? (count : Nat) (cs : List Char) : Option (Nat × List Char) :=
  let digits := cs.take count
  if digits.length = count ∧ digits.all Char.isDigit then
    some (Digit.decimal digits, cs.drop count)
  else none

/-- The character at the front, which has to be the given one. -/
def expect? (c : Char) (cs : List Char) : Option (List Char) :=
  match cs with
  | d :: rest => if d = c then some rest else none
  | [] => none

/-- The number of days in a month. -/
def daysIn (year month : Nat) : Nat :=
  if month = 2 then
    if year % 4 = 0 ∧ (year % 100 ≠ 0 ∨ year % 400 = 0) then 29 else 28
  else if month = 4 || month = 6 || month = 9 || month = 11 then 30
  else 31

/-- A date, and the text after it. -/
def date? (cs : List Char) : Option (List Char × List Char) := do
  let (year, rest) ← fixed? 4 cs
  let (month, rest) ← fixed? 2 (← expect? '-' rest)
  let (day, rest) ← fixed? 2 (← expect? '-' rest)
  if 1 ≤ month ∧ month ≤ 12 ∧ 1 ≤ day ∧ day ≤ daysIn year month then
    some (cs.take 10, rest)
  else none

/-- The fraction of a second, in at most nine digits without zeros at the end. -/
def secondFraction (digits : List Char) : List Char :=
  match (digits.take 9).reverse.dropWhile (· = '0') with
  | [] => []
  | kept => '.' :: kept.reverse

/-- A time of day, and the text after it. -/
def time? (cs : List Char) : Option (List Char × List Char) := do
  let (hour, rest) ← fixed? 2 cs
  let (minute, rest) ← fixed? 2 (← expect? ':' rest)
  let (second, rest) ← fixed? 2 (← expect? ':' rest)
  if hour ≤ 23 ∧ minute ≤ 59 ∧ second ≤ 60 then
    match rest with
    | '.' :: rest =>
      let digits := rest.takeWhile Char.isDigit
      if digits.isEmpty then none
      else some (cs.take 8 ++ secondFraction digits, rest.dropWhile Char.isDigit)
    | _ => some (cs.take 8, rest)
  else none

/-- The offset of a time, if the text is one. -/
def offset? (cs : List Char) : Option (List Char) := do
  match cs with
  | [] => some []
  | ['Z'] => some ['Z']
  | ['z'] => some ['Z']
  | sign :: rest =>
    if sign = '+' || sign = '-' then
      let (hour, after) ← fixed? 2 rest
      let (minute, after) ← fixed? 2 (← expect? ':' after)
      if hour ≤ 23 ∧ minute ≤ 59 ∧ after.isEmpty then some cs else none
    else none

/-- A date with its text in normal form is an object with one field. -/
def moment (text : List Char) : Payload :=
  .object [("$__toml_private_datetime", .text (String.ofList text))]

/-- A date, a time, or both. -/
def moment? (cs : List Char) : Option Payload :=
  match date? cs with
  | some (date, []) => some (moment date)
  | some (date, mark :: rest) => do
    if mark = 'T' || mark = 't' || mark = ' ' then
      let (time, rest) ← time? rest
      some (moment (date ++ 'T' :: time ++ (← offset? rest)))
    else none
  | none => do
    let (time, rest) ← time? cs
    if rest.isEmpty then some (moment time) else none

/-- The value that a word stands for. -/
def word? (cs : List Char) : Option Payload :=
  match cs with
  | ['t', 'r', 'u', 'e'] => some (.bool true)
  | ['f', 'a', 'l', 's', 'e'] => some (.bool false)
  | '0' :: 'x' :: rest => based? 16 rest
  | '0' :: 'o' :: rest => based? 8 rest
  | '0' :: 'b' :: rest => based? 2 rest
  | _ =>
    if cs[4]? = some '-' && (cs.take 4).all Char.isDigit || cs[2]? = some ':' then moment? cs
    else decimal? cs

/-- Reads a number, a truth value or a date.  A blank may stand between a date and a time. -/
def readWord (cs : List Char) : Option (Payload × List Char) :=
  let word := cs.takeWhile isWordChar
  let rest := cs.dropWhile isWordChar
  match rest with
  | ' ' :: after =>
    let second := after.takeWhile isWordChar
    if (date? word).any (·.2.isEmpty) && second.head?.any Char.isDigit then
      (moment? (word ++ ' ' :: second)).map (·, after.dropWhile isWordChar)
    else (word? word).map (·, rest)
  | _ => (word? word).map (·, rest)

end Waymark.Toml
