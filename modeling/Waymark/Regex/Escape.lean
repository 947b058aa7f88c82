/-
Reading the small pieces of a regular expression.

Blank text (skipped when the expression is in extended mode), decimal and
hexadecimal numbers, and what a backslash introduces.  Every reader takes the text
that is left and gives back the piece and the text after it, or `none` where the
text is no regular expression.
-/
import Waymark.Regex.Tree
import Waymark.Text.Digit
import Waymark.Unicode.Property

namespace Waymark.Regex

open Waymark.Unicode

/-- Whether the character is white space. -/
def isBlank (c : Char) : Bool := whiteSpace.has c

mutual

/-- Drops white space and comments. -/
def dropBlank : List Char → List Char
  | [] => []
  | c :: cs =>
    if isBlank c then dropBlank cs else if c = '#' then dropComment cs else c :: cs

/-- Drops the rest of a comment, its line end included, and what is blank after it. -/
def dropComment : List Char → List Char
  | [] => []
  | c :: cs => if c = '\n' then dropBlank cs else dropComment cs

end

/-- The text without the blanks in front; blanks count only in extended mode. -/
def skipBlank (extended : Bool) (cs : List Char) : List Char :=
  if extended then dropBlank cs else cs

mutual

theorem length_dropBlank_le (cs : List Char) : (dropBlank cs).length ≤ cs.length := by
  match cs with
  | [] => simp [dropBlank]
  | c :: cs =>
    have blank := length_dropBlank_le cs
    have comment := length_dropComment_le cs
    unfold dropBlank
    split
    · simp only [List.length_cons]; omega
    · split
      · simp only [List.length_cons]; omega
      · exact Nat.le_refl _

theorem length_dropComment_le (cs : List Char) : (dropComment cs).length ≤ cs.length := by
  match cs with
  | [] => simp [dropComment]
  | c :: cs =>
    have blank := length_dropBlank_le cs
    have comment := length_dropComment_le cs
    unfold dropComment
    split <;> simp only [List.length_cons] <;> omega

end

theorem length_skipBlank_le (extended : Bool) (cs : List Char) :
    (skipBlank extended cs).length ≤ cs.length := by
  unfold skipBlank
  split
  · exact length_dropBlank_le cs
  · exact Nat.le_refl _

/-- The text after the blanks, if there is any. -/
def skipBlank? (extended : Bool) (cs : List Char) : Option (List Char) :=
  match skipBlank extended cs with
  | [] => none
  | c :: rest => some (c :: rest)

/-- The digits at the front, with blanks between them in extended mode. -/
def readDigits (extended : Bool) (cs : List Char) : List Char × List Char :=
  match cs with
  | [] => ([], [])
  | c :: rest =>
    if c.isDigit then
      have : (skipBlank extended rest).length < (c :: rest).length :=
        Nat.lt_succ_of_le (length_skipBlank_le extended rest)
      let (digits, after) := readDigits extended (skipBlank extended rest)
      (c :: digits, after)
    else ([], c :: rest)
termination_by cs.length
decreasing_by assumption

/-- A count as it stands in a repetition: digits with white space around them, for a number of
at most 32 bits. -/
def readCount (extended : Bool) (cs : List Char) : Option (Nat × List Char) :=
  let (digits, rest) := readDigits extended (cs.dropWhile isBlank)
  if digits.isEmpty || Digit.decimal digits ≥ 0x100000000 then none
  else some (Digit.decimal digits, skipBlank extended (rest.dropWhile isBlank))

/-- The character with the given code, unless the number is no code point or a surrogate. -/
def charOfCode? (n : Nat) : Option Char :=
  if n.isValidChar then some (Char.ofNat n) else none

/-- Exactly `count` hexadecimal digits, and the number they write after `value`. -/
def readHexFixed (extended : Bool) : Nat → Nat → List Char → Option (Nat × List Char)
  | 0, value, cs => some (value, cs)
  | count + 1, value, cs =>
    match cs with
    | [] => none
    | c :: rest => do
      let digit ← Digit.hexValue? c
      readHexFixed extended count (value * 16 + digit) (skipBlank extended rest)

/-- Hexadecimal digits up to a closing brace; `seen` tells whether there was one already. -/
def readHexBraced (extended : Bool) (seen : Bool) (value : Nat) (cs : List Char) :
    Option (Nat × List Char) :=
  match h : skipBlank extended cs with
  | [] => none
  | c :: rest =>
    if c = '}' then if seen then some (value, skipBlank extended rest) else none
    else
      have : rest.length < cs.length := by
        have := length_skipBlank_le extended cs
        rw [h] at this
        exact this
      match Digit.hexValue? c with
      | none => none
      | some digit => readHexBraced extended true (value * 16 + digit) rest
termination_by cs.length

/-- The characters with a meaning of their own. -/
def isMeta (c : Char) : Bool :=
  ['\\', '.', '+', '*', '?', '(', ')', '|', '[', ']', '{', '}', '^', '$', '#', '&', '-',
    '~'].contains c

/-- Whether a backslash before the character makes it stand for itself. -/
def isEscapable (c : Char) : Bool :=
  isMeta c || (c.toNat < 0x80 && !c.isAlphanum && c ≠ '<' && c ≠ '>')

/-- The name of a property up to the closing brace, without blanks in extended mode. -/
def readPropertyName (extended : Bool) (cs : List Char) : Option (List Char × List Char) :=
  match h : skipBlank extended cs with
  | [] => none
  | c :: rest =>
    if c = '}' then some ([], rest)
    else
      have : rest.length < cs.length := by
        have := length_skipBlank_le extended cs
        rw [h] at this
        exact this
      match readPropertyName extended rest with
      | none => none
      | some (name, after) => some (c :: name, after)
termination_by cs.length

/-- The text before and after the first place where `mark` stands. -/
def splitAtText (mark : List Char) : List Char → Option (List Char × List Char)
  | [] => none
  | c :: cs =>
    if mark.isPrefixOf (c :: cs) then some ([], (c :: cs).drop mark.length)
    else (splitAtText mark cs).map fun (front, back) => (c :: front, back)

/-- What the text between the braces of `\p{…}` asks for. -/
def PropertyQuery.ofText (text : List Char) : PropertyQuery :=
  match (splitAtText ['!', '='] text <|> splitAtText [':'] text <|> splitAtText ['='] text) with
  | some (name, value) => .valued (String.ofList name) (String.ofList value)
  | none => .named (String.ofList text)

/-- What a `p` or `P` after a backslash asks for. -/
def readProperty (extended : Bool) (cs : List Char) : Option (PropertyQuery × List Char) :=
  match skipBlank extended cs with
  | [] => none
  | '{' :: rest => do
    let (text, after) ← readPropertyName extended rest
    some (.ofText text, after)
  | c :: rest => if c = '\\' then none else some (.named (String.singleton c), rest)

/-- The letters and hyphens at the front, with blanks between them in extended mode. -/
def readHyphenated (extended : Bool) (cs : List Char) : List Char × List Char :=
  match cs with
  | [] => ([], [])
  | c :: rest =>
    if c.isAlpha || c = '-' then
      have : (skipBlank extended rest).length < (c :: rest).length :=
        Nat.lt_succ_of_le (length_skipBlank_le extended rest)
      let (name, after) := readHyphenated extended (skipBlank extended rest)
      (c :: name, after)
    else ([], c :: rest)
termination_by cs.length
decreasing_by assumption

/-- The assertion after `\b`: braces may name a side of a word, and braces that hold a count
belong to a repetition that follows. -/
def readWordBoundary (extended : Bool) (cs : List Char) : Option (Assertion × List Char) :=
  match cs with
  | '{' :: rest =>
    match skipBlank extended rest with
    | [] => none
    | c :: tail =>
      if c.isAlpha || c = '-' then
        let (name, after) := readHyphenated extended (c :: tail)
        match after with
        | '}' :: rest =>
          match String.ofList name with
          | "start" => some (.wordStart, rest)
          | "end" => some (.wordEnd, rest)
          | "start-half" => some (.wordStartHalf, rest)
          | "end-half" => some (.wordEndHalf, rest)
          | _ => none
        | _ => none
      else some (.wordBoundary, cs)
  | _ => some (.wordBoundary, cs)

/-- What one backslash sequence can be. -/
inductive Escape
  | literal (l : Literal)
  | assertion (kind : Assertion)
  | short (kind : ShortClass) (negated : Bool)
  | property (query : PropertyQuery) (negated : Bool)

/-- A character given by its hexadecimal code: `digits` of them, or any number in braces. -/
def readHexEscape (extended : Bool) (digits : Nat) (cs : List Char) :
    Option (Escape × List Char) := do
  match skipBlank extended cs with
  | '{' :: rest =>
    let (value, after) ← readHexBraced extended false 0 rest
    let c ← charOfCode? value
    some (.literal ⟨c, false⟩, after)
  | start =>
    let (value, after) ← readHexFixed extended digits 0 start
    let c ← charOfCode? value
    some (.literal ⟨c, digits == 2⟩, after)

/-- What a backslash introduces, given the text after the backslash. -/
def readEscape (extended : Bool) (cs : List Char) : Option (Escape × List Char) :=
  let plain (c : Char) (rest : List Char) : Option (Escape × List Char) :=
    some (.literal ⟨c, false⟩, rest)
  match cs with
  | [] => none
  | 'x' :: rest => readHexEscape extended 2 rest
  | 'u' :: rest => readHexEscape extended 4 rest
  | 'U' :: rest => readHexEscape extended 8 rest
  | 'p' :: rest => (readProperty extended rest).map fun (query, after) =>
      (.property query false, after)
  | 'P' :: rest => (readProperty extended rest).map fun (query, after) =>
      (.property query true, after)
  | 'd' :: rest => some (.short .digit false, rest)
  | 'D' :: rest => some (.short .digit true, rest)
  | 's' :: rest => some (.short .space false, rest)
  | 'S' :: rest => some (.short .space true, rest)
  | 'w' :: rest => some (.short .word false, rest)
  | 'W' :: rest => some (.short .word true, rest)
  | 'a' :: rest => plain '\x07' rest
  | 'f' :: rest => plain '\x0c' rest
  | 't' :: rest => plain '\t' rest
  | 'n' :: rest => plain '\n' rest
  | 'r' :: rest => plain '\r' rest
  | 'v' :: rest => plain '\x0b' rest
  | 'A' :: rest => some (.assertion .startText, rest)
  | 'z' :: rest => some (.assertion .endText, rest)
  | 'b' :: rest => (readWordBoundary extended rest).map fun (kind, after) =>
      (.assertion kind, after)
  | 'B' :: rest => some (.assertion .notWordBoundary, rest)
  | '<' :: rest => some (.assertion .wordStart, rest)
  | '>' :: rest => some (.assertion .wordEnd, rest)
  | c :: rest => if isEscapable c then plain c rest else none

end Waymark.Regex
