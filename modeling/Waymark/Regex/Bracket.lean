/-
Reading bracketed classes.

A class may hold further classes and operations between them, so its reader keeps a
list of frames: the classes that are still open, and the left sides of operations
whose right side is being read.  `readBracket` reads a class whose opening bracket
has been read already.
-/
import Waymark.Regex.Escape

namespace Waymark.Regex

/-- What is unfinished around the members being read. -/
inductive ClassFrame
  /-- An open class inside another one, with the members of the outer one, last first. -/
  | outer (items : List ClassItem) (negated : Bool)
  /-- The left side of an operation. -/
  | left (kind : ClassOperation) (body : ClassBody)

/-- The ASCII class with the given name. -/
def AsciiClass.ofName? (name : String) : Option AsciiClass :=
  match name with
  | "alnum" => some .alnum
  | "alpha" => some .alpha
  | "ascii" => some .ascii
  | "blank" => some .blank
  | "cntrl" => some .cntrl
  | "digit" => some .digit
  | "graph" => some .graph
  | "lower" => some .lower
  | "print" => some .print
  | "punct" => some .punct
  | "space" => some .space
  | "upper" => some .upper
  | "word" => some .word
  | "xdigit" => some .xdigit
  | _ => none

/-- Reads `:name:]` or `:^name:]`, the rest of a named ASCII class. -/
def readAsciiClass? (cs : List Char) : Option (ClassItem × List Char) :=
  match cs with
  | ':' :: rest =>
    let (negated, rest) := match rest with
      | '^' :: tail => (true, tail)
      | _ => (false, rest)
    match AsciiClass.ofName? (String.ofList (rest.takeWhile (· ≠ ':'))),
        rest.dropWhile (· ≠ ':') with
    | some kind, ':' :: ']' :: after => some (.ascii kind negated, after)
    | _, _ => none
  | _ => none

/-- A hyphen as a member. -/
def hyphen : ClassItem := .literal ⟨'-', false⟩

/-- The hyphens that open a class stand for themselves, whatever follows them. -/
def readLeadingHyphens (extended : Bool) (items : List ClassItem) (cs : List Char) :
    Option (List ClassItem × List Char) :=
  match h : cs with
  | '-' :: rest =>
    if (skipBlank extended rest).isEmpty then none
    else
      have : (skipBlank extended rest).length < cs.length := by
        rw [h]; exact Nat.lt_succ_of_le (length_skipBlank_le extended rest)
      readLeadingHyphens extended (hyphen :: items) (skipBlank extended rest)
  | _ => some (items, cs)
termination_by cs.length
decreasing_by rw [← h]; assumption

/-- Reads what may follow an opening bracket: a circumflex, then hyphens that stand for
themselves, or else a closing bracket that stands for itself. -/
def readClassStart (extended : Bool) (cs : List Char) :
    Option (Bool × List ClassItem × List Char) := do
  let cs ← skipBlank? extended cs
  let (negated, cs) ← match cs with
    | '^' :: rest => (skipBlank? extended rest).map fun rest => (true, rest)
    | _ => some (false, cs)
  let (items, cs) ← readLeadingHyphens extended [] cs
  match items, cs with
  | [], ']' :: rest =>
    let rest ← skipBlank? extended rest
    some (negated, [.literal ⟨']', false⟩], rest)
  | _, _ => some (negated, items, cs)

/-- The character after a hyphen that decides whether the hyphen makes a range.  In extended
mode white space is passed over, and one number sign. -/
def peekPastHyphen (extended : Bool) (cs : List Char) : Option Char :=
  if extended then
    match cs.dropWhile isBlank with
    | '#' :: rest => (rest.dropWhile isBlank).head? <|> cs.head?
    | [] => cs.head?
    | c :: _ => some c
  else cs.head?

/-- One end of a range, or a member by itself. -/
def readClassAtom (extended : Bool) (cs : List Char) : Option (Escape × List Char) :=
  match cs with
  | [] => none
  | '\\' :: rest => readEscape extended rest
  | c :: rest => some (.literal ⟨c, false⟩, rest)

/-- The member that an escape is inside a class; assertions are none. -/
def Escape.classItem? : Escape → Option ClassItem
  | .literal l => some (.literal l)
  | .short kind negated => some (.short kind negated)
  | .property query negated => some (.property query negated)
  | .assertion _ => none

/-- The character that an escape stands for, if it is one. -/
def Escape.literal? : Escape → Option Literal
  | .literal l => some l
  | _ => none

/-- Reads a member that is neither a class in brackets nor an operation: a character, a range,
or a class after a backslash. -/
def readClassMember (extended : Bool) (cs : List Char) : Option (ClassItem × List Char) := do
  let (first, rest) ← readClassAtom extended cs
  match ← skipBlank? extended rest with
  | '-' :: after =>
    let next := peekPastHyphen extended after
    if next = some ']' || next = some '-' then
      some (← first.classItem?, '-' :: after)
    else
      let (second, rest) ← readClassAtom extended (skipBlank extended after)
      let low ← first.literal?
      let high ← second.literal?
      if low.char ≤ high.char then some (.range low high, rest) else none
  | rest => some (← first.classItem?, rest)

/-- Closes the operation whose left side was read last, if there is one. -/
def closeOperation (frames : List ClassFrame) (body : ClassBody) : ClassBody × List ClassFrame :=
  match frames with
  | .left kind before :: rest => (.operation kind before body, rest)
  | _ => (body, frames)

/-- Reads the members of a class up to its closing bracket.  `items` are the members read so
far, last first. -/
def readClassMembers (extended : Bool) (frames : List ClassFrame) (negated : Bool)
    (items : List ClassItem) (cs : List Char) : Option (Bool × ClassBody × List Char) :=
  let continueWith (frames : List ClassFrame) (negated : Bool) (items : List ClassItem)
      (rest : List Char) : Option (Bool × ClassBody × List Char) :=
    if _h : rest.length < cs.length then readClassMembers extended frames negated items rest
    else none
  let operation (kind : ClassOperation) (rest : List Char) :=
    let (body, frames) := closeOperation frames (.union items.reverse)
    continueWith (.left kind body :: frames) negated [] rest
  match skipBlank extended cs with
  | [] => none
  | '[' :: rest =>
    match readAsciiClass? rest with
    | some (item, after) => continueWith frames negated (item :: items) after
    | none =>
      match readClassStart extended rest with
      | none => none
      | some (inner, first, after) =>
        continueWith (.outer items negated :: frames) inner first after
  | ']' :: rest =>
    let (body, frames) := closeOperation frames (.union items.reverse)
    match frames with
    | .outer items outerNegated :: frames =>
      continueWith frames outerNegated (.bracketed negated body :: items) rest
    | _ => some (negated, body, rest)
  | '&' :: '&' :: rest => operation .intersection rest
  | '-' :: '-' :: rest => operation .difference rest
  | '~' :: '~' :: rest => operation .symmetricDifference rest
  | start =>
    match readClassMember extended start with
    | none => none
    | some (item, after) => continueWith frames negated (item :: items) after
termination_by cs.length

/-- Reads a bracketed class, its opening bracket read already. -/
def readBracket (extended : Bool) (cs : List Char) : Option (Bool × ClassBody × List Char) := do
  let (negated, items, rest) ← readClassStart extended cs
  readClassMembers extended [] negated items rest

end Waymark.Regex
