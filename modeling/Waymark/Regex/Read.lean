/-
Reading a regular expression.

The reader goes through the text construct by construct.  Its state holds the parts
of the sequence being read and, as a stack of frames, what is unfinished around it:
open groups and the finished branches of alternations.  `Tree.ofSource?` gives the
tree of a text, or `none` if the text is no regular expression or nests too deeply.
-/
import Waymark.Regex.Bracket

namespace Waymark.Regex

/-- What is unfinished around the sequence being read. -/
inductive Frame
  /-- An open group: the parts before it, last first, and whether the text around it is in
  extended mode. -/
  | group (before : List Tree) (index : Option Nat) (changes : FlagChanges) (extended : Bool)
  /-- The finished branches of an alternation, last first. -/
  | branches (trees : List Tree)

/-- The state between two constructs. -/
structure Reading where
  /-- White space and comments are skipped. -/
  extended : Bool := false
  frames : List Frame := []
  /-- The parts of the sequence being read, last first. -/
  parts : List Tree := []
  /-- The number of capturing groups opened so far. -/
  groups : Nat := 0
  /-- The names of capturing groups. -/
  names : List String := []

namespace Reading

/-- One more part of the sequence. -/
def push (r : Reading) (tree : Tree) : Reading := { r with parts := tree :: r.parts }

/-- The sequence being read, as a tree. -/
def sequence (r : Reading) : Tree := Tree.inSequence r.parts.reverse

/-- The end of a branch. -/
def alternate (r : Reading) : Reading :=
  match r.frames with
  | .branches trees :: frames =>
    { r with frames := .branches (r.sequence :: trees) :: frames, parts := [] }
  | frames => { r with frames := .branches [r.sequence] :: frames, parts := [] }

/-- What has been read since the innermost group was opened, and the frames around it. -/
def body (r : Reading) : Tree × List Frame :=
  match r.frames with
  | .branches trees :: frames => (.alternation (r.sequence :: trees).reverse, frames)
  | frames => (r.sequence, frames)

/-- The end of a group. -/
def closeGroup? (r : Reading) : Option Reading :=
  match r.body with
  | (tree, .group before index changes extended :: frames) =>
    some { r with
      extended := extended
      frames := frames
      parts := .group index changes tree :: before }
  | _ => none

/-- The whole tree, once the text is at its end. -/
def finish? (r : Reading) : Option Tree :=
  match r.body with
  | (tree, []) => some tree
  | _ => none

/-- The start of a group. -/
def openGroup (r : Reading) (index : Option Nat) (changes : FlagChanges) : Reading :=
  { r with
    extended := (changes.lookup .ignoreWhitespace).getD r.extended
    frames := .group r.parts index changes r.extended :: r.frames
    parts := [] }

/-- The start of the next capturing group. -/
def openCapture (r : Reading) : Reading :=
  { r.openGroup (some (r.groups + 1)) [] with groups := r.groups + 1 }

/-- A repetition of the last part, unless there is nothing to repeat. -/
def repeatLast? (r : Reading) (least : Nat) (most : Option Nat) (greedy : Bool) :
    Option Reading :=
  match r.parts with
  | [] => none
  | .empty :: _ => none
  | .flags _ :: _ => none
  | last :: parts => some { r with parts := .repetition least most greedy last :: parts }

end Reading

/-- The flag that a letter stands for. -/
def Flag.ofLetter? (c : Char) : Option Flag :=
  match c with
  | 'i' => some .caseInsensitive
  | 'm' => some .multiLine
  | 's' => some .dotMatchesNewline
  | 'U' => some .swapGreed
  | 'u' => some .unicode
  | 'R' => some .crlf
  | 'x' => some .ignoreWhitespace
  | _ => none

/-- Reads flags up to the colon or parenthesis that ends them, which is given back too.  `on`
tells whether no minus sign was read yet, `dangling` whether one was read just now. -/
def readFlags (on dangling : Bool) (changes : FlagChanges) (cs : List Char) :
    Option (FlagChanges × Char × List Char) :=
  match cs with
  | [] => none
  | c :: rest =>
    if c = ':' || c = ')' then if dangling then none else some (changes.reverse, c, rest)
    else if c = '-' then if on then readFlags false true changes rest else none
    else match Flag.ofLetter? c with
      | none => none
      | some flag =>
        if changes.any (·.1 = flag) then none
        else readFlags on false ((flag, on) :: changes) rest

/-- Whether a name of a group may hold the character. -/
def isNameChar (first : Bool) (c : Char) : Bool :=
  c = '_' ||
    if first then Unicode.alphabetic.has c
    else c = '.' || c = '[' || c = ']' || Unicode.alphanumeric.has c

/-- Reads the name of a group up to the closing angle bracket. -/
def readGroupName (cs : List Char) : Option (List Char × List Char) :=
  match cs.takeWhile (· ≠ '>'), cs.dropWhile (· ≠ '>') with
  | first :: name, '>' :: rest =>
    if isNameChar true first && name.all (isNameChar false) then some (first :: name, rest)
    else none
  | _, _ => none

/-- The start of a capturing group with a name, which no earlier group may have. -/
def Reading.openNamed? (r : Reading) (cs : List Char) : Option (Reading × List Char) := do
  let (name, rest) ← readGroupName cs
  if r.names.contains (String.ofList name) then none
  else some ({ r.openCapture with names := String.ofList name :: r.names }, rest)

/-- What an opening parenthesis starts: a group, or a change of flags.  Looking around is not
supported. -/
def readGroupStart (r : Reading) (cs : List Char) : Option (Reading × List Char) :=
  match skipBlank r.extended cs with
  | '?' :: '=' :: _ => none
  | '?' :: '!' :: _ => none
  | '?' :: '<' :: '=' :: _ => none
  | '?' :: '<' :: '!' :: _ => none
  | '?' :: 'P' :: '<' :: rest => r.openNamed? rest
  | '?' :: '<' :: rest => r.openNamed? rest
  | '?' :: rest => do
    let (changes, last, after) ← readFlags true false [] rest
    if last = ':' then some (r.openGroup none changes, after)
    else if changes.isEmpty then none
    else
      let extended := (changes.lookup .ignoreWhitespace).getD r.extended
      some ({ r with extended }.push (.flags changes), after)
  | rest => some (r.openCapture, rest)

/-- A question mark right after a repetition makes it lazy. -/
def readGreed (cs : List Char) : Bool × List Char :=
  match cs with
  | '?' :: rest => (false, rest)
  | _ => (true, cs)

/-- Reads the bounds of a counted repetition, after the opening brace. -/
def readBounds (extended : Bool) (cs : List Char) :
    Option (Nat × Option Nat × List Char) := do
  let (least, rest) ← readCount extended (← skipBlank? extended cs)
  let (most, rest) ← match rest with
    | ',' :: rest => do
      match ← skipBlank? extended rest with
      | '}' :: rest => some (none, '}' :: rest)
      | start =>
        let (most, rest) ← readCount extended start
        some (some most, rest)
    | _ => some (some least, rest)
  match rest with
  | '}' :: rest =>
    if most.all (least ≤ ·) then some (least, most, skipBlank extended rest) else none
  | _ => none

/-- The part that an escape is outside a class. -/
def Escape.tree : Escape → Tree
  | .literal l => .literal l
  | .assertion kind => .assertion kind
  | .short kind negated => .short kind negated
  | .property query negated => .property query negated

/-- Reads the construct that begins with `c`. -/
def readConstruct (r : Reading) (c : Char) (rest : List Char) : Option (Reading × List Char) :=
  let repeated (least : Nat) (most : Option Nat) : Option (Reading × List Char) :=
    let (greedy, after) := readGreed rest
    (r.repeatLast? least most greedy).map fun r => (r, after)
  match c with
  | '(' => readGroupStart r rest
  | ')' => r.closeGroup?.map fun r => (r, rest)
  | '|' => some (r.alternate, rest)
  | '[' => (readBracket r.extended rest).map fun (negated, body, after) =>
      (r.push (.bracketed negated body), after)
  | '?' => repeated 0 (some 1)
  | '*' => repeated 0 none
  | '+' => repeated 1 none
  | '{' => do
    let (least, most, after) ← readBounds r.extended rest
    let (greedy, after) := readGreed after
    (r.repeatLast? least most greedy).map fun r => (r, after)
  | '\\' => (readEscape r.extended rest).map fun (escape, after) => (r.push escape.tree, after)
  | '.' => some (r.push .dot, rest)
  | '^' => some (r.push (.assertion .startLine), rest)
  | '$' => some (r.push (.assertion .endLine), rest)
  | c => some (r.push (.literal ⟨c, false⟩), rest)

/-- Reads the rest of the text. -/
def readAll (r : Reading) (cs : List Char) : Option Tree :=
  match skipBlank r.extended cs with
  | [] => r.finish?
  | c :: rest =>
    match readConstruct r c rest with
    | none => none
    | some (r, after) =>
      if _h : after.length < cs.length then readAll r after else none
termination_by cs.length

/-- The tree of a regular expression. -/
def Tree.ofSource? (source : List Char) : Option Tree := do
  let tree ← readAll {} source
  if tree.depth ≤ maxDepth then some tree else none

end Waymark.Regex
