/-
Reading TOML.

`Toml.read?` accepts a TOML 1.0 document and gives its root table as a payload.
Arrays, inline tables and keys nest less than eighty deep.
-/
import Waymark.Payload.Toml.Scalar
import Waymark.Payload.Toml.Table

namespace Waymark.Toml

/-- The depth that no nesting reaches. -/
def depthLimit : Nat := 80

/-- Whether a key without quotes may hold the character. -/
def isKeyChar (c : Char) : Bool := c.isAlphanum || c = '_' || c = '-'

/-- Reads one part of a key. -/
def readKeyPart (cs : List Char) : Option (String × List Char) :=
  match cs with
  | '"' :: rest => (readBasic rest).map fun (text, after) => (String.ofList text, after)
  | '\'' :: rest => (readLiteral rest).map fun (text, after) => (String.ofList text, after)
  | _ =>
    match cs.takeWhile isKeyChar with
    | [] => none
    | text => some (String.ofList text, cs.dropWhile isKeyChar)

/-- Reads a key of at most `parts` parts with dots between them, blanks around each. -/
def readKeyParts : Nat → List Char → Option (List String × List Char)
  | 0, _ => none
  | parts + 1, cs =>
    match readKeyPart (skipSpace cs) with
    | none => none
    | some (part, rest) =>
      match skipSpace rest with
      | '.' :: rest => (readKeyParts parts rest).map fun (more, after) => (part :: more, after)
      | rest => some ([part], rest)

/-- Reads a key: the path and the last part. -/
def readKey (cs : List Char) : Option (List String × String × List Char) := do
  let (parts, rest) ← readKeyParts (depthLimit - 1) cs
  some (parts.dropLast, ← parts.getLast?, rest)

/-- Drops blanks, comments and line ends, for as many lines as `lines` at most. -/
def skipLines : Nat → List Char → List Char
  | 0, cs => cs
  | lines + 1, cs =>
    match newline? (skipComment (skipSpace cs)) with
    | some rest => skipLines lines rest
    | none => skipSpace cs

/-- Drops blanks, comments and line ends. -/
def skipBlank (cs : List Char) : List Char := skipLines cs.length cs

mutual

/-- Reads a value, inside of `depth` arrays and inline tables.  A reading and the readings inside
of it are at most `fuel`. -/
def readValue (fuel depth : Nat) (cs : List Char) : Option (Payload × List Char) :=
  match fuel with
  | 0 => none
  | fuel + 1 =>
    match cs with
    | '[' :: rest =>
      if depthLimit ≤ depth + 1 then none
      else (readItems fuel (depth + 1) (skipBlank rest)).map fun (items, after) =>
        (.list items, after)
    | '{' :: rest =>
      if depthLimit ≤ depth + 1 then none
      else match skipSpace rest with
        | '}' :: after => some (.object [], after)
        | rest => (readFields fuel (depth + 1) [] rest).map fun (fields, after) =>
          (.object (Node.payloadFields fields), after)
    | c :: _ =>
      if c = '"' || c = '\'' then
        (readString cs).map fun (text, after) => (.text (String.ofList text), after)
      else readWord cs
    | [] => none

/-- Reads the items of an array and the bracket after them.  A comma may come last. -/
def readItems (fuel depth : Nat) (cs : List Char) : Option (List Payload × List Char) :=
  match fuel with
  | 0 => none
  | fuel + 1 =>
    match cs with
    | ']' :: after => some ([], after)
    | _ =>
      match readValue fuel depth cs with
      | none => none
      | some (item, rest) =>
        match skipBlank rest with
        | ',' :: rest => (readItems fuel depth (skipBlank rest)).map fun (items, after) =>
            (item :: items, after)
        | ']' :: after => some ([item], after)
        | _ => none

/-- Reads the fields of an inline table and the brace after them, on one line. -/
def readFields (fuel depth : Nat) (fields : Fields) (cs : List Char) :
    Option (Fields × List Char) :=
  match fuel with
  | 0 => none
  | fuel + 1 =>
    match readKey cs with
    | some (path, key, '=' :: rest) =>
      match readValue fuel depth (skipSpace rest) with
      | none => none
      | some (value, rest) =>
        match setValue fields path key value with
        | none => none
        | some fields =>
          match skipSpace rest with
          | ',' :: rest => readFields fuel depth fields rest
          | '}' :: after => some (fields, after)
          | _ => none
    | _ => none

end

/-- The text after the end of a line that holds no more than blanks and a comment. -/
def endLine? (cs : List Char) : Option (List Char) :=
  match skipComment (skipSpace cs) with
  | [] => some []
  | rest => newline? rest

/-- Reads a line, given the text from its first character on that is not blank. -/
def readLine (d : Document) (cs : List Char) : Option (Document × List Char) := do
  match cs with
  | '#' :: _ => some (d, ← endLine? cs)
  | '\n' :: _ => some (d, ← endLine? cs)
  | '\r' :: _ => some (d, ← endLine? cs)
  | '[' :: '[' :: rest =>
    match ← readKey rest with
    | (path, key, ']' :: ']' :: rest) => some (← d.openItem path key, ← endLine? rest)
    | _ => none
  | '[' :: rest =>
    match ← readKey rest with
    | (path, key, ']' :: rest) => some (← d.openTable path key, ← endLine? rest)
    | _ => none
  | _ =>
    match ← readKey cs with
    | (path, key, '=' :: rest) =>
      let (value, rest) ← readValue (2 * rest.length + 2) 0 (skipSpace rest)
      some (← d.set path key value, ← endLine? rest)
    | _ => none

/-- Reads lines, of which there are at most `lines`. -/
def readDocument : Nat → Document → List Char → Option Fields
  | 0, _, _ => none
  | lines + 1, d, cs =>
    match skipSpace cs with
    | [] => d.settle
    | start =>
      match readLine d start with
      | none => none
      | some (d, rest) => readDocument lines d rest

/-- The root table of a TOML document.  A byte order mark may come first. -/
def read? (source : String) : Option Payload := do
  let cs := match source.toList with
    | '\uFEFF' :: rest => rest
    | cs => cs
  let fields ← readDocument (cs.length + 1) ⟨[], none⟩ cs
  some (.object (Node.payloadFields fields))

end Waymark.Toml
