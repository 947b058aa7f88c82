/-
The tables of a TOML document.

A table comes about in one of several ways, which decide what may still be added to
it: a header makes it definite, a longer header only implies it, and a dotted key
makes it dotted.  A name is defined once; the functions here fail where a line would
define it again.
-/
import Waymark.Payload.Basic

namespace Waymark.Toml

/-- How a table came about. -/
inductive Origin
  /-- By a header of its own. -/
  | definite
  /-- By the header of a table inside of it. -/
  | implied
  /-- By a dotted key. -/
  | dotted
  deriving Repr, DecidableEq

/-- What a key stands for. -/
inductive Node
  | value (payload : Payload)
  | table (origin : Origin) (fields : List (String × Node))
  /-- An array of tables, the last one first. -/
  | tables (items : List (List (String × Node)))

/-- The fields of a table. -/
abbrev Fields := List (String × Node)

mutual

/-- The payload of a node. -/
def Node.payload : Node → Payload
  | .value payload => payload
  | .table _ fields => .object (Node.payloadFields fields)
  | .tables items => .list (Node.payloadTables items).reverse

/-- The payloads of fields. -/
def Node.payloadFields : Fields → List (String × Payload)
  | [] => []
  | (key, node) :: rest => (key, node.payload) :: Node.payloadFields rest

/-- The payloads of tables. -/
def Node.payloadTables : List Fields → List Payload
  | [] => []
  | fields :: rest => .object (Node.payloadFields fields) :: Node.payloadTables rest

end

/-- Changes the table that a path of keys leads to, beginning with a table of the given origin.
Tables on the way that do not exist are made, and of an array of tables the last one is taken.
A dotted path may only lead through tables that no header has made. -/
def descend (dotted : Bool) (change : Origin → Fields → Option Fields) (origin : Origin)
    (fields : Fields) : List String → Option Fields
  | [] => change origin fields
  | key :: path =>
    match Dict.get? fields key with
    | none => do
      let made := if dotted then Origin.dotted else Origin.implied
      let inner ← descend dotted change made [] path
      some (Dict.insert fields key (.table made inner))
    | some (.value _) => none
    | some (.table inside inner) =>
      if dotted && inside = .definite then none
      else do
        let inner ← descend dotted change inside inner path
        some (Dict.insert fields key (.table inside inner))
    | some (.tables (last :: before)) => do
      let last ← descend dotted change .definite last path
      some (Dict.insert fields key (.tables (last :: before)))
    | some (.tables []) => none

/-- Sets a key at the end of a dotted path, which must not be set already. -/
def setValue (fields : Fields) (path : List String) (key : String) (value : Payload) :
    Option Fields :=
  let add (origin : Origin) (fields : Fields) : Option Fields :=
    if (origin == .dotted) == path.isEmpty || Dict.has fields key then none
    else some (fields ++ [(key, .value value)])
  descend true add .definite fields path

/-- The table that a header is about, taken out of the document. -/
structure Section where
  path : List String
  key : String
  isItem : Bool
  fields : Fields

/-- A document being read: the tables that are done, and the one that lines are added to. -/
structure Document where
  root : Fields
  /-- The table of the last header, if there was one. -/
  current : Option Section

namespace Document

/-- Puts the table of the last header in its place. -/
def settle (d : Document) : Option Fields :=
  match d.current with
  | none => some d.root
  | some part =>
    let place (_ : Origin) (fields : Fields) : Option Fields :=
      if part.isItem then
        match Dict.get? fields part.key with
        | none => some (fields ++ [(part.key, .tables [part.fields])])
        | some (.tables items) =>
          some (Dict.insert fields part.key (.tables (part.fields :: items)))
        | some _ => none
      else some (Dict.insert fields part.key (.table .definite part.fields))
    descend false place .definite d.root part.path

/-- Adds a line with a key and a value. -/
def set (d : Document) (path : List String) (key : String) (value : Payload) :
    Option Document :=
  match d.current with
  | none => (setValue d.root path key value).map fun root => { d with root }
  | some part =>
    (setValue part.fields path key value).map fun fields =>
      { d with current := some { part with fields } }

/-- The node that a path leads to, in a document without a current table. -/
def find? (fields : Fields) (key : String) : List String → Option Node
  | [] => Dict.get? fields key
  | next :: path =>
    match Dict.get? fields next with
    | some (.table _ inner) => find? inner key path
    | some (.tables (last :: _)) => find? last key path
    | _ => none

/-- Begins a table with a header of its own.  A table that is only implied keeps its fields. -/
def openTable (d : Document) (path : List String) (key : String) : Option Document := do
  let root ← d.settle
  match find? root key path with
  | none =>
    let root ← descend false (fun _ fields => some fields) .definite root path
    some ⟨root, some ⟨path, key, false, []⟩⟩
  | some (.table .implied fields) => some ⟨root, some ⟨path, key, false, fields⟩⟩
  | some _ => none

/-- Begins another table of an array of tables. -/
def openItem (d : Document) (path : List String) (key : String) : Option Document := do
  let root ← d.settle
  match find? root key path with
  | none =>
    let root ← descend false (fun _ fields => some fields) .definite root path
    some ⟨root, some ⟨path, key, true, []⟩⟩
  | some (.tables _) => some ⟨root, some ⟨path, key, true, []⟩⟩
  | some _ => none

end Document

end Waymark.Toml
