/-
The registry of matchers.

Every path of a registered route is an entry with a number of its own, which is never
given out again.  The registry holds the entries, the order in which they are tried,
the most specific first, and an index of names.  Entries are linked to parents,
children and aliases by number; a number in a list of children may belong to an entry
that is gone, and is passed over then.

`Registry.commit` enters a plan, `Registry.removeAll` takes entries out together with
their children and aliases, and `Registry.find?` looks for the first entry that
recognizes a path.
-/
import Waymark.Plan
import Waymark.Record

namespace Waymark

/-- A record with its matcher and its links. -/
structure Entry where
  record : Record
  matcher : Matcher
  parent : Option Nat
  /-- The entries nested under this one; some may be gone. -/
  children : List Nat
  /-- The aliases of this one; some may be gone. -/
  aliases : List Nat
  aliasOf : Option Nat

namespace Entry

/-- The number of the entry. -/
def id (e : Entry) : Nat := e.record.id.number

/-- Whether the entry stands for another one. -/
def isAlias (e : Entry) : Bool := e.aliasOf.isSome

/-- The entries that go when this one goes. -/
def dependents (e : Entry) : List Nat := e.children ++ e.aliases

end Entry

/-- The entries of a router. -/
structure Registry where
  /-- Tells the records of copies of a router apart. -/
  lineage : Nat
  entries : Dict Nat Entry
  /-- The numbers of the entries in the order in which they are tried. -/
  ordered : List Nat
  /-- The numbers of the entries that are no aliases, by name. -/
  byName : Dict String Nat
  /-- The number of the next entry. -/
  nextId : Nat

namespace Registry

/-- A registry without entries. -/
def empty (lineage : Nat) : Registry := ⟨lineage, [], [], [], 0⟩

/-- The entry with a number. -/
def get? (r : Registry) (id : Nat) : Option Entry := r.entries.get? id

/-- The entry with a name. -/
def named? (r : Registry) (name : String) : Option Entry := (r.byName.get? name).bind r.get?

/-- The entries in the order in which they are tried. -/
def inOrder (r : Registry) : List Entry := r.ordered.filterMap r.get?

/-- How many entries there are. -/
def size (r : Registry) : Nat := r.ordered.length

/-- The entry and its ancestors, the root last.  A parent is older than its children. -/
def ancestors (r : Registry) (id : Nat) : List Entry :=
  match r.get? id with
  | none => []
  | some e =>
    match e.parent with
    | none => [e]
    | some parent => if _h : parent < id then e :: r.ancestors parent else [e]
termination_by id

/-- The first entry that recognizes a path, with the params of the path. -/
def find? (r : Registry) (path : String) : Option (Entry × Params) :=
  r.inOrder.findSome? fun e => (e.matcher.recognize path).map fun params => (e, params)

/-- The list with a number put before the first one that `goesAfter` accepts. -/
def insertBefore (goesAfter : Nat → Bool) (id : Nat) : List Nat → List Nat
  | [] => [id]
  | other :: rest =>
    if goesAfter other then id :: other :: rest else other :: insertBefore goesAfter id rest

/-- Whether the entry with a number is not more specific than a score. -/
def isAtMost (r : Registry) (score : Score) (id : Nat) : Bool :=
  (r.get? id).any fun e => e.matcher.score.atMost score

/-- Enters an entry: before the first one that is not more specific, and under its name unless
it is an alias. -/
def insert (r : Registry) (id : Nat) (e : Entry) : Registry :=
  { r with
    entries := r.entries.insert id e
    ordered := insertBefore (r.isAtMost e.matcher.score) id r.ordered
    byName :=
      match e.record.name with
      | some name => if e.isAlias then r.byName else r.byName.insert name id
      | none => r.byName }

/-- Appends a number to the children of an entry.  The alias of a nested route belongs to the
children of an alias of the parent, not to those of the parent itself. -/
def addChild (r : Registry) (parent original : Option Nat) (id : Nat) : Registry :=
  match parent with
  | none => r
  | some parent =>
    { r with
      entries := r.entries.modify parent fun e =>
        if original.isNone || e.isAlias then { e with children := e.children ++ [id] } else e }

/-- Appends a number to the aliases of an entry. -/
def addAlias (r : Registry) (original : Option Nat) (id : Nat) : Registry :=
  match original with
  | none => r
  | some original =>
    { r with
      entries := r.entries.modify original fun e => { e with aliases := e.aliases ++ [id] } }

/-- The identity of the record of an entry. -/
def recordId? (r : Registry) (id : Option Nat) : Option RecordId :=
  (id.bind r.get?).map (·.record.id)

/-- Enters one path of a definition under the next number and links it. -/
def register (r : Registry) (d : Definition) (m : Matcher) (parent original : Option Nat) :
    Registry :=
  let id := r.nextId
  let record :=
    Record.ofDefinition d m.pattern ⟨r.lineage, id⟩ (r.recordId? parent) (r.recordId? original)
  let entered :=
    { r with nextId := id + 1 }.insert id
      { record, matcher := m, parent, children := [], aliases := [], aliasOf := original }
  (entered.addChild parent original id).addAlias original id

/-- The child of an entry at a place in its list of children. -/
def childAt? (r : Registry) (id : Option Nat) (index : Nat) : Option Nat :=
  (id.bind r.get?).bind fun e => e.children[index]?

mutual

/-- Enters a plan under a parent; `original` is the entry that it is an alias of.  First comes
the path itself, then what is nested under it, then its aliases. -/
def commit (r : Registry) (parent original : Option Nat) : Plan → Registry
  | .node d m children aliases =>
    let id := r.nextId
    let nested := commitChildren (r.register d m parent original) id original 0 children
    commitAliases nested parent (original.getD id) aliases

/-- Enters the plans nested under a new entry.  What is nested under an alias is an alias of what
is nested, at the same place, under the original. -/
def commitChildren (r : Registry) (parent : Nat) (original : Option Nat) (index : Nat) :
    List Plan → Registry
  | [] => r
  | plan :: rest =>
    let next := commit r (some parent) (r.childAt? original index) plan
    commitChildren next parent original (index + 1) rest

/-- Enters the plans of aliases. -/
def commitAliases (r : Registry) (parent : Option Nat) (original : Nat) : List Plan → Registry
  | [] => r
  | plan :: rest => commitAliases (commit r parent (some original) plan) parent original rest

end

/-- Takes one entry out, but nothing that hangs on it. -/
def drop (r : Registry) (id : Nat) (e : Entry) : Registry :=
  { r with
    entries := r.entries.erase id
    ordered := r.ordered.filter (· ≠ id)
    byName :=
      match e.record.name with
      | some name => if r.byName.get? name = some id then r.byName.erase name else r.byName
      | none => r.byName }

/-- Takes entries out with everything that hangs on them.  Numbers that belong to no entry are
passed over. -/
def removeAll (r : Registry) (pending : List Nat) : Registry :=
  match pending with
  | [] => r
  | id :: rest =>
    match h : r.get? id with
    | none => r.removeAll rest
    | some e =>
      have : (r.entries.erase id).length < r.entries.length := Dict.length_erase_lt h
      (r.drop id e).removeAll (e.dependents ++ rest)
termination_by (r.entries.length, pending.length)

/-- Takes an entry out with everything that hangs on it. -/
def remove (r : Registry) (id : Nat) : Registry := r.removeAll [id]

/-- Takes every entry out. -/
def clear (r : Registry) : Registry := { r with entries := [], ordered := [], byName := [] }

/-- Whether the search for an entry among those that hang on others finds it.  The search keeps
no account of what it has seen; `none` if it has not ended after the given number of steps. -/
def reachedIn (r : Registry) (target : Nat) : Nat → List Nat → Option Bool
  | _, [] => some false
  | 0, _ :: _ => none
  | steps + 1, id :: pending =>
    if id = target then some true
    else
      let further := ((r.get? id).map Entry.dependents).getD []
      r.reachedIn target steps (further.reverse ++ pending)

/-- Whether taking out one entry takes out another one too.  Links lead from older to newer
entries, each once, so a search of `2 ^ n` steps for `n` numbers is always long enough. -/
def removalReaches (r : Registry) (root target : Nat) : Bool :=
  (r.reachedIn target (Nat.pow 2 r.nextId) [root]).getD false

end Registry

end Waymark
