/-
Records.

A record is what a router keeps of a definition: an absolute pattern, components and
props by slot, and links to the parent's record and, for an alias, to the record that
it stands for.  A link holds no more than the other record's identity, so what it
leads to depends on the records that are still held somewhere.
-/
import Waymark.Definition

namespace Waymark

/-- The identity of a record: the router that it was added to, and its number there.  Copies of
a router share the records of the router that was copied, and number later ones apart. -/
structure RecordId where
  lineage : Nat
  number : Nat
  deriving Repr, DecidableEq

/-- A registered route. -/
structure Record where
  id : RecordId
  /-- The pattern in its normal form. -/
  path : String
  /-- An alias bears the name of the route that it stands for. -/
  name : Option String
  components : Dict String Payload
  metadata : Dict String Payload
  guards : List Payload
  /-- Props by component slot. -/
  props : Dict String Payload
  redirect : Option Redirect
  parent : Option RecordId
  aliasOf : Option RecordId

/-- The slot of a component given without one. -/
def defaultSlot : String := "default"

namespace Definition

/-- The components by slot. -/
def slots (d : Definition) : Dict String Payload :=
  match d.component with
  | some component => d.components.insert defaultSlot component
  | none => d.components

/-- The props by slot.  Props of a definition with slots belong to the slots that they name, or
to every slot if they name none. -/
def slotProps (d : Definition) : Dict String Payload :=
  match d.props with
  | none => []
  | some props =>
    if d.component.isSome || d.components.isEmpty then [(defaultSlot, props)]
    else
      d.components.filterMap fun (slot, _) =>
        match props with
        | .object fields => (Dict.get? fields slot).map fun value => (slot, value)
        | shared => some (slot, shared)

end Definition

namespace Record

/-- The record of a definition under one of its patterns. -/
def ofDefinition (d : Definition) (path : String) (id : RecordId)
    (parent aliasOf : Option RecordId) : Record where
  id
  path
  name := d.name
  components := d.slots
  metadata := d.metadata
  guards := d.guards
  props := d.slotProps
  redirect := d.redirect
  parent
  aliasOf

/-- Whether the record stands for another one. -/
def isAlias (r : Record) : Bool := r.aliasOf.isSome

/-- The component of a slot. -/
def component? (r : Record) (slot : String) : Option Payload := r.components.get? slot

/-- The record with a given identity among those held. -/
def lookup? (held : List Record) (id : RecordId) : Option Record := held.find? (·.id = id)

/-- The parent's record, if it is still held. -/
def parent? (held : List Record) (r : Record) : Option Record := r.parent.bind (lookup? held)

/-- The record that an alias stands for, if it is still held. -/
def primary? (held : List Record) (r : Record) : Option Record := r.aliasOf.bind (lookup? held)

/-- The identity of the route behind a record: that of the record it stands for, if there is
one that is still held. -/
def routeId (held : List Record) (r : Record) : RecordId := ((r.primary? held).getD r).id

/-- Whether two records are the same route. -/
def isSameRoute (held : List Record) (a b : Record) : Bool := a.routeId held = b.routeId held

end Record

/-- The metadata of records put together; later records prevail. -/
def mergeMetadata (matched : List Record) : Dict String Payload :=
  matched.foldl (fun merged r => Dict.merge merged r.metadata) []

end Waymark
