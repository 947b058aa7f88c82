/-
Reading definitions and route tables from payloads.

A record may be written as an object or as a list of its fields in order, of which
the last ones may be missing.  A field of a record comes once at most, whereas in a
free map a later value takes the place of an earlier one.  Unknown fields are passed
over.
-/
import Waymark.Definition
import Waymark.Payload.Json
import Waymark.Payload.Toml.Read

namespace Waymark

/-- The formats of route tables. -/
inductive TableFormat
  | json
  | toml
  deriving Repr, DecidableEq

namespace Payload

/-- The fields of a record in order.  Each comes with the names it goes by; what is absent is
`none`. -/
def record? (format : TableFormat) (names : List (List String)) :
    Payload → Option (List (Option Payload))
  | .object fields =>
    names.mapM fun allowed =>
      match fields.filter fun field => allowed.contains field.1 with
      | [] => some none
      | [field] => some (some field.2)
      | _ => none
  | .list items =>
    if items.length ≤ names.length || format = .toml then
      some ((List.range names.length).map fun i => items[i]?)
    else none
  | _ => none

/-- A text. -/
def text? : Payload → Option String
  | .text value => some value
  | _ => none

/-- A truth value. -/
def bool? : Payload → Option Bool
  | .bool value => some value
  | _ => none

/-- A list whose items can all be read. -/
def listOf? {α : Type} (read : Payload → Option α) : Payload → Option (List α)
  | .list items => items.mapM read
  | _ => none

/-- A free map whose values can all be read. -/
def dictOf? {α : Type} (read : Payload → Option α) : Payload → Option (Dict String α)
  | .object fields => do
    some (Dict.ofPairs (← fields.mapM fun field => do some (field.1, ← read field.2)))
  | _ => none

/-- Whether the payload stands for an absent value.  TOML has no word for it. -/
def isAbsent (format : TableFormat) : Payload → Bool
  | .null => format = .json
  | _ => false

/-- A value that may be absent. -/
def optional? {α : Type} (format : TableFormat) (read : Payload → Option α) :
    Option Payload → Option (Option α)
  | none => some none
  | some payload => if payload.isAbsent format then some none else (read payload).map some

/-- A value that may be left out, with what stands for it then. -/
def withDefault? {α : Type} (fallback : α) (read : Payload → Option α) :
    Option Payload → Option α
  | none => some fallback
  | some payload => read payload

/-- One value, a list of values, or none. -/
def oneOrMany? {α : Type} (format : TableFormat) (read : Payload → Option α) :
    Option Payload → Option (List α)
  | none => some []
  | some payload =>
    if payload.isAbsent format then some []
    else do
      let payload ← payload.settle?
      payload.listOf? read <|> (read payload).map ([·])

end Payload

/-- The value of a param. -/
def ParamValue.ofPayload? : Payload → Option ParamValue
  | .text text => some (.single text)
  | .list items => (items.mapM Payload.text?).map .list
  | _ => none

/-- The values of params. -/
def Params.ofPayload? (payload : Payload) : Option Params :=
  payload.dictOf? ParamValue.ofPayload?

/-- A redirect: a path, or an object with a name and perhaps params. -/
def Redirect.ofPayload? (format : TableFormat) (payload : Payload) : Option Redirect := do
  match payload with
  | .text target => some (.path target)
  | .object _ =>
    match ← payload.record? format [["name"], ["params"]] with
    | [some name, params] =>
      -- What is passed over has to be in order too.
      let _ ← payload.settle?
      some (.named (← name.text?) (← Payload.withDefault? [] Params.ofPayload? params))
    | _ => none
  | _ => none

namespace Definition

/-- The fields of a definition. -/
def fieldNames : List (List String) :=
  [["path"], ["name"], ["component"], ["components"], ["children"], ["alias"], ["meta"],
    ["before_enter", "beforeEnter"], ["props"], ["redirect"], ["case_insensitive"], ["strict"]]

/-- Reads a definition in which definitions nest less than `depth` deep. -/
def ofPayloadWithin? (format : TableFormat) : Nat → Payload → Option Definition
  | 0, _ => none
  | depth + 1, payload => do
    match ← payload.record? format fieldNames with
    | [some path, name, component, components, children, aliases, metadata, guards, props,
        redirect, caseInsensitive, strict] =>
      some
        { path := ← path.text?
          name := ← Payload.optional? format Payload.text? name
          component := ← Payload.optional? format Payload.settle? component
          components := ← Payload.withDefault? [] (Payload.dictOf? Payload.settle?) components
          children :=
            ← Payload.withDefault? [] (Payload.listOf? (ofPayloadWithin? format depth)) children
          aliases := ← Payload.oneOrMany? format Payload.text? aliases
          metadata := ← Payload.withDefault? [] (Payload.dictOf? Payload.settle?) metadata
          guards := ← Payload.oneOrMany? format Payload.settle? guards
          props := ← Payload.optional? format Payload.settle? props
          redirect := ← Payload.optional? format (Redirect.ofPayload? format) redirect
          caseInsensitive := ← Payload.optional? format Payload.bool? caseInsensitive
          strict := ← Payload.optional? format Payload.bool? strict }
    | _ => none

end Definition

mutual

/-- How deeply a payload nests. -/
def Payload.depth : Payload → Nat
  | .list items => Payload.depthOfItems items + 1
  | .object fields => Payload.depthOfFields fields + 1
  | _ => 1

/-- The deepest nesting among items. -/
def Payload.depthOfItems : List Payload → Nat
  | [] => 0
  | item :: rest => max item.depth (Payload.depthOfItems rest)

/-- The deepest nesting among the values of fields. -/
def Payload.depthOfFields : List (String × Payload) → Nat
  | [] => 0
  | (_, value) :: rest => max value.depth (Payload.depthOfFields rest)

end

/-- Reads a definition. -/
def Definition.ofPayload? (format : TableFormat) (payload : Payload) : Option Definition :=
  Definition.ofPayloadWithin? format payload.depth payload

/-- Reads what to do with names that are taken.  The word may also stand as the only field of an
object without a value. -/
def DuplicateNames.ofPayload? (format : TableFormat) (payload : Payload) :
    Option DuplicateNames := do
  let word ← match payload with
    | .text word => some word
    | .object [(word, value)] =>
      match format, value with
      | .json, .null => some word
      | .toml, .list [] => some word
      | .toml, .object [] => some word
      | _, _ => none
    | _ => none
  match word with
  | "replace" => some .replace
  | "reject" => some .reject
  | _ => none

/-- Reads the settings of a router. -/
def RouterOptions.ofPayload? (format : TableFormat) (payload : Payload) :
    Option RouterOptions := do
  match ← payload.record? format [["case_insensitive"], ["strict"], ["duplicate_names"]] with
  | [caseInsensitive, strict, names] =>
    some
      { caseInsensitive := ← Payload.withDefault? false Payload.bool? caseInsensitive
        strict := ← Payload.withDefault? false Payload.bool? strict
        duplicateNames := ← Payload.withDefault? .replace (DuplicateNames.ofPayload? format) names }
  | _ => none

/-- Reads a route table. -/
def RouteTable.ofPayload? (format : TableFormat) (payload : Payload) : Option RouteTable := do
  match ← payload.record? format [["options"], ["routes"]] with
  | [options, routes] =>
    some
      { options := ← Payload.withDefault? {} (RouterOptions.ofPayload? format) options
        routes := ←
          Payload.withDefault? [] (Payload.listOf? (Definition.ofPayload? format)) routes }
  | _ => none

/-- Reads the text of a route table. -/
def RouteTable.ofText? (format : TableFormat) (source : String) : Option RouteTable :=
  match format with
  | .json => Json.read? source >>= RouteTable.ofPayload? .json
  | .toml => Toml.read? source >>= RouteTable.ofPayload? .toml

end Waymark
