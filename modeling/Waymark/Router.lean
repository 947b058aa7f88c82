/-
Routers.

A router is a registry with settings.  Routes are added whole or not at all and are
removed with everything that hangs on them; paths and names are resolved to
locations.
-/
import Waymark.Error
import Waymark.Location
import Waymark.Registry

namespace Waymark

/-- A registered route, by number or by name. -/
inductive RouteRef
  | id (id : Nat)
  | name (name : String)
  deriving Repr, DecidableEq

namespace RouteRef

/-- The reference in words. -/
def text : RouteRef → String
  | id n => s!"#MatcherId({n})"
  | name s => s

end RouteRef

/-- A set of routes with the settings for them. -/
structure Router where
  options : RouterOptions
  registry : Registry

namespace Router

/-- A router without routes. -/
def new (options : RouterOptions) (lineage : Nat) : Router := ⟨options, .empty lineage⟩

/-- The entry that is referred to. -/
def lookup? (r : Router) : RouteRef → Option Entry
  | .id id => r.registry.get? id
  | .name name => r.registry.named? name

/-- The entries that must go before a new route can take the names.  None may take away the
parent that the new route goes under. -/
def conflicts (r : Router) (path : String) (parent : Option Nat) :
    List String → Except DefinitionError (List Nat)
  | [] => .ok []
  | name :: rest =>
    match r.registry.named? name with
    | none => r.conflicts path parent rest
    | some existing =>
      match r.options.duplicateNames with
      | .reject => .error (.duplicateName name)
      | .replace =>
        if parent.any (r.registry.removalReaches existing.id) then
          .error (.invalidRoute path (.replacesParent name))
        else (r.conflicts path parent rest).map (existing.id :: ·)

/-- Adds a definition under a parent, if there is one.  Gives the router with the route, and the
route's number. -/
def insertDefinition (r : Router) (d : Definition) (parent : Option Entry) :
    Except DefinitionError (Router × Nat) :=
  match Plan.ofDefinition r.options d (parent.map fun e => Plan.parentOf e.matcher) with
  | .error error => .error error
  | .ok plan =>
    match r.conflicts plan.path (parent.map (·.id)) plan.names with
    | .error error => .error error
    | .ok replaced =>
      let registry := replaced.foldl Registry.remove r.registry
      .ok ({ r with registry := registry.commit (parent.map (·.id)) none plan }, registry.nextId)

/-- Adds a route. -/
def add (r : Router) (d : Definition) : Except DefinitionError (Router × Nat) :=
  r.insertDefinition d none

/-- Adds a route under another one. -/
def addUnder (r : Router) (parent : RouteRef) (d : Definition) :
    Except DefinitionError (Router × Nat) :=
  match r.lookup? parent with
  | none => .error (.unknownParent parent.text)
  | some e => r.insertDefinition d (some e)

/-- Adds several routes, or none if one of them cannot be added. -/
def addAll (r : Router) : List Definition → Except DefinitionError Router
  | [] => .ok r
  | d :: rest =>
    match r.add d with
    | .error error => .error error
    | .ok (next, _) => next.addAll rest

/-- A router with the routes of a table. -/
def ofTable (table : RouteTable) (lineage : Nat) : Except DefinitionError Router :=
  (new table.options lineage).addAll table.routes

/-- Removes a route with everything that hangs on it.  An unknown route is no error. -/
def remove (r : Router) (target : RouteRef) : Router :=
  match r.lookup? target with
  | some e => { r with registry := r.registry.remove e.id }
  | none => r

/-- Removes every route. -/
def clear (r : Router) : Router := { r with registry := r.registry.clear }

/-- A copy, whose later records are told apart from those of this router. -/
def copy (r : Router) (lineage : Nat) : Router :=
  { r with registry := { r.registry with lineage } }

/-- The records, the most specific first. -/
def records (r : Router) : List Record := r.registry.inOrder.map (·.record)

/-- How many entries there are. -/
def size (r : Router) : Nat := r.registry.size

/-- Whether a route has the name. -/
def has (r : Router) (name : String) : Bool := (r.registry.named? name).isSome

/-- The entries nested under the one with a number. -/
def childrenOf (r : Router) (id : Nat) : List Entry :=
  match r.registry.get? id with
  | some e => e.children.filterMap r.registry.get?
  | none => []

/-- The location of an entry under a path. -/
def locate (r : Router) (leaf : Entry) (path : String) (params : Params) : Location :=
  let matched := ((r.registry.ancestors leaf.id).map (·.record)).reverse
  { name := leaf.record.name, path, params, matched, metadata := mergeMetadata matched }

/-- The location of a path.  A path that no route matches has one too. -/
def resolvePath (r : Router) (path : String) : Location :=
  let path := Path.normalize path
  match r.registry.find? path with
  | some (e, params) => r.locate e path params
  | none => .unmatched path

/-- The params that an entry declares, from the present ones and the given ones, which
prevail. -/
def overlay (m : Matcher) (present given : Params) : Params :=
  Dict.merge (present.filter fun pair => m.declares pair.1)
    (given.filter fun pair => m.declares pair.1)

/-- The location of an entry with given params. -/
def resolveEntry (r : Router) (e : Entry) (present given : Params) :
    Except ResolveError Location :=
  let params := overlay e.matcher present given
  match e.matcher.build params with
  | .error error => .error (.build error)
  | .ok path => .ok (r.locate e path params)

/-- The entry with a name, which has to exist. -/
def require (r : Router) (name : String) : Except ResolveError Entry :=
  match r.registry.named? name with
  | some e => .ok e
  | none => .error (.lookup (.unknownName name))

/-- The entry of the present location. -/
def present (r : Router) (current : Location) : Except ResolveError Entry :=
  match current.name with
  | some name => r.require name
  | none =>
    match r.registry.find? (Path.normalize current.path) with
    | some (e, _) => .ok e
    | none => .error (.lookup (.unknownPath current.path))

/-- The location of a target, seen from the present one. -/
def resolve (r : Router) (target : Target) (current : Location) :
    Except ResolveError Location :=
  match target with
  | .path path => .ok (r.resolvePath path)
  | .named name params => do r.resolveEntry (← r.require name) current.params params
  | .relative params => do r.resolveEntry (← r.present current) current.params params

/-- The path of a named route. -/
def urlFor (r : Router) (name : String) (params : Params) : Except ResolveError String :=
  match r.require name with
  | .error error => .error error
  | .ok e => (e.matcher.build params).mapError .build

end Router

end Waymark
