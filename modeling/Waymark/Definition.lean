/-
Route definitions.

A definition says what a caller wants of a route: its path pattern, other paths for
it, the routes nested under it, and the payloads that travel with it.
-/
import Waymark.Matcher
import Waymark.Payload.Basic

namespace Waymark

/-- Where a route sends whoever arrives at it. -/
inductive Redirect
  | path (path : String)
  | named (name : String) (params : Params)
  deriving Repr

/-- A route as a caller defines it. -/
structure Definition where
  /-- The pattern; one that does not begin with a slash goes under the parent's. -/
  path : String
  name : Option String := none
  /-- The component of the default slot. -/
  component : Option Payload := none
  /-- Components by slot. -/
  components : Dict String Payload := []
  children : List Definition := []
  /-- Further patterns for the same route. -/
  aliases : List String := []
  metadata : Dict String Payload := []
  guards : List Payload := []
  props : Option Payload := none
  redirect : Option Redirect := none
  /-- Takes the place of the router's setting. -/
  caseInsensitive : Option Bool := none
  /-- Takes the place of the router's setting. -/
  strict : Option Bool := none

/-- What to do with a route whose name is taken. -/
inductive DuplicateNames
  /-- The earlier route goes. -/
  | replace
  /-- The later route is refused. -/
  | reject
  deriving Repr, DecidableEq

/-- The settings of a router. -/
structure RouterOptions where
  caseInsensitive : Bool := false
  strict : Bool := false
  duplicateNames : DuplicateNames := .replace
  deriving Repr, DecidableEq

/-- How the patterns of a definition are matched. -/
def RouterOptions.patternOptions (options : RouterOptions) (d : Definition) : PatternOptions :=
  { caseInsensitive := d.caseInsensitive.getD options.caseInsensitive
    strict := d.strict.getD options.strict }

/-- Routes together with the settings of the router for them. -/
structure RouteTable where
  options : RouterOptions := {}
  routes : List Definition := []

end Waymark
