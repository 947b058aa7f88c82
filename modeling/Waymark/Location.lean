/-
Locations.

A target says where to go: a path, a named route with params, or the present route
with other params.  A location is where one has come to.
-/
import Waymark.Record

namespace Waymark

/-- Where to go. -/
inductive Target
  | path (path : String)
  | named (name : String) (params : Params)
  /-- The present route, with some params replaced. -/
  | relative (params : Params)

/-- The target of a redirect. -/
def Redirect.target : Redirect → Target
  | .path p => .path p
  | .named name params => .named name params

/-- The result of resolving a target. -/
structure Location where
  name : Option String
  path : String
  params : Params
  /-- The records from the outermost one to that of the route itself; none if no route was
  found. -/
  matched : List Record
  /-- The metadata of the matched records; that of inner ones prevails. -/
  metadata : Dict String Payload

namespace Location

/-- A path without a route. -/
def unmatched (path : String) : Location := ⟨none, path, [], [], []⟩

/-- Where a router starts from. -/
def start : Location := unmatched "/"

/-- Whether a route was found. -/
def isFound (l : Location) : Bool := !l.matched.isEmpty

/-- The record of the route itself. -/
def leaf? (l : Location) : Option Record := l.matched.getLast?

/-- Where the route sends whoever arrives. -/
def redirect? (l : Location) : Option Redirect := l.leaf?.bind (·.redirect)

end Location

end Waymark
