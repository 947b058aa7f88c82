/-
Sessions.

A session is a router in use: the present location, the handles of the routes that
were added, and copies of the router that were set aside.  What happens to one copy
leaves the others alone.
-/
import Waymark.Router

namespace Waymark

/-- A router in use. -/
structure Session where
  router : Router
  current : Location
  /-- The numbers of the routes that were added, the first one first. -/
  handles : List Nat
  /-- Copies of the router. -/
  forks : List Router
  /-- The lineage of the next copy. -/
  nextLineage : Nat

namespace Session

/-- A session that begins with a router. -/
def ofRouter (router : Router) : Session := ⟨router, .start, [], [], router.registry.lineage + 1⟩

/-- A session with an empty router. -/
def new (options : RouterOptions) : Session := ofRouter (.new options 0)

/-- The records that are held by a router or by the present location. -/
def held (s : Session) : List Record :=
  s.router.records ++ s.forks.flatMap Router.records ++ s.current.matched

/-- The session with a router that a route was added to. -/
def added (s : Session) (result : Router × Nat) : Session :=
  { s with router := result.1, handles := s.handles ++ [result.2] }

/-- Adds a route and keeps its handle. -/
def add (s : Session) (d : Definition) : Except DefinitionError (Session × Nat) :=
  (s.router.add d).map fun result => (s.added result, result.2)

/-- Adds a route under another one and keeps its handle. -/
def addUnder (s : Session) (parent : RouteRef) (d : Definition) :
    Except DefinitionError (Session × Nat) :=
  (s.router.addUnder parent d).map fun result => (s.added result, result.2)

/-- Adds several routes or none, without handles. -/
def addAll (s : Session) (ds : List Definition) : Except DefinitionError Session :=
  (s.router.addAll ds).map fun router => { s with router }

/-- Removes a route. -/
def remove (s : Session) (target : RouteRef) : Session :=
  { s with router := s.router.remove target }

/-- Removes the route that a handle was given out for, unless it is gone already. -/
def dispose? (s : Session) (handle : Nat) : Option Session :=
  s.handles[handle]?.map fun id => s.remove (.id id)

/-- Removes every route. -/
def clear (s : Session) : Session := { s with router := s.router.clear }

/-- Sets a copy of the router aside. -/
def fork (s : Session) : Session :=
  { s with forks := s.forks ++ [s.router.copy s.nextLineage], nextLineage := s.nextLineage + 1 }

/-- Exchanges the router and a copy that was set aside. -/
def swap? (s : Session) (fork : Nat) : Option Session :=
  s.forks[fork]?.map fun router =>
    { s with router, forks := s.forks.set fork s.router }

/-- Goes to a target. -/
def go (s : Session) (target : Target) : Except ResolveError Session :=
  (s.router.resolve target s.current).map fun current => { s with current }

/-- Goes where the present route redirects to, if it does. -/
def follow? (s : Session) : Option (Except ResolveError Session) :=
  s.current.redirect?.map fun redirect => s.go redirect.target

/-- Goes back to where a router starts from. -/
def reset (s : Session) : Session := { s with current := .start }

/-- Whether two locations lead to the same route; `none` if one of them leads to none. -/
def isSameRoute? (s : Session) (a b : Location) : Option Bool := do
  some (Record.isSameRoute s.held (← a.leaf?) (← b.leaf?))

end Session

end Waymark
