/-
What can go wrong.

There are three families of errors, besides tables that cannot be read: a definition
that can never work, a location that names nothing, and a path that cannot be built
from its params.  Each error holds its cause; `message` puts it into words.  A path
that matches no route is no error.
-/

namespace Waymark

/-- What is wrong with a pattern. -/
inductive PatternFault
  /-- A colon without a name after it. -/
  | missingName
  /-- The constraint of a param has no end. -/
  | unterminated (param : String)
  /-- The constraint of a param is empty. -/
  | emptyConstraint (param : String)
  /-- Text between a param and the next slash. -/
  | strayText (text param : String)
  /-- Two params of one name. -/
  | repeatedParam (param : String)
  /-- The constraint of a param is no regular expression. -/
  | badConstraint (param : String)
  /-- The constraint of a param captures. -/
  | capturingConstraint (param : String)
  /-- The constraints are regular expressions, but the recognizer made of them is none. -/
  | badRecognizer
  deriving Repr, DecidableEq

/-- The words that stand for what is wrong with a regular expression. -/
def regexFault : String := "<regex error>"

namespace PatternFault

/-- The fault in words. -/
def message : PatternFault → String
  | missingName => "missing parameter name after \x60:\x60"
  | unterminated param => s!"unterminated custom constraint for parameter \x60{param}\x60"
  | emptyConstraint param => s!"empty custom constraint for parameter \x60{param}\x60"
  | strayText text param => s!"unexpected \x60{text}\x60 after parameter \x60{param}\x60"
  | repeatedParam param => s!"parameter \x60{param}\x60 is declared twice"
  | badConstraint param => s!"invalid constraint for parameter \x60{param}\x60: {regexFault}"
  | capturingConstraint param =>
    s!"constraint for parameter \x60{param}\x60 contains a capturing group, " ++
      "use \x60(?:...)\x60 instead"
  | badRecognizer => regexFault

end PatternFault

/-- What is wrong with a route whose patterns are all right. -/
inductive RouteFault
  /-- An alias declares other params than the primary path. -/
  | aliasParams (primary : String)
  /-- An absolute nested path lacks a param of its parent. -/
  | missingParentParam (param parent : String)
  /-- Replacing the route of this name would take away the parent to nest under. -/
  | replacesParent (name : String)
  deriving Repr, DecidableEq

namespace RouteFault

/-- The fault in words. -/
def message : RouteFault → String
  | aliasParams primary => s!"alias must declare exactly the same params as \x60{primary}\x60"
  | missingParentParam param parent =>
    s!"absolute nested path must include param \x60{param}\x60 of parent \x60{parent}\x60"
  | replacesParent name => s!"cannot replace \x60{name}\x60 while nesting under it"

end RouteFault

/-- A definition that cannot be added. -/
inductive DefinitionError
  | invalidPattern (pattern : String) (fault : PatternFault)
  | duplicateName (name : String)
  | invalidRoute (path : String) (fault : RouteFault)
  | unknownParent (parent : String)
  deriving Repr, DecidableEq

namespace DefinitionError

/-- The error in words. -/
def message : DefinitionError → String
  | invalidPattern pattern fault =>
    s!"invalid route pattern \x60{pattern}\x60: {fault.message}"
  | duplicateName name => s!"a route named \x60{name}\x60 is already registered"
  | invalidRoute path fault => s!"invalid route \x60{path}\x60: {fault.message}"
  | unknownParent parent => s!"parent route \x60{parent}\x60 is not registered"

end DefinitionError

/-- A location that names no route. -/
inductive LookupError
  | unknownName (name : String)
  | unknownPath (path : String)
  deriving Repr, DecidableEq

namespace LookupError

/-- The error in words. -/
def message : LookupError → String
  | unknownName name => s!"no route named \x60{name}\x60"
  | unknownPath path => s!"no route matches the current location \x60{path}\x60"

end LookupError

/-- A path that cannot be built. -/
inductive BuildError
  | missingParam (key pattern : String)
  | unexpectedList (key pattern : String)
  deriving Repr, DecidableEq

namespace BuildError

/-- The error in words. -/
def message : BuildError → String
  | missingParam key pattern => s!"missing required param \x60{key}\x60 for \x60{pattern}\x60"
  | unexpectedList key pattern =>
    s!"param \x60{key}\x60 of \x60{pattern}\x60 is not repeatable but a list was provided"

end BuildError

/-- Why a location cannot be resolved. -/
inductive ResolveError
  | lookup (error : LookupError)
  | build (error : BuildError)
  deriving Repr, DecidableEq

namespace ResolveError

/-- The error in words. -/
def message : ResolveError → String
  | lookup error => error.message
  | build error => error.message

end ResolveError

end Waymark
