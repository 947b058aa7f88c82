/-
The tokens of a pattern.

A pattern such as `/users/:id(\d+)/files/:path*` is a list of tokens, one for each
segment.  `Token.text` writes a token and `Pattern.print` a whole pattern.
-/

namespace Waymark

/-- A segment that stands for a value. -/
structure Param where
  name : String
  /-- A regular expression that restricts the value. -/
  constraint : Option String
  /-- The segment may be missing. -/
  optional : Bool
  /-- The value may span several segments. -/
  repeatable : Bool
  deriving Repr, DecidableEq

/-- A segment of a pattern. -/
inductive Token
  /-- Text that stands for itself. -/
  | literal (text : String)
  | param (p : Param)
  deriving Repr, DecidableEq

namespace Param

/-- The constraint that lets everything through. -/
def wildcard : String := ".*"

/-- The name of the param that a bare asterisk stands for. -/
def catchAllName : String := "pathMatch"

/-- The param that a bare asterisk stands for. -/
def catchAll : Param := ⟨catchAllName, some wildcard, true, true⟩

/-- Whether the constraint lets everything through. -/
def isWildcard (p : Param) : Bool := p.constraint = some wildcard

/-- The mark after a param that tells how often its segment may occur. -/
def modifier (p : Param) : String :=
  match p.optional, p.repeatable with
  | true, true => "*"
  | false, true => "+"
  | true, false => "?"
  | false, false => ""

/-- The param as it is written in a pattern. -/
def text (p : Param) : String :=
  if p = catchAll then "*"
  else
    let constraint := match p.constraint with
      | some source => "(" ++ source ++ ")"
      | none => ""
    ":" ++ p.name ++ constraint ++ p.modifier

end Param

namespace Token

/-- The token as it is written in a pattern. -/
def text : Token → String
  | literal text => text
  | param p => p.text

/-- The param of a token, if it is one. -/
def param? : Token → Option Param
  | literal _ => none
  | param p => some p

end Token

namespace Pattern

/-- The params among tokens, in order. -/
def params (tokens : List Token) : List Param := tokens.filterMap Token.param?

/-- A pattern with the given tokens. -/
def print (tokens : List Token) : String :=
  "/" ++ "/".intercalate (tokens.map Token.text)

end Pattern

end Waymark
