/-
Regular expressions as texts that have been read.

`Regex.ofSource?` accepts a text that is a regular expression of bounded nesting and
size; `Regex.find?` looks for its leftmost match, which gives the texts that the
capturing groups matched.
-/
import Waymark.Regex.Match
import Waymark.Regex.Read
import Waymark.Regex.Size

namespace Waymark

/-- A regular expression with the text it was read from. -/
structure Regex where
  source : String
  expr : Regex.Expr

namespace Regex

/-- The regular expression that a text writes, if it is one and is not too large. -/
def ofSource? (source : String) : Option Regex := do
  let tree ← Tree.ofSource? source.toList
  let (expr, _) ← Expr.ofTree? {} tree
  if expr.size ≤ maxSize then some { source, expr } else none

/-- Whether the expression holds a capturing group. -/
def hasGroup (r : Regex) : Bool := r.expr.lastGroup ≠ 0

/-- The end of the preferred one of the leftmost matches. -/
def find? (r : Regex) (text : String) : Option Point := r.expr.search? text.toList

/-- Whether the expression matches somewhere in the text. -/
def isMatch (r : Regex) (text : String) : Bool := (r.find? text).isSome

/-- The text with every character that has a meaning of its own made to stand for itself. -/
def quoted (text : List Char) : List Char :=
  text.flatMap fun c => if isMeta c then ['\\', c] else [c]

end Regex

end Waymark
