/-
The values of params.

A param is a single text or, when it may span several segments, a list of texts.
-/
import Waymark.Dict

namespace Waymark

/-- The value of a param. -/
inductive ParamValue
  | single (text : String)
  | list (texts : List String)
  deriving Repr, DecidableEq

namespace ParamValue

/-- The text of a single value. -/
def text? : ParamValue → Option String
  | single text => some text
  | list _ => none

/-- The texts of a list. -/
def texts? : ParamValue → Option (List String)
  | single _ => none
  | list texts => some texts

/-- Whether the value counts as not given: no text, or a list of such. -/
def isEmpty : ParamValue → Bool
  | single text => text.isEmpty
  | list texts => texts.all (·.isEmpty)

/-- The value made anew from its content. -/
def rebuilt : ParamValue → ParamValue
  | single text => single text
  | list texts => list (texts.map id)

end ParamValue

/-- The values of params by name. -/
abbrev Params := Dict String ParamValue

end Waymark
