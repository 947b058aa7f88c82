/-
Paths as texts.

A canonical path begins with a slash and holds neither two slashes in a row nor a
backslash.  `Path.normalize` brings any text into this form, taking backslashes for
slashes; `Path.join` puts the pattern of a nested route under its parent's, and
`Path.collapse` only shortens runs of slashes, because a backslash means something
else in a pattern.
-/

namespace Waymark.Path

/-- Whether two slashes stand next to each other. -/
def hasDoubleSlash : List Char → Bool
  | '/' :: '/' :: _ => true
  | _ :: rest => hasDoubleSlash rest
  | [] => false

/-- Whether a path is in canonical form.  A single slash at the end is part of the form. -/
def isCanonicalChars (cs : List Char) : Bool :=
  cs.head? == some '/' && !hasDoubleSlash cs && !cs.contains '\\'

/-- The texts between slashes, empty ones included. -/
def pieces : List Char → List (List Char)
  | [] => [[]]
  | c :: cs =>
    if c = '/' then [] :: pieces cs
    else match pieces cs with
      | piece :: rest => (c :: piece) :: rest
      | [] => [[c]]

/-- The segments of a path: the texts between slashes that are not empty. -/
def segments (cs : List Char) : List (List Char) := (pieces cs).filter (!·.isEmpty)

/-- The segments one after the other, with a slash between them. -/
def joinSegments : List (List Char) → List Char
  | [] => []
  | [segment] => segment
  | segment :: rest => segment ++ '/' :: joinSegments rest

/-- The text with slashes in place of backslashes. -/
def unifySlashes (cs : List Char) : List Char := cs.map fun c => if c = '\\' then '/' else c

/-- The canonical path with the segments of a text that holds no backslash.  A slash at the end
stays, unless nothing else is left. -/
def rebuild (cs : List Char) : List Char :=
  match segments cs with
  | [] => ['/']
  | parts => '/' :: joinSegments parts ++ if cs.getLast? = some '/' then ['/'] else []

/-- The canonical form of a path. -/
def normalizeChars (cs : List Char) : List Char :=
  if isCanonicalChars cs then cs else rebuild (unifySlashes cs)

/-- The text without repeated slashes; `afterSlash` tells whether a slash came before it. -/
def collapseFrom (afterSlash : Bool) : List Char → List Char
  | [] => []
  | c :: cs =>
    if c = '/' && afterSlash then collapseFrom true cs else c :: collapseFrom (c = '/') cs

/-- The text with one slash in front and no repeated slashes. -/
def collapseChars (cs : List Char) : List Char :=
  if cs.head? = some '/' then collapseFrom false cs else '/' :: collapseFrom false cs

/-- The text without slashes at its end. -/
def trimEnd (cs : List Char) : List Char := (cs.reverse.dropWhile (· = '/')).reverse

/-- A nested path under its parent's path.  An empty one is the parent's path itself. -/
def joinChars (parent child : List Char) : List Char :=
  if child.isEmpty then collapseChars parent
  else collapseChars (trimEnd parent ++ '/' :: child)

/-- Whether a path is in canonical form. -/
def isCanonical (path : String) : Bool := isCanonicalChars path.toList

/-- The canonical form of a path. -/
def normalize (path : String) : String := String.ofList (normalizeChars path.toList)

/-- The text with one slash in front and no repeated slashes. -/
def collapse (path : String) : String := String.ofList (collapseChars path.toList)

/-- A nested path under its parent's path. -/
def join (parent child : String) : String :=
  String.ofList (joinChars parent.toList child.toList)

/-- The path of a route: paths that begin with a slash stand for themselves, others are nested
under the parent's path, if there is one. -/
def resolve (raw : String) (parent : Option String) : String :=
  match parent with
  | some parent => if raw.toList.head? = some '/' then collapse raw else join parent raw
  | none => collapse raw

end Waymark.Path
