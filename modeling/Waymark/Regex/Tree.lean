/-
Syntax trees of regular expressions.

A `Tree` is an expression as it is written: what a construct means may still hang on
the flags in force where it stands.  `Tree.depth` counts how deeply the constructs
nest, which is bounded by `maxDepth`.
-/

namespace Waymark.Regex

/-- A switch that a flag group such as `(?i)` or `(?s-u:…)` turns on or off. -/
inductive Flag
  | caseInsensitive
  | multiLine
  | dotMatchesNewline
  | swapGreed
  | unicode
  | crlf
  | ignoreWhitespace
  deriving Repr, DecidableEq

/-- The switches of one flag group, in the order written; `true` turns a switch on. -/
abbrev FlagChanges := List (Flag × Bool)

/-- A single character.  `isByte` marks the form `\xNN`, which outside Unicode mode stands for
an octet. -/
structure Literal where
  char : Char
  isByte : Bool
  deriving Repr, DecidableEq

/-- The assertions, as they are written. -/
inductive Assertion
  | startLine
  | endLine
  | startText
  | endText
  | wordBoundary
  | notWordBoundary
  | wordStart
  | wordEnd
  | wordStartHalf
  | wordEndHalf
  deriving Repr, DecidableEq

/-- The classes `\d`, `\s` and `\w`. -/
inductive ShortClass
  | digit
  | space
  | word
  deriving Repr, DecidableEq

/-- The classes written `[:name:]` inside brackets. -/
inductive AsciiClass
  | alnum
  | alpha
  | ascii
  | blank
  | cntrl
  | digit
  | graph
  | lower
  | print
  | punct
  | space
  | upper
  | word
  | xdigit
  deriving Repr, DecidableEq

/-- What `\p` asks for: a name that may be a property, a category or a script, or a property
with a value. -/
inductive PropertyQuery
  | named (name : String)
  | valued (name value : String)
  deriving Repr, DecidableEq

/-- The operations between bracketed classes. -/
inductive ClassOperation
  | intersection
  | difference
  | symmetricDifference
  deriving Repr, DecidableEq

mutual

/-- One member of a bracketed class. -/
inductive ClassItem
  | literal (l : Literal)
  | range (low high : Literal)
  | ascii (kind : AsciiClass) (negated : Bool)
  | short (kind : ShortClass) (negated : Bool)
  | property (query : PropertyQuery) (negated : Bool)
  | bracketed (negated : Bool) (body : ClassBody)

/-- What stands between the brackets. -/
inductive ClassBody
  | union (items : List ClassItem)
  | operation (kind : ClassOperation) (left right : ClassBody)

end

/-- A regular expression as written. -/
inductive Tree
  | empty
  | flags (changes : FlagChanges)
  | literal (l : Literal)
  | dot
  | assertion (kind : Assertion)
  | short (kind : ShortClass) (negated : Bool)
  | property (query : PropertyQuery) (negated : Bool)
  | bracketed (negated : Bool) (body : ClassBody)
  | repetition (least : Nat) (most : Option Nat) (greedy : Bool) (sub : Tree)
  | group (index : Option Nat) (changes : FlagChanges) (sub : Tree)
  | alternation (branches : List Tree)
  | concat (parts : List Tree)

/-- The deepest nesting that is accepted. -/
def maxDepth : Nat := 250

mutual

/-- How deeply a member of a class nests. -/
def ClassItem.depth : ClassItem → Nat
  | .bracketed _ body => body.depth + 1
  | _ => 0

/-- How deeply the text between brackets nests; a list of two members or more is a level. -/
def ClassBody.depth : ClassBody → Nat
  | .union [] => 0
  | .union [item] => item.depth
  | .union (first :: second :: rest) =>
    max first.depth (max second.depth (ClassItem.depths rest)) + 1
  | .operation _ left right => max left.depth right.depth + 1

/-- The deepest nesting among the members of a class. -/
def ClassItem.depths : List ClassItem → Nat
  | [] => 0
  | item :: rest => max item.depth (ClassItem.depths rest)

end

mutual

/-- How deeply an expression nests. -/
def Tree.depth : Tree → Nat
  | .bracketed _ body => body.depth + 1
  | .repetition _ _ _ sub => sub.depth + 1
  | .group _ _ sub => sub.depth + 1
  | .alternation branches => Tree.depths branches + 1
  | .concat parts => Tree.depths parts + 1
  | _ => 0

/-- The deepest nesting among expressions. -/
def Tree.depths : List Tree → Nat
  | [] => 0
  | tree :: rest => max tree.depth (Tree.depths rest)

end

/-- The expressions of a list one after the other. -/
def Tree.inSequence : List Tree → Tree
  | [] => .empty
  | [tree] => tree
  | parts => .concat parts

end Waymark.Regex
