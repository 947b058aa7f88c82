/-
How specific a pattern is.

A score has one number for each segment, a higher one for a more specific segment.
Scores are compared place by place; if one of them goes on where the other ends, the
longer one is the more specific, except when all that it has more is a single segment
that scores below zero.
-/
import Waymark.Pattern.Token

namespace Waymark

/-- The scores of the segments of a pattern. -/
structure Score where
  entries : List Int
  deriving Repr, DecidableEq

namespace Score

/-- The score of the pattern without segments. -/
def root : Int := 900

/-- The score of literal text, to which its length is added. -/
def literal : Int := 800

/-- The most that the length of literal text adds. -/
def longestLiteral : Nat := 99

/-- The score of a param. -/
def param : Int := 600

/-- What a constraint adds. -/
def constraint : Int := 100

/-- What the constraint that lets everything through takes away. -/
def wildcard : Int := -500

/-- What a repeatable segment loses. -/
def repeatable : Int := -200

/-- What an optional segment loses. -/
def optional : Int := -80

/-- What a segment loses further that is both. -/
def zeroOrMore : Int := -400

/-- The score of a param by its traits. -/
def ofParam (p : Param) : Int :=
  param + (if p.constraint.isSome then constraint else 0) +
    (if p.isWildcard then wildcard else 0) + (if p.repeatable then repeatable else 0) +
    (if p.optional then optional else 0) +
    (if p.optional && p.repeatable then zeroOrMore else 0)

/-- The score of one segment. -/
def ofToken : Token → Int
  | .literal text => literal + (min text.length longestLiteral : Nat)
  | .param p => ofParam p

/-- The score of a pattern. -/
def ofTokens (tokens : List Token) : Score :=
  if tokens.isEmpty then ⟨[root]⟩ else ⟨tokens.map ofToken⟩

/-- Compares what is left of two scores whose entries agree so far. -/
def compareEntries : List Int → List Int → Ordering
  | [], [] => .eq
  | [], [b] => if b < 0 then .gt else .lt
  | [], _ :: _ :: _ => .lt
  | [a], [] => if a < 0 then .lt else .gt
  | _ :: _ :: _, [] => .gt
  | a :: as, b :: bs =>
    match compare a b with
    | .eq => compareEntries as bs
    | decided => decided

/-- Compares two scores; the greater one is the more specific. -/
def compare (s t : Score) : Ordering := compareEntries s.entries t.entries

/-- Whether the first score is not greater than the second. -/
def atMost (s t : Score) : Bool := s.compare t != .gt

/-- The entries in brackets. -/
def text (s : Score) : String := "[" ++ ", ".intercalate (s.entries.map toString) ++ "]"

end Score

end Waymark
