/-
What a regular expression matches.

`Expr.ends e p` lists the points where a match of `e` that begins at `p` may end, in
the order of preference: the first branch of an alternation before the second, and
one more round of a greedy loop before leaving it.  A point that can be reached in
several ways is listed once, for the preferred way.  A round of a loop that consumes
nothing ends the loop.  `Expr.search?` takes the most preferred end of the leftmost
match.
-/
import Waymark.Regex.Expr

namespace Waymark.Regex

open Waymark.Unicode

/-- A place in the text, with the texts that groups have captured on the way. -/
structure Point where
  /-- The character in front, if any. -/
  before : Option Char
  /-- How many characters are in front. -/
  offset : Nat
  /-- The characters that follow. -/
  rest : List Char
  /-- What groups captured, the latest first. -/
  groups : List (Nat × List Char)
  deriving Repr

namespace Point

/-- The start of a text. -/
def start (text : List Char) : Point := ⟨none, 0, text, []⟩

/-- The point after the next character. -/
def next? (p : Point) : Option (Char × Point) :=
  match p.rest with
  | [] => none
  | c :: rest => some (c, { p with before := some c, offset := p.offset + 1, rest })

/-- The text between the point and a later one. -/
def textTo (p q : Point) : List Char := p.rest.take (q.offset - p.offset)

/-- The later point `q`, with the text from `p` to it captured by a group. -/
def capture (p : Point) (index : Nat) (q : Point) : Point :=
  { q with groups := (index, p.textTo q) :: q.groups }

/-- What the group captured last. -/
def group? (p : Point) (index : Nat) : Option (List Char) := p.groups.lookup index

end Point

/-- Whether the character is part of a word. -/
def isWordChar (ascii : Bool) (c : Option Char) : Bool :=
  c.any (ShortClass.word.codes !ascii).has

/-- Whether the condition holds at a point. -/
def Look.holds (p : Point) : Look → Bool
  | .textStart => p.before.isNone
  | .textEnd => p.rest.isEmpty
  | .lineStart => p.before.all (· = '\n')
  | .lineEnd => p.rest.head?.all (· = '\n')
  | .lineStartCrlf =>
    p.before.all fun c => c = '\n' || (c = '\r' && p.rest.head? != some '\n')
  | .lineEndCrlf =>
    p.rest.head?.all fun c => c = '\r' || (c = '\n' && p.before != some '\r')
  | .word side ascii =>
    let before := isWordChar ascii p.before
    let after := isWordChar ascii p.rest.head?
    match side with
    | .boundary => before != after
    | .inside => before == after
    | .start => !before && after
    | .stop => before && !after
    | .startHalf => !before
    | .stopHalf => !after

/-- Adds a point unless the place was reached before. -/
def reach (found : List Point) (p : Point) : List Point :=
  if found.any (·.offset = p.offset) then found else found ++ [p]

/-- Where a second step may end after a first one. -/
def chain (ends : List Point) (step : Point → List Point) : List Point :=
  ends.foldl (fun found p => (step p).foldl reach found) []

/-- The points after exactly `n` rounds. -/
def rounds (step : Point → List Point) : Nat → List Point → List Point
  | 0, ends => ends
  | _ + 1, [] => []
  | n + 1, p :: ends => rounds step n (chain (p :: ends) step)

/-- Adds to `found` the points where a loop may end that has just come to `p`.  Each further
round must consume something, so no more rounds fit than characters are left. -/
def onward (step : Point → List Point) (greedy : Bool) : Nat → List Point → Point → List Point
  | 0, found, p => reach found p
  | left + 1, found, p =>
    if found.any (·.offset = p.offset) then found
    else
      let further := (step p).filter (p.offset < ·.offset)
      if greedy then
        reach (further.foldl (fun found q => onward step greedy left found q) found) p
      else
        further.foldl (fun found q => onward step greedy left found q) (reach found p)

/-- The points after one round or more. -/
def oneOrMore (step : Point → List Point) (greedy : Bool) (p : Point) : List Point :=
  (step p).foldl
    (fun found q =>
      if q.offset = p.offset then reach found q
      else onward step greedy q.rest.length found q)
    []

/-- The points after any number of rounds. -/
def zeroOrMore (step : Point → List Point) (greedy : Bool) (p : Point) : List Point :=
  if greedy then reach (oneOrMore step greedy p) p
  else (oneOrMore step greedy p).foldl reach [p]

/-- The points found by a loop with a bound, and the pairs of a place and a number of rounds
left that were tried. -/
structure Trail where
  found : List Point
  tried : List (Nat × Nat)

/-- Adds the points after at most `n` rounds from `p`. -/
def atMost (step : Point → List Point) (greedy : Bool) : Nat → Trail → Point → Trail
  | 0, trail, p => { trail with found := reach trail.found p }
  | n + 1, trail, p =>
    if trail.tried.contains (p.offset, n) then trail
    else
      let trail : Trail := { trail with tried := (p.offset, n) :: trail.tried }
      if greedy then
        let trail := (step p).foldl (fun trail q => atMost step greedy n trail q) trail
        { trail with found := reach trail.found p }
      else
        (step p).foldl (fun trail q => atMost step greedy n trail q)
          { trail with found := reach trail.found p }

/-- The points after as many rounds as the bounds allow. -/
def repeatedly (step : Point → List Point) (least : Nat) (most : Option Nat) (greedy : Bool)
    (p : Point) : List Point :=
  match most, least with
  | none, 0 => zeroOrMore step greedy p
  | none, least + 1 => chain (rounds step least [p]) (oneOrMore step greedy)
  | some most, least =>
    chain (rounds step least [p]) fun q => (atMost step greedy (most - least) ⟨[], []⟩ q).found

/-- The points where a match that begins at `p` may end, the preferred ones first. -/
def Expr.ends : Expr → Point → List Point
  | .empty, p => [p]
  | .set s, p =>
    match p.next? with
    | some (c, q) => if s.has c then [q] else []
    | none => []
  | .look condition, p => if condition.holds p then [p] else []
  | .seq first second, p => chain (first.ends p) second.ends
  | .alt preferred other, p => (other.ends p).foldl reach (preferred.ends p)
  | .loop least most greedy body, p => repeatedly body.ends least most greedy p
  | .group index body, p => (body.ends p).map (p.capture index)

/-- The preferred end of the first match that begins at the given place or after it. -/
def Expr.searchFrom? (e : Expr) (before : Option Char) (offset : Nat) :
    List Char → Option Point
  | [] => (e.ends ⟨before, offset, [], []⟩).head?
  | c :: rest =>
    match e.ends ⟨before, offset, c :: rest, []⟩ with
    | p :: _ => some p
    | [] => e.searchFrom? (some c) (offset + 1) rest

/-- The preferred end of the leftmost match in a text. -/
def Expr.search? (e : Expr) (text : List Char) : Option Point := e.searchFrom? none 0 text

end Waymark.Regex
