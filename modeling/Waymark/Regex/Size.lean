/-
How large a regular expression is.

The size of an expression is the memory that an automaton for it takes when the
automaton reads UTF-8 octet by octet.  A counted repetition stands for that many
copies of its body, so a short text can be very large; `maxSize` bounds it.
-/
import Waymark.Regex.Expr
import Waymark.Text.Utf8

namespace Waymark.Regex

open Waymark.Unicode

/-- The largest size that is accepted: ten mebibytes. -/
def maxSize : Nat := 10 * 1024 * 1024

/-- The size of a state. -/
def stateSize : Nat := 32

/-- The size of one more way out of a state that branches. -/
def branchSize : Nat := 4

/-- Where the range from `low` to `high` has to be cut so that its code points agree in length
and the octets after the first differing one run over all values. -/
def cutPoint? (low high : Nat) : Option Nat :=
  let lengths := [0x80, 0x800, 0xD800, 0xE000, 0x10000].filter fun n => low < n && n ≤ high
  let blocks := [64, 4096, 262144].filterMap fun block =>
    if low / block = high / block then none
    else if low % block ≠ 0 then some ((low / block + 1) * block)
    else if high % block ≠ block - 1 then some (high / block * block)
    else none
  (lengths ++ blocks).head?

/-- The range as sequences of octet ranges; at most `cuts` cuts are made one after another. -/
def utf8Sequences : Nat → Nat → Nat → List (List (Nat × Nat))
  | 0, _, _ => []
  | cuts + 1, low, high =>
    if high < low ∨ 0xD800 ≤ low ∧ high < 0xE000 then []
    else match cutPoint? low high with
      | some n => utf8Sequences cuts low (n - 1) ++ utf8Sequences cuts n high
      | none => [(Utf8.octets low).zip (Utf8.octets high)]

/-- The length of the longest common front of two lists. -/
def commonLength : List (Nat × Nat) → List (Nat × Nat) → Nat
  | a :: as, b :: bs => if a = b then commonLength as bs + 1 else 0
  | _, _ => 0

/-- The number of states for octet sequences in ascending order when common fronts are
shared; `last` is the sequence before them. -/
def sharedStates (last : List (Nat × Nat)) : List (List (Nat × Nat)) → Nat
  | [] => 0
  | sequence :: rest =>
    sequence.length - commonLength last sequence + sharedStates sequence rest

/-- Ascending ranges with those that touch put together. -/
def mergeRanges : List (Nat × Nat) → List (Nat × Nat)
  | [] => []
  | [r] => [r]
  | (low, high) :: (low', high') :: rest =>
    if low' ≤ high + 1 then mergeRanges ((low, max high high') :: rest)
    else (low, high) :: mergeRanges ((low', high') :: rest)
termination_by ranges => ranges.length

/-- The size of a set of characters. -/
def setSize (s : CodeSet) : Nat :=
  match mergeRanges ((s.ranges.filter fun r => r.1 ≤ r.2).mergeSort fun a b => a.1 ≤ b.1) with
  | [(low, high)] =>
    if low = high then (Utf8.octets low).length * stateSize
    else if high < 0x80 then 2 * stateSize + 8
    else sequencesSize (utf8Sequences 32 low high)
  | ranges =>
    if s.isAscii then 2 * stateSize + 8 * ranges.length
    else sequencesSize (ranges.flatMap fun (low, high) => utf8Sequences 32 low high)
where
  /-- The size of a branch over octet sequences. -/
  sequencesSize (sequences : List (List (Nat × Nat))) : Nat :=
    2 * stateSize + branchSize * sequences.length + stateSize * sharedStates [] sequences

/-- The size of an expression. -/
def Expr.size : Expr → Nat
  | .empty => stateSize
  | .set s => setSize s
  | .look _ => stateSize
  | .seq first second => first.size + second.size
  | .alt preferred other => preferred.size + other.size + branchSize
  | .loop least most _ body =>
    match most with
    | none => (max least 1) * body.size + 2 * stateSize
    | some most => most * body.size + (most - least) * (stateSize + 2 * branchSize) + stateSize
  | .group _ body => body.size + 2 * stateSize

end Waymark.Regex
