/-
Regular expressions with a fixed meaning.

An `Expr` no longer depends on flags: a character class is a set of code points, an
assertion one of the conditions of `Look`.  `Expr.ofTree?` settles a tree under the
flags in force, and fails where a class has no meaning or would leave the text's
characters.
-/
import Waymark.Regex.Tree
import Waymark.Unicode.Folding
import Waymark.Unicode.Property
import Waymark.Unicode.Script

namespace Waymark.Regex

open Waymark.Unicode

/-- Where words begin and end. -/
inductive WordSide
  | boundary
  | inside
  | start
  | stop
  | startHalf
  | stopHalf
  deriving Repr, DecidableEq

/-- A condition on the place between two characters. -/
inductive Look
  | textStart
  | textEnd
  | lineStart
  | lineEnd
  | lineStartCrlf
  | lineEndCrlf
  /-- A side of a word; `ascii` words are made of ASCII characters. -/
  | word (side : WordSide) (ascii : Bool)
  deriving Repr, DecidableEq

/-- A regular expression. -/
inductive Expr
  | empty
  | set (s : CodeSet)
  | look (condition : Look)
  | seq (first second : Expr)
  | alt (preferred other : Expr)
  | loop (least : Nat) (most : Option Nat) (greedy : Bool) (body : Expr)
  | group (index : Nat) (body : Expr)
  deriving Repr

/-- The switches in force at a place of an expression. -/
structure Flags where
  caseInsensitive : Bool := false
  multiLine : Bool := false
  dotMatchesNewline : Bool := false
  swapGreed : Bool := false
  unicode : Bool := true
  crlf : Bool := false
  deriving Repr, DecidableEq

namespace Flags

/-- The switches after one of them is turned on or off. -/
def set (flags : Flags) : Flag × Bool → Flags
  | (.caseInsensitive, on) => { flags with caseInsensitive := on }
  | (.multiLine, on) => { flags with multiLine := on }
  | (.dotMatchesNewline, on) => { flags with dotMatchesNewline := on }
  | (.swapGreed, on) => { flags with swapGreed := on }
  | (.unicode, on) => { flags with unicode := on }
  | (.crlf, on) => { flags with crlf := on }
  | (.ignoreWhitespace, _) => flags

/-- The switches after a flag group. -/
def apply (flags : Flags) (changes : FlagChanges) : Flags := changes.foldl set flags

end Flags

/-- The ASCII characters of a class. -/
def AsciiClass.codes : AsciiClass → CodeSet
  | .alnum => ⟨[(0x30, 0x39), (0x41, 0x5A), (0x61, 0x7A)]⟩
  | .alpha => ⟨[(0x41, 0x5A), (0x61, 0x7A)]⟩
  | .ascii => ⟨[(0x00, 0x7F)]⟩
  | .blank => ⟨[(0x09, 0x09), (0x20, 0x20)]⟩
  | .cntrl => ⟨[(0x00, 0x1F), (0x7F, 0x7F)]⟩
  | .digit => ⟨[(0x30, 0x39)]⟩
  | .graph => ⟨[(0x21, 0x7E)]⟩
  | .lower => ⟨[(0x61, 0x7A)]⟩
  | .print => ⟨[(0x20, 0x7E)]⟩
  | .punct => ⟨[(0x21, 0x2F), (0x3A, 0x40), (0x5B, 0x60), (0x7B, 0x7E)]⟩
  | .space => ⟨[(0x09, 0x0D), (0x20, 0x20)]⟩
  | .upper => ⟨[(0x41, 0x5A)]⟩
  | .word => ⟨[(0x30, 0x39), (0x41, 0x5A), (0x5F, 0x5F), (0x61, 0x7A)]⟩
  | .xdigit => ⟨[(0x30, 0x39), (0x41, 0x46), (0x61, 0x66)]⟩

/-- The characters of `\d`, `\s` or `\w`. -/
def ShortClass.codes (unicode : Bool) : ShortClass → CodeSet
  | .digit => if unicode then digits else AsciiClass.digit.codes
  | .space => if unicode then whiteSpace else AsciiClass.space.codes
  | .word => if unicode then wordCharacters else AsciiClass.word.codes

/-- The loose spelling of a name: ASCII letters in lower case, without blanks, hyphens,
underscores and a leading `is`. -/
def looseName (name : String) : String :=
  let kept (cs : List Char) : List Char :=
    (cs.filter fun c => c.toNat < 0x80 && c ≠ ' ' && c ≠ '_' && c ≠ '-').map Char.toLower
  match name.toList with
  | i :: s :: rest =>
    if i.toLower = 'i' && s.toLower = 's' then
      if kept rest = ['c'] then "isc" else String.ofList (kept rest)
    else String.ofList (kept (i :: s :: rest))
  | cs => String.ofList (kept cs)

/-- The code points that a property query asks for.  Ages and the boundary properties of grapheme
clusters, words and sentences are left out: a query for one of these has no meaning here. -/
def PropertyQuery.codes? : PropertyQuery → Option CodeSet
  | .named name =>
    let name := looseName name
    property? name <|> category? name <|> script? name
  | .valued name value =>
    match looseName name with
    | "gc" | "generalcategory" => category? (looseName value)
    | "sc" | "script" => script? (looseName value)
    | "scx" | "scriptextensions" => scriptExtension? (looseName value)
    | _ => none

/-- The code points that differ from a member of the set at most in case. -/
def foldClosure (s : CodeSet) : CodeSet :=
  let sources := foldRuns.flatMap fun r =>
    (List.range ((r.last - r.first) / r.step + 1)).map fun k => r.first + k * r.step
  let met := sources.filter fun n => s.contains n || s.contains (foldCode n)
  s.union (CodeSet.ofChars (met.flatMap fun n => caseClass (Char.ofNat n)))

/-- The set under case-insensitive matching; outside Unicode mode only ASCII letters have a
case. -/
def foldSet (flags : Flags) (s : CodeSet) : CodeSet :=
  if !flags.caseInsensitive then s
  else if flags.unicode then foldClosure s
  else s.union ((foldClosure (s.inter AsciiClass.alpha.codes)).inter AsciiClass.ascii.codes)

/-- The set or what is outside of it.  Outside Unicode mode a set is one of octets, and those
above ASCII may not be left in it. -/
def orient? (flags : Flags) (negated : Bool) (s : CodeSet) : Option CodeSet :=
  if flags.unicode then some (if negated then s.complement else s)
  else
    let s := if negated then (CodeSet.range 0 0xFF).difference s else s
    if s.isAscii then some s else none

/-- The code point of a literal inside a class; outside Unicode mode only ASCII may stand there,
even where the octets above it are taken out again. -/
def Literal.code? (flags : Flags) (l : Literal) : Option Nat :=
  if flags.unicode || l.char.toNat < 0x80 then some l.char.toNat else none

/-- The characters of a `\p` class. -/
def PropertyQuery.set? (flags : Flags) (query : PropertyQuery) (negated : Bool) :
    Option CodeSet := do
  if flags.unicode then orient? flags negated (foldSet flags (← query.codes?)) else none

/-- The set that an operation makes of two sets. -/
def ClassOperation.apply : ClassOperation → CodeSet → CodeSet → CodeSet
  | .intersection => CodeSet.inter
  | .difference => CodeSet.difference
  | .symmetricDifference => CodeSet.symmetricDifference

mutual

/-- The characters of a member of a class. -/
def ClassItem.set? (flags : Flags) : ClassItem → Option CodeSet
  | .literal l => (l.code? flags).map CodeSet.single
  | .range low high => do some (CodeSet.range (← low.code? flags) (← high.code? flags))
  | .ascii kind negated => orient? flags negated (foldSet flags kind.codes)
  | .short kind negated => orient? flags negated (kind.codes flags.unicode)
  | .property query negated => query.set? flags negated
  | .bracketed negated body => do orient? flags negated (foldSet flags (← body.set? flags))

/-- The characters of the text between brackets, before case and negation of the brackets. -/
def ClassBody.set? (flags : Flags) : ClassBody → Option CodeSet
  | .union items => ClassItem.sets? flags items
  | .operation kind left right => do
    some (kind.apply (foldSet flags (← left.set? flags)) (foldSet flags (← right.set? flags)))

/-- The characters of some member of a list. -/
def ClassItem.sets? (flags : Flags) : List ClassItem → Option CodeSet
  | [] => some CodeSet.empty
  | item :: rest => do some ((← item.set? flags).union (← ClassItem.sets? flags rest))

end

/-- The expression for one character. -/
def Literal.expr? (flags : Flags) (l : Literal) : Option Expr :=
  if !flags.unicode && l.isByte && l.char.toNat ≥ 0x80 then none
  else if flags.caseInsensitive && (flags.unicode || l.char.toNat < 0x80) then
    some (.set (foldSet flags (CodeSet.ofChar l.char)))
  else some (.set (CodeSet.ofChar l.char))

/-- The characters that a dot stands for. -/
def dotSet? (flags : Flags) : Option CodeSet :=
  if !flags.unicode then none
  else if flags.dotMatchesNewline then some CodeSet.all
  else if flags.crlf then some (CodeSet.ofChars ['\n', '\r']).complement
  else some (CodeSet.ofChar '\n').complement

/-- The condition that an assertion states. -/
def Assertion.look (flags : Flags) : Assertion → Look
  | .startLine =>
    if !flags.multiLine then .textStart else if flags.crlf then .lineStartCrlf else .lineStart
  | .endLine =>
    if !flags.multiLine then .textEnd else if flags.crlf then .lineEndCrlf else .lineEnd
  | .startText => .textStart
  | .endText => .textEnd
  | .wordBoundary => .word .boundary !flags.unicode
  | .notWordBoundary => .word .inside !flags.unicode
  | .wordStart => .word .start !flags.unicode
  | .wordEnd => .word .stop !flags.unicode
  | .wordStartHalf => .word .startHalf !flags.unicode
  | .wordEndHalf => .word .stopHalf !flags.unicode

/-- Whether the expression is so built that it consumes nothing. -/
def Expr.consumesNothing : Expr → Bool
  | .empty => true
  | .look _ => true
  | .set _ => false
  | .seq first second => first.consumesNothing && second.consumesNothing
  | .alt preferred other => preferred.consumesNothing && other.consumesNothing
  | .loop _ _ _ body => body.consumesNothing
  | .group _ body => body.consumesNothing

/-- A repetition.  What consumes nothing is not repeated, and no repetition at all leaves
nothing of the body, groups included. -/
def Expr.repeated (least : Nat) (most : Option Nat) (greedy : Bool) (body : Expr) : Expr :=
  let idle := body.consumesNothing
  let least := if idle then min least 1 else least
  let most := if idle then some ((most.map (min 1)).getD 1) else most
  if most = some 0 then .empty
  else if least = 1 ∧ most = some 1 then body
  else .loop least most greedy body

mutual

/-- The expression that a tree stands for under the given flags, and the flags after it. -/
def Expr.ofTree? (flags : Flags) : Tree → Option (Expr × Flags)
  | .empty => some (.empty, flags)
  | .flags changes => some (.empty, flags.apply changes)
  | .literal l => do some (← l.expr? flags, flags)
  | .dot => do some (.set (← dotSet? flags), flags)
  | .assertion kind => some (.look (kind.look flags), flags)
  | .short kind negated => do
    some (.set (← orient? flags negated (kind.codes flags.unicode)), flags)
  | .property query negated => do some (.set (← query.set? flags negated), flags)
  | .bracketed negated body => do
    some (.set (← orient? flags negated (foldSet flags (← body.set? flags))), flags)
  | .repetition least most greedy sub => do
    let (body, after) ← Expr.ofTree? flags sub
    some (.repeated least most (greedy != after.swapGreed) body, after)
  | .group index changes sub => do
    let (body, _) ← Expr.ofTree? (flags.apply changes) sub
    match index with
    | some index => some (.group index body, flags)
    | none => some (body, flags)
  | .alternation branches => Expr.anyOf? flags branches
  | .concat parts => Expr.allOf? flags parts

/-- The expressions of a sequence one after the other. -/
def Expr.allOf? (flags : Flags) : List Tree → Option (Expr × Flags)
  | [] => some (.empty, flags)
  | tree :: rest => do
    let (first, flags) ← Expr.ofTree? flags tree
    let (second, flags) ← Expr.allOf? flags rest
    some (.seq first second, flags)

/-- The branches of an alternation, the first one preferred. -/
def Expr.anyOf? (flags : Flags) : List Tree → Option (Expr × Flags)
  | [] => some (.set CodeSet.empty, flags)
  | tree :: rest => do
    let (preferred, flags) ← Expr.ofTree? flags tree
    let (other, flags) ← Expr.anyOf? flags rest
    some (.alt preferred other, flags)

end

/-- The largest number of a group in the expression. -/
def Expr.lastGroup : Expr → Nat
  | .empty => 0
  | .set _ => 0
  | .look _ => 0
  | .seq first second => max first.lastGroup second.lastGroup
  | .alt preferred other => max preferred.lastGroup other.lastGroup
  | .loop _ _ _ body => body.lastGroup
  | .group index body => max index body.lastGroup

end Waymark.Regex
