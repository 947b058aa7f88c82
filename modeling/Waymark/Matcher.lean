/-
Patterns that match paths and build them.

A matcher is a tokenized pattern with its recognizer, an anchored regular expression
with one capturing group for each param.  `Matcher.recognize` tests a path and reads
its params; `Matcher.build` makes the path of given params.
-/
import Waymark.Params
import Waymark.Pattern.Tokenize
import Waymark.Regex.Basic
import Waymark.Score
import Waymark.Text.Percent
import Waymark.Text.Path

namespace Waymark

/-- How a pattern is matched. -/
structure PatternOptions where
  caseInsensitive : Bool := false
  /-- A slash at the end of the pattern counts, and paths may not have another one. -/
  strict : Bool := false
  deriving Repr, DecidableEq

/-- What matters of a param outside of its pattern. -/
structure ParamKey where
  name : String
  optional : Bool
  repeatable : Bool
  deriving Repr, DecidableEq

/-- The key of a param. -/
def Param.key (p : Param) : ParamKey := ⟨p.name, p.optional, p.repeatable⟩

/-- A pattern ready to match. -/
structure Matcher where
  tokens : List Token
  /-- The paths end with a slash. -/
  trailingSlash : Bool
  recognizer : Regex
  /-- The params whose constraint lets the empty text through. -/
  emptyCapable : List String

namespace Recognizer

/-- The expression for the value of a param without a constraint. -/
def anySegment : String := "[^/]+"

/-- The expression for a segment with literal text. -/
def ofLiteral (text : String) : String := "/" ++ String.ofList (Regex.quoted text.toList)

/-- The expression for the value of a param. -/
def ofValue (p : Param) : String :=
  let base := p.constraint.getD anySegment
  if p.repeatable then "(?:" ++ base ++ ")(?:/(?:" ++ base ++ "))*" else "(?:" ++ base ++ ")"

/-- The expression for the segment of a param, which captures the value. -/
def ofParam (p : Param) : String :=
  if p.optional then "(?:/(" ++ ofValue p ++ "))?" else "/(" ++ ofValue p ++ ")"

/-- The expression for a segment. -/
def ofToken : Token → String
  | .literal text => ofLiteral text
  | .param p => ofParam p

/-- The expression for the segments of a pattern. -/
def ofTokens (tokens : List Token) : String := String.join (tokens.map ofToken)

/-- The expression for a whole path. -/
def source (tokens : List Token) (options : PatternOptions) (trailingSlash : Bool) : String :=
  let body := ofTokens tokens
  let ending :=
    if body.isEmpty || trailingSlash then "/" else if options.strict then "" else "/?"
  (if options.caseInsensitive then "(?i)" else "") ++ "^" ++ body ++ ending ++ "$"

/-- The expression by which a constraint is tested on its own. -/
def probe (constraint : String) : String := "^(?:" ++ constraint ++ ")$"

end Recognizer

namespace Matcher

/-- The text of a pattern from its tokens. -/
def patternOf (tokens : List Token) (trailingSlash : Bool) : String :=
  Pattern.print tokens ++ if trailingSlash then "/" else ""

/-- Tests the constraint of a param: whether it lets the empty text through. -/
def probe (p : Param) : Except PatternFault Bool :=
  match p.constraint with
  | none => .ok false
  | some constraint =>
    match Regex.ofSource? (Recognizer.probe constraint) with
    | none => .error (.badConstraint p.name)
    | some regex =>
      if regex.hasGroup then .error (.capturingConstraint p.name) else .ok (regex.isMatch "")

/-- Tests the constraints of all params: which params may be empty. -/
def probeAll : List Param → Except PatternFault (List String)
  | [] => .ok []
  | p :: rest =>
    match probe p with
    | .error fault => .error fault
    | .ok capable => (probeAll rest).map fun names => if capable then p.name :: names else names

/-- The matcher for given tokens. -/
def ofTokens (tokens : List Token) (options : PatternOptions) (trailingSlash : Bool) :
    Except DefinitionError Matcher :=
  let invalid := DefinitionError.invalidPattern (patternOf tokens trailingSlash)
  match probeAll (Pattern.params tokens) with
  | .error fault => .error (invalid fault)
  | .ok emptyCapable =>
    match Regex.ofSource? (Recognizer.source tokens options trailingSlash) with
    | none => .error (invalid .badRecognizer)
    | some recognizer => .ok { tokens, trailingSlash, recognizer, emptyCapable }

/-- Whether a pattern says that its paths end with a slash. -/
def endsWithSlash (pattern : String) : Bool := pattern.toList.getLast? = some '/'

/-- The matcher for a pattern. -/
def ofPattern (pattern : String) (options : PatternOptions) : Except DefinitionError Matcher :=
  match Pattern.tokenize pattern with
  | .error error => .error error
  | .ok tokens =>
    ofTokens tokens options (options.strict && !tokens.isEmpty && endsWithSlash pattern)

/-- The pattern in its normal form. -/
def pattern (m : Matcher) : String := patternOf m.tokens m.trailingSlash

/-- The keys of the params, in the order of the groups that capture them. -/
def keys (m : Matcher) : List ParamKey := (Pattern.params m.tokens).map Param.key

/-- How specific the pattern is. -/
def score (m : Matcher) : Score := Score.ofTokens m.tokens

/-- Whether the pattern has a param of the name. -/
def declares (m : Matcher) (name : String) : Bool := m.keys.any (·.name = name)

/-- Whether a path matches. -/
def isMatch (m : Matcher) (path : String) : Bool := m.recognizer.isMatch path

/-- The value that a captured text stands for. -/
def readValue (repeatable : Bool) (raw : List Char) : ParamValue :=
  if repeatable then
    .list ((Path.segments raw).map fun piece => String.ofList (Percent.decode piece))
  else .single (String.ofList (Percent.decode raw))

/-- Adds the params whose groups are numbered from `index` on.  An optional param that captured
nothing is left out. -/
def readParams (hit : Regex.Point) : Nat → List ParamKey → Params → Params
  | _, [], params => params
  | index, key :: keys, params =>
    match hit.group? index with
    | none => readParams hit (index + 1) keys params
    | some raw =>
      if raw.isEmpty && key.optional then readParams hit (index + 1) keys params
      else
        readParams hit (index + 1) keys (params.insert key.name (readValue key.repeatable raw))

/-- The params of a path, if the path matches. -/
def recognize (m : Matcher) (path : String) : Option Params :=
  (m.recognizer.find? path).map fun hit => readParams hit 1 m.keys []

/-- The percent-encoded form of a text. -/
def encodeText (text : String) : String := String.ofList (Percent.encode text.toList)

/-- The segment that a param makes of its value; `none` if it drops out. -/
def buildParam (m : Matcher) (params : Params) (p : Param) :
    Except BuildError (Option String) :=
  match params.get? p.name with
  | none => if p.optional then .ok none else .error (.missingParam p.name m.pattern)
  | some value =>
    if value.isEmpty then
      if p.optional then .ok none
      else if m.emptyCapable.contains p.name then .ok (some "")
      else .error (.missingParam p.name m.pattern)
    else
      match value with
      | .single text => .ok (some (encodeText text))
      | .list texts =>
        if p.repeatable then
          .ok (some ("/".intercalate ((texts.filter (!·.isEmpty)).map encodeText)))
        else .error (.unexpectedList p.name m.pattern)

/-- The segment that a token makes; `none` if it drops out. -/
def buildToken (m : Matcher) (params : Params) : Token → Except BuildError (Option String)
  | .literal text => .ok (some text)
  | .param p => m.buildParam params p

/-- The segments that tokens make. -/
def buildSegments (m : Matcher) (params : Params) : List Token → Except BuildError (List String)
  | [] => .ok []
  | token :: rest =>
    match m.buildToken params token with
    | .error error => .error error
    | .ok none => m.buildSegments params rest
    | .ok (some segment) => (m.buildSegments params rest).map (segment :: ·)

/-- The path of given params. -/
def build (m : Matcher) (params : Params) : Except BuildError String :=
  (m.buildSegments params m.tokens).map fun segments =>
    let path := "/" ++ "/".intercalate segments
    if m.trailingSlash && path ≠ "/" then path ++ "/" else path

end Matcher

end Waymark
