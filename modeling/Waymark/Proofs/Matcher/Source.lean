/-
The expression of a pattern.

The text that a pattern is turned into is put together from pieces; each piece denotes
the expressions for its part of the pattern:

* `denotes_value` — the value of a param, given the expression for one of its segments;
* `denotes_param`, `denotes_slots` — the segments of a pattern, given the expressions for the values;
* `ofSource?_source`, `expr_of_fills` — the whole text, with its anchors and its ending;
* `expr_of_stands`, `expr_of_source` — the same given the expressions for segments, or for params
  without constraints.
-/
import Waymark.Proofs.Matcher.Backtrack
import Waymark.Proofs.Regex.Denotation

namespace Waymark.Recognizer

open Regex

variable {ci : Bool} {index : Nat} {tokens : List Token} {p : Param}

/-! ### Characters -/

theorem settles_letter (ci : Bool) (c : Char) :
    Settles (flags ci) (.literal ⟨c, false⟩) (.set (letter ci c)) := by
  cases ci <;> rfl

theorem settles_inner (ci : Bool) :
    Settles (flags ci) (.bracketed true (.union [.literal ⟨'/', false⟩])) (.set (inner ci)) := by
  cases ci <;> rfl

theorem denotes_slash : Denotes (flags ci) index ['/'] [slash ci] 0 :=
  ⟨_, (adds_of_not_isMeta (by decide)).writes, .cons (settles_letter ci '/') .nil⟩

theorem adds_bracket :
    Adds "[^/]".toList (.bracketed true (.union [.literal ⟨'/', false⟩])) := by
  intro r rest plain
  have bracket : readBracket false ('^' :: '/' :: ']' :: rest) =
      some (true, .union [.literal ⟨'/', false⟩], rest) := by
    have start : readClassStart false ('^' :: '/' :: ']' :: rest) =
        some (true, [], '/' :: ']' :: rest) := by
      rw [readClassStart]
      simp [skipBlank?, skipBlank, readLeadingHyphens]
    have member : readClassMember false ('/' :: ']' :: rest) =
        some (.literal ⟨'/', false⟩, ']' :: rest) := by
      simp [readClassMember, readClassAtom, skipBlank?, skipBlank, Escape.classItem?]
    have close : readClassMembers false [] true [.literal ⟨'/', false⟩] (']' :: rest) =
        some (true, .union [.literal ⟨'/', false⟩], rest) := by
      rw [readClassMembers]
      simp [skipBlank, closeOperation]
    rw [readBracket, start]
    show readClassMembers false [] true [] ('/' :: ']' :: rest) = _
    rw [readClassMembers]
    simp [skipBlank, member, close]
  refine readAll_cons plain (?_ : readConstruct r '[' _ = some (_, rest)) ?_
  · show (readBracket r.extended _).map _ = _
    rw [plain]
    show (readBracket false ('^' :: '/' :: ']' :: rest)).map _ = _
    rw [bracket]
    rfl
  · exact Nat.le_add_right _ 3

theorem denotes_anySegment : Denotes (flags ci) index anySegment.toList [segment ci] 0 := by
  refine ⟨_, writes_marked (c := '+') rfl adds_bracket ⟨by simp, by simp⟩, .cons ?_ .nil⟩
  exact settles_repetition rfl (c := '+') rfl rfl (settles_inner ci)

/-! ### Params -/

/-- The expressions for the value of a param, of which `e` is for one segment. -/
def valueParts (ci : Bool) (e : Expr) (p : Param) : List Expr :=
  if p.repeatable then [e, .loop 0 none true (.inSequence [slash ci, e])] else [e]

/-- The expressions for a param, of which `e` is for the value that goes to the group with a
number. -/
def slotParts (ci : Bool) (e : Expr) (index : Nat) (p : Param) : List Expr :=
  let captured := [slash ci, .group index e]
  if p.optional then [.loop 0 (some 1) true (.inSequence captured)] else captured

/-- The expressions for a param, of which `e` is for one segment. -/
def paramPartsOf (ci : Bool) (e : Expr) (index : Nat) (p : Param) : List Expr :=
  slotParts ci (.gathered (valueParts ci e p)) index p

/-- What is written for one segment of the param stands for the expression. -/
def Stands (ci : Bool) (p : Param) (e : Expr) : Prop :=
  ∀ index, Denotes (flags ci) index
    ('(' :: '?' :: ':' :: ((p.constraint.getD anySegment).toList ++ [')'])) [e] 0

theorem stands_segment (free : p.constraint = none) : Stands ci p (segment ci) := by
  intro index
  rw [free]
  exact denotes_anySegment.group

theorem paramPartsOf_segment (ci : Bool) (index : Nat) (p : Param) :
    paramPartsOf ci (segment ci) index p = paramParts ci index p := by
  have same : Expr.gathered (valueParts ci (segment ci) p) = value ci p := by
    unfold valueParts value
    split <;> rfl
  simp only [paramPartsOf, slotParts, paramParts, same]

/-- The trees for the value of a param, of which one is for a segment. -/
def valueTrees (tree : Tree) (p : Param) : List Tree :=
  if p.repeatable then
    [tree, .repetition 0 none true (.group none [] (.inSequence [.literal ⟨'/', false⟩, tree]))]
  else [tree]

theorem writes_value {tree : Tree} (h : Writes index
      ('(' :: '?' :: ':' :: ((p.constraint.getD anySegment).toList ++ [')'])) [tree] 0) :
    Writes index (ofValue p).toList (valueTrees tree p) 0 := by
  have slash : Writes index ['/'] [.literal ⟨'/', false⟩] 0 :=
    (adds_of_not_isMeta (by decide)).writes
  have others := writes_repeated (c := '*') rfl (writes_append slash h (by simp))
  unfold ofValue valueTrees
  split
  · simpa [String.toList_append] using writes_append h others (by simp)
  · simpa [String.toList_append] using h

theorem settles_value {tree : Tree} {e : Expr} (h : Settles (flags ci) tree e) :
    List.Forall₂ (Settles (flags ci)) (valueTrees tree p) (valueParts ci e p) := by
  have consuming := @consumesNothing_gathered (slash ci) [slash ci, e] List.mem_cons_self rfl
  have round := settles_group (settles_inSequence (.cons (settles_letter ci '/') (.cons h .nil)))
  have others := settles_repetition rfl (c := '*') rfl consuming round
  unfold valueTrees valueParts
  split
  · exact .cons h (.cons others .nil)
  · exact .cons h .nil

theorem denotes_value {e : Expr} (stands : Stands ci p e) :
    Denotes (flags ci) index (ofValue p).toList (valueParts ci e p) 0 := by
  obtain ⟨trees, writes, settles⟩ := stands index
  cases settles with
  | cons settles others =>
    cases others
    exact ⟨_, writes_value writes, settles_value settles⟩

/-- What is written for the value of the param, in parentheses, stands for a group with the
expression. -/
def Fills (ci : Bool) (p : Param) (e : Expr) : Prop :=
  ∀ index, Denotes (flags ci) index ('(' :: ((ofValue p).toList ++ [')'])) [.group index e] 1

/-- A question mark behind the parenthesis would make another kind of group. -/
theorem head_ofValue (p : Param) : (ofValue p).toList.head? ≠ some '?' := by
  rw [ofValue]
  split <;> simp [String.toList_append]

theorem fills_of_stands {e : Expr} (stands : Stands ci p e) :
    Fills ci p (.gathered (valueParts ci e p)) := fun _ =>
  (denotes_value stands).capture (head_ofValue p)

theorem denotes_param {e : Expr} (fills : Fills ci p e) :
    Denotes (flags ci) index (ofParam p).toList (slotParts ci e index p) 1 := by
  have captured : Denotes (flags ci) index ('/' :: '(' :: ((ofValue p).toList ++ [')']))
      [slash ci, .group index e] 1 := denotes_slash.append (fills index) (by simp)
  unfold ofParam slotParts
  split
  · have optional : Denotes (flags ci) index
        ('(' :: '?' :: ':' :: ('/' :: '(' :: ((ofValue p).toList ++ [')']) ++ [')', '?']))
        [.loop 0 (some 1) true (.inSequence [slash ci, .group index e])] 1 :=
      captured.repeated rfl rfl List.mem_cons_self rfl
    simpa [String.toList_append] using optional
  · simpa [String.toList_append] using captured

/-! ### Tokens -/

theorem denotes_literal (text : String) :
    Denotes (flags ci) index (ofLiteral text).toList
      (slash ci :: literalParts ci text.toList) 0 := by
  have letters := @denotes_quoted (flags ci) index _ (settles_letter ci) text.toList
  have whole := denotes_slash.append letters (head_quoted text.toList)
  show Denotes _ _ ("/" ++ String.ofList (quoted text.toList)).toList _ _
  rw [String.toList_append, String.toList_ofList, String.toList_ofList]
  exact whole

theorem ofTokens_cons (token : Token) (tokens : List Token) :
    ofTokens (token :: tokens) = ofToken token ++ ofTokens tokens := by
  rw [ofTokens, List.map_cons, String.join_cons]
  rfl

/-- The text of a token begins with a slash or a parenthesis. -/
theorem head_ofToken (token : Token) : ∃ c cs, (ofToken token).toList = c :: cs ∧ c ≠ '?' := by
  cases token with
  | literal text => exact ⟨'/', _, by rw [ofToken, ofLiteral, String.toList_append]; rfl, by decide⟩
  | param p =>
    rw [ofToken, ofParam]
    split
    · exact ⟨'(', _, by rw [String.toList_append, String.toList_append]; rfl, by decide⟩
    · exact ⟨'/', _, by rw [String.toList_append, String.toList_append]; rfl, by decide⟩

theorem head_ofTokens (tokens : List Token) : (ofTokens tokens).toList.head? ≠ some '?' := by
  cases tokens with
  | nil => simp [ofTokens]
  | cons token tokens =>
    obtain ⟨c, cs, isText, other⟩ := head_ofToken token
    rw [ofTokens_cons, String.toList_append, isText]
    simpa using other

theorem isEmpty_ofTokens (tokens : List Token) : (ofTokens tokens).isEmpty = tokens.isEmpty := by
  cases tokens with
  | nil => rfl
  | cons token tokens =>
    obtain ⟨c, cs, isText, -⟩ := head_ofToken token
    rw [List.isEmpty_cons, Bool.eq_false_iff, ne_eq, String.isEmpty_iff, ← String.toList_inj,
      ofTokens_cons, String.toList_append, isText]
    simp

/-- The expressions for tokens, given the one for a segment of each param. -/
def partsOf (ci : Bool) (base : Param → Expr) : Nat → List Token → List Expr
  | _, [] => []
  | index, .literal text :: rest =>
    slash ci :: (literalParts ci text.toList ++ partsOf ci base index rest)
  | index, .param p :: rest =>
    paramPartsOf ci (base p) index p ++ partsOf ci base (index + 1) rest

theorem partsOf_segment (ci : Bool) (index : Nat) (tokens : List Token) :
    partsOf ci (fun _ => segment ci) index tokens = tokensParts ci index tokens := by
  induction tokens generalizing index with
  | nil => rfl
  | cons token tokens ih =>
    cases token with
    | literal text => rw [partsOf, tokensParts, ih]
    | param p => rw [partsOf, tokensParts, ih, paramPartsOf_segment]

/-- The expressions for tokens, given the one for the value of each param. -/
def slotsOf (ci : Bool) (value : Param → Expr) : Nat → List Token → List Expr
  | _, [] => []
  | index, .literal text :: rest =>
    slash ci :: (literalParts ci text.toList ++ slotsOf ci value index rest)
  | index, .param p :: rest => slotParts ci (value p) index p ++ slotsOf ci value (index + 1) rest

theorem partsOf_eq_slotsOf (ci : Bool) (base : Param → Expr) (index : Nat) (tokens : List Token) :
    partsOf ci base index tokens =
      slotsOf ci (fun p => .gathered (valueParts ci (base p) p)) index tokens := by
  induction tokens generalizing index with
  | nil => rfl
  | cons token tokens ih =>
    cases token with
    | literal text => rw [partsOf, slotsOf, ih]
    | param p => rw [partsOf, slotsOf, ih, paramPartsOf]

theorem denotes_slots {value : Param → Expr}
    (fills : ∀ p ∈ Pattern.params tokens, Fills ci p (value p)) :
    Denotes (flags ci) index (ofTokens tokens).toList (slotsOf ci value index tokens)
      (Pattern.params tokens).length := by
  induction tokens generalizing index with
  | nil => exact denotes_nil
  | cons token tokens ih =>
    rw [ofTokens_cons, String.toList_append]
    cases token with
    | literal text =>
      have others := @ih index fills
      have whole := (denotes_literal text).append others (head_ofTokens tokens)
      rw [Nat.zero_add] at whole
      exact whole
    | param p =>
      have others := @ih (index + 1) fun q member => fills q (List.mem_cons_of_mem _ member)
      have whole := (denotes_param (fills p List.mem_cons_self)).append others
        (head_ofTokens tokens)
      rw [Nat.add_comm 1 (Pattern.params tokens).length] at whole
      exact whole

theorem denotes_tokens {base : Param → Expr}
    (stands : ∀ p ∈ Pattern.params tokens, Stands ci p (base p)) :
    Denotes (flags ci) index (ofTokens tokens).toList (partsOf ci base index tokens)
      (Pattern.params tokens).length := by
  rw [partsOf_eq_slotsOf]
  exact denotes_slots fun p member => fills_of_stands (stands p member)

/-! ### Whole patterns -/

/-- What may follow the segments of a path. -/
inductive Ending
  /-- A slash. -/
  | slash
  /-- A slash or nothing. -/
  | optional
  /-- Nothing. -/
  | nothing

/-- What may follow the segments of a pattern. -/
def ending (tokens : List Token) (strict trailingSlash : Bool) : Ending :=
  if tokens.isEmpty || trailingSlash then .slash else if strict then .nothing else .optional

/-- The text for what may follow the segments. -/
def Ending.text : Ending → String
  | .slash => "/"
  | .optional => "/?"
  | .nothing => ""

/-- The expressions for what may follow the segments. -/
def Ending.parts (ci : Bool) : Ending → List Expr
  | .slash => [Recognizer.slash ci]
  | .optional => [.loop 0 (some 1) true (Recognizer.slash ci)]
  | .nothing => []

theorem denotes_ending (ending : Ending) :
    Denotes (flags ci) index ending.text.toList (ending.parts ci) 0 := by
  cases ending with
  | slash => exact denotes_slash
  | nothing => exact denotes_nil
  | optional =>
    have adds : Adds ['/'] (.literal ⟨'/', false⟩) := adds_of_not_isMeta (by decide)
    refine ⟨_, writes_marked (c := '?') rfl adds ⟨by simp, by simp⟩, .cons ?_ .nil⟩
    exact settles_repetition rfl (c := '?') rfl rfl (settles_letter ci '/')

/-- The expressions for a whole path, given those for its segments. -/
def framed (ci : Bool) (parts : List Expr) (ending : Ending) : List Expr :=
  .look .textStart :: (parts ++ (ending.parts ci ++ [.look .textEnd]))

/-- The expressions for a pattern whose params have no constraints. -/
def wholeParts (ci : Bool) (tokens : List Token) (ending : Ending) : List Expr :=
  framed ci (tokensParts ci 1 tokens) ending

theorem source_eq (tokens : List Token) (options : PatternOptions) (trailingSlash : Bool) :
    (source tokens options trailingSlash).toList = caseMark options.caseInsensitive ++
      '^' :: ((ofTokens tokens).toList ++
        ((ending tokens options.strict trailingSlash).text.toList ++ ['$'])) := by
  have mark : (if options.caseInsensitive then "(?i)" else "").toList =
      caseMark options.caseInsensitive := by
    rw [caseMark]
    cases options.caseInsensitive <;> rfl
  have isEnding : (if tokens.isEmpty || trailingSlash then "/"
      else if options.strict then "" else "/?") =
      (ending tokens options.strict trailingSlash).text := by
    rw [ending]
    cases (tokens.isEmpty || trailingSlash) <;> cases options.strict <;> rfl
  simp only [source, isEmpty_ofTokens, isEnding, String.toList_append, mark, List.append_assoc]
  rfl

/-- The text for a whole pattern is accepted if its tree does not nest too deeply and its expression
is not too large. -/
theorem ofSource?_source {options : PatternOptions} {trailingSlash : Bool} {parts : List Expr}
    {trees last : List Tree} {opened : Nat} {ending : Ending}
    (isEnding : Recognizer.ending tokens options.strict trailingSlash = ending)
    (body : Writes 1 (ofTokens tokens).toList trees opened)
    (settles : List.Forall₂ (Settles (flags options.caseInsensitive)) trees parts)
    (atEnd : Writes (1 + opened) ending.text.toList last 0)
    (settlesEnd : List.Forall₂ (Settles (flags options.caseInsensitive)) last
      (ending.parts options.caseInsensitive)) :
    let e := Expr.inSequence ((if options.caseInsensitive then [.empty] else []) ++
      framed options.caseInsensitive parts ending)
    Regex.ofSource? (source tokens options trailingSlash) =
      if (Tree.concat (markTrees options.caseInsensitive ++
          .assertion .startLine :: (trees ++ (last ++ [.assertion .endLine])))).depth ≤ maxDepth ∧
        e.size ≤ maxSize then
        some ⟨source tokens options trailingSlash, e⟩ else none := by
  have start : Writes 1 ['^'] [.assertion .startLine] 0 := (adds_singleton fun _ _ => rfl).writes
  have stop : Writes (1 + opened + 0) ['$'] [.assertion .endLine] 0 :=
    (adds_singleton fun _ _ => rfl).writes
  have settleStart : Settles (flags options.caseInsensitive) (.assertion .startLine)
    (.look .textStart) := rfl
  have settleStop : Settles (flags options.caseInsensitive) (.assertion .endLine)
    (.look .textEnd) := rfl
  have tail : (ending.text.toList ++ ['$']).head? ≠ some '?' := by
    cases ending <;> simp [Ending.text]
  have writes := writes_append start
    (writes_append body (writes_append atEnd stop (by simp)) tail)
    (head?_append_ne (head_ofTokens tokens) tail)
  have whole := List.Forall₂.cons settleStart (List.rel_append settles
    (List.rel_append settlesEnd (.cons settleStop .nil)))
  have isSource := source_eq tokens options trailingSlash
  rw [isEnding] at isSource
  exact ofSource?_of_writes isSource writes whole (by simp; omega)

/-- The expression of a pattern, given the one for the value of each param. -/
theorem expr_of_fills {options : PatternOptions} {trailingSlash : Bool} {r : Regex}
    {value : Param → Expr}
    (fills : ∀ p ∈ Pattern.params tokens, Fills options.caseInsensitive p (value p))
    (h : Regex.ofSource? (source tokens options trailingSlash) = some r) :
    r.expr = .inSequence ((if options.caseInsensitive then [.empty] else []) ++
      framed options.caseInsensitive (slotsOf options.caseInsensitive value 1 tokens)
        (ending tokens options.strict trailingSlash)) := by
  obtain ⟨trees, writes, settles⟩ := @denotes_slots _ 1 tokens value fills
  obtain ⟨last, atEnd, settlesEnd⟩ := @denotes_ending options.caseInsensitive
    (1 + (Pattern.params tokens).length) (ending tokens options.strict trailingSlash)
  rw [ofSource?_source rfl writes settles atEnd settlesEnd, Option.ite_none_right_eq_some] at h
  rw [← Option.some.inj h.2]

/-- The expression of a pattern, given the one for a segment of each param. -/
theorem expr_of_stands {options : PatternOptions} {trailingSlash : Bool} {r : Regex}
    {base : Param → Expr}
    (stands : ∀ p ∈ Pattern.params tokens, Stands options.caseInsensitive p (base p))
    (h : Regex.ofSource? (source tokens options trailingSlash) = some r) :
    r.expr = .inSequence ((if options.caseInsensitive then [.empty] else []) ++
      framed options.caseInsensitive (partsOf options.caseInsensitive base 1 tokens)
        (ending tokens options.strict trailingSlash)) := by
  rw [partsOf_eq_slotsOf]
  exact expr_of_fills (fun p member => fills_of_stands (stands p member)) h

/-- The expression of a pattern whose params have no constraints. -/
theorem expr_of_source {options : PatternOptions} {trailingSlash : Bool} {r : Regex}
    (free : ∀ p ∈ Pattern.params tokens, p.constraint = none)
    (h : Regex.ofSource? (source tokens options trailingSlash) = some r) :
    r.expr = .inSequence ((if options.caseInsensitive then [.empty] else []) ++
      wholeParts options.caseInsensitive tokens (ending tokens options.strict trailingSlash)) := by
  have whole := expr_of_stands (fun p member => stands_segment (free p member)) h
  rw [partsOf_segment] at whole
  exact whole

end Waymark.Recognizer
