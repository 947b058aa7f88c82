/-
The groups of a recognizer and the params of its pattern.

What is written for the value of a param stands in parentheses.  If that is read by itself as one
capturing group with no other one inside (`Param.Contained`), it is read so in the whole text too.
The recognizer has the groups of the params then and no others, numbered in the order of the keys,
and what they captured of a path are the values in their places (`Recognizer.Tiles`).
A constraint may close the group that is put around it and open another one.  But it must not
write a capturing group, not even one that is taken no times at all and so escapes the test; and a
repeatable one must not turn on the extended mode in which its text, when it stands there once more,
would have another meaning.

* `contained_of_free`, `contained_of_enclosed` — params without a constraint, or with one that keeps
  to its own group;
* `exists_fills` — the expression for the value of a param;
* `tiles_of_passes` — what a match of the tokens captures, and where;
* `groups_of_params` — the groups of a recognizer.
-/
import Waymark.Proofs.Matcher.Captures

namespace Waymark

open Regex Regex.Point Recognizer

/-- The value of the param, in parentheses, is read as a capturing group with no other one inside,
and it stands for an expression. -/
def Param.Contained (p : Param) : Prop :=
  ∃ tree, Regex.Contained (ofValue p).toList tree ∧ (Expr.ofTree? {} tree).isSome = true

namespace Regex

variable {f f' : Flags} {tree : Tree} {e : Expr} {cs : List Char} {opened : Nat}

/-- Switches that are changed inside a group do not matter behind it. -/
theorem settles_numbered (h : Expr.ofTree? f tree = some (e, f')) (index : Nat) :
    Settles f (.group (some index) [] tree) (.group index e) := by
  rw [Settles, Expr.ofTree?, show f.apply [] = f from rfl, h]
  rfl

theorem readAll_of_writes_single (writes : Writes 1 cs [tree] opened) :
    readAll {} cs = some tree := by
  have whole := writes {} [] rfl rfl (by simp)
  rw [List.append_nil] at whole
  rw [whole, readAll_eq]
  rfl

end Regex

namespace Recognizer

variable {p : Param} {capable ci : Bool} {value : Param → Expr} {index : Nat}
  {tokens : List Token} {cs text : List Char} {start stop : Point} {tree : Tree} {e : Expr}

/-! ### Contained params -/

/-- A param is contained if what is written for one segment is one tree without capturing groups. -/
theorem contained_of_writes (writes : ∀ index, Writes index
      ('(' :: '?' :: ':' :: ((p.constraint.getD anySegment).toList ++ [')'])) [tree] 0)
    (noCapture : tree.captures = 0) (settles : Settles {} tree e) : p.Contained := by
  have whole := writes_capture (writes_value (writes 2)) (head_ofValue p)
  have settled : Settles {} (Tree.inSequence (valueTrees tree p)) _ :=
    settles_inSequence (@settles_value false p _ _ settles)
  refine ⟨_, ⟨readAll_of_writes_single whole, ?_⟩, by rw [settled]; rfl⟩
  rw [captures_inSequence, valueTrees]
  split <;> simp [Tree.capturesAll, Tree.captures, captures_inSequence, noCapture]

/-- A param without a constraint is contained. -/
theorem contained_of_free (free : p.constraint = none) : p.Contained := by
  have settled : Settles {} _ (segment false) :=
    settles_group (settles_repetition rfl (c := '+') rfl rfl (settles_inner false))
  refine contained_of_writes (fun index => ?_) rfl settled
  rw [free]
  exact writes_group (writes_marked rfl adds_bracket ⟨by simp, by simp⟩)

/-- So is one whose constraint keeps to its own group. -/
theorem contained_of_enclosed (enclosed : p.Enclosed) (probed : Matcher.probe p = .ok capable) :
    p.Contained := by
  cases isConstraint : p.constraint with
  | none => exact contained_of_free isConstraint
  | some constraint =>
    obtain ⟨tree, adds, noCapture⟩ := adds_of_enclosed (enclosed constraint isConstraint)
    obtain ⟨r, isRegex, -⟩ := Matcher.exists_of_probe isConstraint probed
    obtain ⟨e, settles, -⟩ := expr_of_probe adds.writes isRegex
    have whole : (Tree.group none [] tree).captures = 0 := (Nat.zero_add _).trans noCapture
    refine contained_of_writes (fun index => ?_) whole settles
    rw [isConstraint]
    exact adds.writes

/-- A contained param stands for a group without numbered groups inside. -/
theorem exists_fills (contained : p.Contained) (ci : Bool) : ∃ e, Fills ci p e ∧ e.numbers = [] := by
  obtain ⟨tree, inside, meant⟩ := contained
  obtain ⟨⟨e, f⟩, isExpr⟩ := Option.isSome_iff_exists.mp meant
  have alike : ({} : Flags).cased = (flags ci).cased := rfl
  have related := rel_ofTree? alike tree
  rw [isExpr] at related
  cases settled : Expr.ofTree? (flags ci) tree with
  | none => rw [settled] at related; cases related
  | some pair =>
    obtain ⟨e', f'⟩ := pair
    refine ⟨e', fun index => ?_, numbers_of_ofTree? tree settled inside.2⟩
    exact ⟨_, writes_of_contained inside (head_ofValue p), .cons (settles_numbered settled index) .nil⟩

/-- The expressions for the values of contained params. -/
theorem exists_values {params : List Param} (contained : ∀ p ∈ params, p.Contained) (ci : Bool) :
    ∃ value : Param → Expr, ∀ p ∈ params, Fills ci p (value p) ∧ (value p).numbers = [] := by
  have each : ∀ p ∈ params, ∃ e, Fills ci p e ∧ e.numbers = [] := fun p member =>
    exists_fills (contained p member) ci
  have : Nonempty Expr := ⟨.empty⟩
  choose! value spec using each
  exact ⟨value, spec⟩

/-! ### Captures in their places -/

/-- The text is made up of what the tokens took, one after the other and each with a slash in front,
and of a tail; what a param took is what the group with its number has captured. -/
def Tiles (ci : Bool) (group? : Nat → Option (List Char)) :
    Nat → List Token → List Char → List Char → Prop
  | _, [], cs, tail => cs = tail
  | index, .literal text :: tokens, cs, tail => ∃ s rest, cs = '/' :: (s ++ rest) ∧
      spells ci text.toList s = true ∧ Tiles ci group? index tokens rest tail
  | index, .param p :: tokens, cs, tail =>
    match group? index with
    | none => p.optional = true ∧ Tiles ci group? (index + 1) tokens cs tail
    | some raw => ∃ rest, cs = '/' :: (raw ++ rest) ∧ Tiles ci group? (index + 1) tokens rest tail

/-- A match of literal text. -/
theorem exists_of_passes_letters (h : Passes (literalParts ci cs) start stop) :
    ∃ s, start.rest = s ++ stop.rest ∧ spells ci cs s = true ∧ stop.groups = start.groups := by
  induction cs generalizing start with
  | nil =>
    obtain rfl : stop = start := h
    exact ⟨[], rfl, rfl, rfl⟩
  | cons c cs ih =>
    obtain ⟨middle, inSet, others⟩ := h
    obtain ⟨s, isRest, spelled, same⟩ := ih others
    rw [Expr.ends] at inSet
    split at inSet
    · rename_i d next found
      obtain ⟨rest, isStart, rfl⟩ := rest_of_next? found
      split at inSet
      · rename_i has
        rw [List.mem_singleton.mp inSet] at isRest same
        refine ⟨d :: s, ?_, ?_, same⟩
        · rw [isStart, List.cons_append, ← isRest]
          rfl
        · rw [spells, has, spelled, Bool.and_self]
      · exact absurd inSet List.not_mem_nil
    · exact absurd inSet List.not_mem_nil

/-- The text up to an end and the text behind it. -/
theorem rest_eq_textTo_append (place : start.In text) (h : stop ∈ e.ends start) :
    start.rest = start.textTo stop ++ stop.rest := by
  have leads := e.leads_of_mem_ends h
  have left : stop.rest = start.rest.drop (stop.offset - start.offset) := by
    rw [(leads.2 text place).rest, place.rest, List.drop_drop, Nat.add_sub_cancel' leads.1]
  rw [textTo, left, List.take_append_drop]

/-- A match of the tokens takes the text piece by piece, and the groups of the params capture
theirs. -/
theorem tiles_of_passes (place : start.In text)
    (free : ∀ p ∈ Pattern.params tokens, (value p).numbers = [])
    (fresh : ∀ i, index ≤ i → start.group? i = none)
    (h : Passes (slotsOf ci value index tokens) start stop) :
    Tiles ci stop.group? index tokens start.rest stop.rest := by
  induction tokens generalizing index start with
  | nil =>
    obtain rfl : stop = start := h
    rfl
  | cons token tokens ih =>
    cases token with
    | literal t =>
      obtain ⟨first, inSlash, behind⟩ := h
      obtain ⟨middle, inText, others⟩ := passes_append.mp behind
      obtain ⟨rest, isRest, rfl⟩ := exists_of_mem_ends_slash inSlash
      obtain ⟨s, isFirst, spelled, same⟩ := exists_of_passes_letters inText
      have fresh' : ∀ i, index ≤ i → middle.group? i = none := by
        intro i above
        rw [Point.group?, same]
        exact fresh i above
      refine ⟨s, middle.rest, ?_, spelled,
        ih (in_of_passes (place.next isRest) inText) free fresh' others⟩
      rw [isRest, ← isFirst]
      rfl
    | param param =>
      obtain ⟨middle, inParam, others⟩ := passes_append.mp h
      have freeRest : ∀ p ∈ Pattern.params tokens, (value p).numbers = [] := fun p member =>
        free p (List.mem_cons_of_mem _ member)
      -- the tokens behind write to later groups, so the capture is still there at the end
      have kept := group?_of_passes_slots freeRest (Nat.lt_succ_self index) others
      have placeRest := in_of_passes place inParam
      rcases passes_param inParam with ⟨optional, rfl⟩ | ⟨rest, last, isRest, inValue, rfl⟩
      · rw [fresh index (Nat.le_refl _)] at kept
        rw [Tiles, kept]
        exact ⟨optional, ih placeRest freeRest (fun i above => fresh i (Nat.le_of_succ_le above))
          others⟩
      · have own : ((start.past ['/'] rest).capture index last).group? index =
            some ((start.past ['/'] rest).textTo last) := List.lookup_cons_self
        have taken := rest_eq_textTo_append (place.next isRest) inValue
        have fresh' : ∀ i, index + 1 ≤ i →
            ((start.past ['/'] rest).capture index last).group? i = none := by
          intro i above
          have inside := group?_of_mem_ends (i := i) (value param)
            (by rw [free param List.mem_cons_self]; exact List.not_mem_nil) inValue
          exact ((lookup_cons_of_ne (by omega) _).trans inside).trans
            (fresh i (Nat.le_of_succ_le above))
        have tiles := ih placeRest freeRest fresh' others
        rw [Tiles, kept, own]
        refine ⟨last.rest, ?_, tiles⟩
        rw [isRest, ← taken]
        rfl

/-- The captures of a whole pattern with contained params. -/
theorem exists_tiles_of_find? {options : PatternOptions} {slash : Bool} {r : Regex} {path : String}
    {hit : Point} (isSource : Regex.ofSource? (source tokens options slash) = some r)
    (contained : ∀ p ∈ Pattern.params tokens, p.Contained) (found : r.find? path = some hit) :
    ∃ tail, Tiles options.caseInsensitive hit.group? 1 tokens path.toList tail ∧
      (ending tokens options.strict slash).accepts tail = true := by
  obtain ⟨value, filled⟩ := exists_values contained options.caseInsensitive
  have isExpr := expr_of_fills (fun p member => (filled p member).1) isSource
  obtain ⟨middle, passes, accepted, same⟩ := exists_passes_of_search? isExpr found
  have tiles := tiles_of_passes (in_start path.toList) (fun p member => (filled p member).2)
    (fun _ _ => rfl) passes
  have groups : hit.group? = middle.group? := by
    funext i
    rw [Point.group?, Point.group?, same]
  exact ⟨middle.rest, groups ▸ tiles, accepted⟩

/-- A param without a capture may be missing; any other one has taken text from behind a slash. -/
def Placed (p : Param) (cs : List Char) : Option (List Char) → Prop
  | none => p.optional = true
  | some raw => ∃ front rest, cs = front ++ '/' :: (raw ++ rest)

theorem Placed.behind {captured : Option (List Char)} (h : Placed p cs captured)
    (before : List Char) : Placed p (before ++ cs) captured := by
  cases captured with
  | none => exact h
  | some raw =>
    obtain ⟨front, rest, rfl⟩ := h
    exact ⟨before ++ front, rest, (List.append_assoc ..).symm⟩

theorem Tiles.placed {group? : Nat → Option (List Char)} {tail : List Char}
    (h : Tiles ci group? index tokens cs tail) {i : Nat}
    (isParam : (Pattern.params tokens)[i]? = some p) : Placed p cs (group? (index + i)) := by
  induction tokens generalizing index cs i with
  | nil => exact absurd isParam (by simp [Pattern.params])
  | cons token tokens ih =>
    cases token with
    | literal text =>
      obtain ⟨s, rest, rfl, -, others⟩ := h
      exact (ih others isParam).behind ('/' :: s)
    | param q =>
      rw [show Pattern.params (.param q :: tokens) = q :: Pattern.params tokens from rfl] at isParam
      rw [Tiles] at h
      cases i with
      | zero =>
        obtain rfl : q = p := Option.some.inj isParam
        rw [Nat.add_zero]
        split at h
        · rename_i nothing
          rw [nothing]
          exact h.1
        · rename_i raw captured
          obtain ⟨rest, isText, -⟩ := h
          rw [captured]
          exact ⟨[], rest, isText⟩
      | succ i =>
        rw [List.getElem?_cons_succ] at isParam
        rw [Nat.add_comm i 1, ← Nat.add_assoc]
        split at h
        · exact ih h.2 isParam
        · obtain ⟨rest, rfl, others⟩ := h
          exact (ih others isParam).behind ('/' :: _)

end Recognizer

namespace Matcher

variable {tokens : List Token} {options : PatternOptions} {slash : Bool} {m : Matcher}

/-- If all params are contained, the recognizer has one group for each key and no others, numbered in
the order of the keys.  The group with the number of a key is what was written for the param, and
what it captures of a path is what stands in the place of the param. -/
theorem groups_of_params (compiled : ofTokens tokens options slash = .ok m)
    (contained : ∀ p ∈ Pattern.params tokens, p.Contained) :
    m.recognizer.expr.numbers = List.range' 1 m.keys.length ∧
    (∃ value : Param → Expr,
      (∀ p ∈ Pattern.params tokens,
        Fills options.caseInsensitive p (value p) ∧ (value p).numbers = []) ∧
      m.recognizer.expr = .inSequence ((if options.caseInsensitive then [.empty] else []) ++
        framed options.caseInsensitive (slotsOf options.caseInsensitive value 1 tokens)
          (ending tokens options.strict slash))) ∧
    ∀ path hit, m.recognizer.find? path = some hit → ∃ tail,
      Tiles options.caseInsensitive hit.group? 1 tokens path.toList tail ∧
        (ending tokens options.strict slash).accepts tail = true := by
  obtain ⟨isTokens, -, -, isSource⟩ := ofTokens_eq_ok.mp compiled
  obtain ⟨value, filled⟩ := exists_values contained options.caseInsensitive
  have isExpr := expr_of_fills (fun p member => (filled p member).1) isSource
  refine ⟨?_, ⟨value, filled, isExpr⟩, fun path hit => exists_tiles_of_find? isSource contained⟩
  · have isKeys : m.keys.length = (Pattern.params tokens).length := by
      rw [keys, isTokens, List.length_map]
    have mark : (if options.caseInsensitive then [Expr.empty] else []).flatMap Expr.numbers = [] := by
      split <;> rfl
    have behind : ((ending tokens options.strict slash).parts options.caseInsensitive ++
        [Expr.look .textEnd]).flatMap Expr.numbers = [] := by
      cases ending tokens options.strict slash <;> rfl
    rw [isExpr, numbers_inSequence, List.flatMap_append, mark, framed, List.flatMap_cons,
      List.flatMap_append, numbers_slotsOf fun p member => (filled p member).2, behind, List.append_nil, isKeys]
    rfl

/-- The first constraint closes the group that is put around it, and opens another one. -/
theorem groups_of_params_reopened : ∃ m,
    let tokens : List Token := [.param ⟨"a", some "x)|(?:y", false, false⟩,
      .param ⟨"b", none, true, true⟩]
    ofTokens tokens ⟨false, false⟩ false = .ok m ∧ (∀ p ∈ Pattern.params tokens, p.Contained) ∧
      m.recognizer.expr.numbers = [1, 2] := by
  obtain ⟨recognizer, isSource⟩ := Option.isSome_iff_exists.mp
    (show (Regex.ofSource? "^/((?:x)|(?:y))(?:/((?:[^/]+)(?:/(?:[^/]+))*))?/?$").isSome = true by cbv)
  have probed : probeAll [⟨"a", some "x)|(?:y", false, false⟩, ⟨"b", none, true, true⟩] =
      .ok [] := by cbv
  have compiled : ofTokens [.param ⟨"a", some "x)|(?:y", false, false⟩,
      .param ⟨"b", none, true, true⟩] ⟨false, false⟩ false = .ok ⟨_, false, recognizer, []⟩ :=
    ofTokens_eq_ok.mpr ⟨rfl, rfl, probed, isSource⟩
  have reopened : Param.Contained ⟨"a", some "x)|(?:y", false, false⟩ := by
    have read : readAll {} "((?:x)|(?:y))".toList = some (.group (some 1) [] (.alternation
        [.group none [] (.literal ⟨'x', false⟩), .group none [] (.literal ⟨'y', false⟩)])) := by cbv
    exact ⟨_, ⟨read, rfl⟩, rfl⟩
  have contained : ∀ p ∈ Pattern.params [.param ⟨"a", some "x)|(?:y", false, false⟩,
      .param ⟨"b", none, true, true⟩], p.Contained := by
    intro p member
    rcases List.mem_cons.mp member with rfl | member
    · exact reopened
    · rw [List.mem_singleton.mp member]
      exact contained_of_free rfl
  exact ⟨_, compiled, contained, (groups_of_params compiled contained).1⟩

/-- A group that is taken no times at all has a number all the same. -/
theorem exists_group_skipped :
    (ofTokens [.param ⟨"a", some "y(x)\x7b0\x7d", false, false⟩, .param ⟨"b", none, false, false⟩]
      ⟨false, false⟩ false).toOption.map (fun m =>
        (m.keys.length, m.recognizer.expr.numbers, m.recognize "/y/z")) =
      some (2, [1, 3], some [("a", .single "y")]) := by
  cbv

end Matcher
end Waymark
