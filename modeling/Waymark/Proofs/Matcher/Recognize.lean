/-
What a pattern without constraints recognizes.

A path is divided (`Pattern.Divides`) when its segments are shared out among the tokens of
a pattern, in order, and what follows the segments is one of the pattern's endings.

* `search?_spell` — the search for the expression of a pattern goes through the segments of
  a path as `Pattern.divide` does;
* `recognize_divide` — so the params of a path are read off the first division of its
  segments, with or without regard to the case of letters;
* `recognize_divides` — a path is recognized if it can be divided, and the params are those
  of the division that gives each token in turn as many segments as possible.
-/
import Mathlib
import Waymark.Proofs.Matcher.Source
import Waymark.Proofs.Matcher.Values
import Waymark.Proofs.Regex.Outline
import Waymark.Proofs.Pattern.Printing

namespace Waymark

open Regex Regex.Point Waymark.Path Unicode

namespace Recognizer

variable {ci : Bool} {tokens : List Token} {ending : Ending} {e : Expr} {text tail : List Char}
  {p : Point} {parts : List (List Char)}

/-! ### Endings -/

/-- Whether the text may follow the segments. -/
def Ending.accepts : Ending → List Char → Bool
  | .slash, cs => cs = ['/']
  | .optional, cs => cs = ['/'] || cs = []
  | .nothing, cs => cs = []

/-- What was captured on the way to a point. -/
def given (p : Point) : Option (List (Nat × List Char)) := some p.groups

theorem fair_given : Fair given := fun _ _ _ => rfl

theorem run_textEnd : (Expr.look .textEnd).run given p = if p.rest = [] then given p else none := by
  rw [Expr.run_look, Look.holds]
  cases p.rest <;> rfl

theorem run_slash_textEnd (splits : Splits ci) :
    (slash ci).run ((Expr.look .textEnd).run given) p =
      if p.rest = ['/'] then given p else none := by
  cases isRest : p.rest with
  | nil => rw [slash, Expr.run_set_of_nil _ isRest, if_neg (by simp)]
  | cons c rest =>
    by_cases isSlash : c = '/'
    · subst isSlash
      rw [run_slash_of_boundary splits isRest, run_textEnd, past_rest]
      simp only [List.cons.injEq, true_and]
      rfl
    · rw [run_slash_of_inside splits isRest isSlash, if_neg]
      exact fun same => isSlash (List.cons.inj same).1

theorem run_ending (splits : Splits ci) (place : p.In text) :
    (Expr.inSequence (ending.parts ci ++ [.look .textEnd])).run given p =
      if ending.accepts p.rest then given p else none := by
  cases ending with
  | slash =>
    show (Expr.inSequence [slash ci, .look .textEnd]).run given p = _
    rw [Expr.run_pair fair_given place, run_slash_textEnd splits, Ending.accepts]
    simp only [decide_eq_true_eq]
  | nothing =>
    show (Expr.inSequence [.look .textEnd]).run given p = _
    rw [Expr.run_singleton fair_given place, run_textEnd, Ending.accepts]
    simp only [decide_eq_true_eq]
  | optional =>
    show (Expr.inSequence [.loop 0 (some 1) true (slash ci), .look .textEnd]).run given p = _
    rw [Expr.run_pair fair_given place, Expr.run_optional (Expr.fair_run fair_given _) place,
      run_slash_textEnd splits, run_textEnd, Ending.accepts]
    by_cases isSlash : p.rest = ['/']
    · rw [if_pos isSlash, isSlash]
      rfl
    · rw [if_neg isSlash, Option.none_or]
      simp only [Bool.or_eq_true, decide_eq_true_eq, isSlash, false_or]

/-! ### The search -/

/-- The search for a path is a run of the expressions for its segments before the ending. -/
theorem search?_eq {es : List Expr}
    (h : e = .inSequence ((if ci then [.empty] else []) ++ framed ci es ending))
    (text : List Char) :
    (e.search? text).map (·.groups) =
      (Expr.inSequence es).run
        ((Expr.inSequence (ending.parts ci ++ [.look .textEnd])).run given) (.start text) := by
  have place := in_start text
  have anchored : e.Anchored := by
    rw [h]
    cases ci with
    | false => exact Expr.anchored_textStart _
    | true => exact (Expr.anchored_textStart _).after_empty
  -- the switch for the case of letters stands for the empty expression
  have whole : e.run given (.start text) =
      (Expr.inSequence (framed ci es ending)).run given (.start text) := by
    rw [h]
    cases ci with
    | false => rfl
    | true =>
      show (Expr.inSequence (.empty :: framed true es ending)).run given _ = _
      rw [Expr.run_inSequence_cons fair_given place, Expr.run_empty]
  rw [Expr.search?_of_anchored anchored]
  show Option.map _ ((e.ends _).findSome? some) = _
  rw [List.map_findSome?]
  show e.run given _ = _
  rw [whole, framed, Expr.run_inSequence_cons fair_given place, Expr.run_look,
    Expr.run_inSequence_append fair_given place]
  rfl

theorem not_accepts_inside {c : Char} {rest : List Char} (inside : c ≠ '/') :
    ending.accepts (c :: rest) = false := by
  cases ending <;> simp [Ending.accepts, inside]

theorem not_accepts_spell {s : List Char} (isSegment : IsSegment s) :
    ending.accepts (spell (s :: parts) ++ tail) = false := by
  cases ending <;> simp [Ending.accepts, isSegment.1]

theorem bounded_ending (splits : Splits ci) : Bounded text
    ((Expr.inSequence (ending.parts ci ++ [.look .textEnd])).run given) := by
  intro p c rest place isRest inside
  rw [run_ending splits place, isRest, not_accepts_inside inside]
  rfl

/-- A search divides the segments of the text. -/
theorem search?_spell (splits : Splits ci)
    (h : e = .inSequence ((if ci then [.empty] else []) ++ wholeParts ci tokens ending))
    (literals : ∀ t, Token.literal t ∈ tokens → IsSegment t.toList)
    (all : ∀ s ∈ parts, IsSegment s) (boundary : Boundary tail) (last : nextSegment? tail = none) :
    (e.search? (spell parts ++ tail)).map (·.groups) =
      if ending.accepts tail then
        (Pattern.divide (spells ci) tokens parts).map fun shares => captured 1 tokens shares []
      else none := by
  have ahead : Ahead (spell parts ++ tail) (.start (spell parts ++ tail)) parts tail :=
    ⟨in_start _, rfl, all, boundary, last⟩
  rw [search?_eq h]
  refine run_tokens splits (Expr.fair_run fair_given _) (bounded_ending splits) ?_ literals 1 ahead
  intro q parts ahead
  rw [run_ending splits ahead.place, ahead.rest]
  cases parts with
  | nil =>
    rw [spell_nil, List.nil_append]
    cases ending.accepts tail <;> simp [given]
  | cons s parts =>
    rw [not_accepts_spell (ahead.all s List.mem_cons_self)]
    simp

/-- A text that does not begin with a slash is not matched. -/
theorem search?_of_inside (splits : Splits ci)
    (h : e = .inSequence ((if ci then [.empty] else []) ++ wholeParts ci tokens ending))
    {c : Char} (rest : List Char) (inside : c ≠ '/') : e.search? (c :: rest) = none := by
  have nothing := search?_eq h (c :: rest)
  rw [bounded_tokens splits (Expr.fair_run fair_given _) (bounded_ending splits) 1 tokens _ c rest
    (in_start _) rfl inside] at nothing
  exact Option.map_eq_none_iff.mp nothing

/-! ### Characters -/

theorem letter_has (c d : Char) : (letter false c).has d = decide (c = d) := by
  show (CodeSet.single c.toNat).contains d.toNat = _
  rw [CodeSet.contains_single]
  exact decide_eq_decide.mpr Char.toNat_inj

/-- A literal character matches itself. -/
theorem letter_has_self (ci : Bool) (c : Char) : (letter ci c).has c = true := by
  have itself : (CodeSet.ofChar c).contains c.toNat = true := by
    rw [CodeSet.ofChar, CodeSet.contains_single, decide_eq_true rfl]
  cases ci with
  | false => exact itself
  | true =>
    show ((CodeSet.ofChar c).union _).contains c.toNat = true
    rw [CodeSet.contains_union, itself, Bool.true_or]

/-- The slash has no case. -/
theorem foldSet_contains_of_slash {s : CodeSet}
    (only : ∀ n, s.contains n = decide ('/'.toNat = n)) (n : Nat) :
    (foldSet (flags ci) s).contains n = decide ('/'.toNat = n) := by
  cases ci with
  | false => exact only n
  | true =>
    have low : ∀ n, s.contains n = true → n < 'A'.toNat := by
      intro n has
      rw [only, decide_eq_true_eq] at has
      rw [← has]
      decide
    exact (foldClosure_contains low n).trans (only n)

theorem toNat_le_top (c : Char) : c.toNat ≤ CodeSet.top := by
  rcases c.valid with low | ⟨-, high⟩
  · exact Nat.le_trans (Nat.le_of_lt low) (by decide)
  · exact Nat.le_of_lt_succ high

theorem inner_has (ci : Bool) (c : Char) : (inner ci).has c = decide (c ≠ '/') := by
  have slashes : ∀ n, ((CodeSet.single '/'.toNat).union CodeSet.empty).contains n =
      decide ('/'.toNat = n) := by
    intro n
    rw [CodeSet.contains_union, CodeSet.contains_single, CodeSet.contains_empty, Bool.or_false]
  show (foldSet (flags ci) _).complement.contains c.toNat = _
  rw [CodeSet.contains_complement _ (toNat_le_top c), foldSet_contains_of_slash slashes,
    ← decide_not]
  refine decide_eq_decide.mpr (not_congr ?_)
  rw [Char.toNat_inj]
  exact eq_comm

/-- Only a slash matches the slash in front of a segment. -/
theorem eq_slash_of_letter_has {c : Char} (h : (letter ci '/').has c = true) : c = '/' := by
  change (foldSet (flags ci) (CodeSet.single _)).contains c.toNat = true at h
  rw [foldSet_contains_of_slash fun n => CodeSet.contains_single _ n, decide_eq_true_eq] at h
  exact (Char.toNat_inj.mp h).symm

/-- Only a slash matches a slash. -/
theorem eq_slash_of_letter_has_slash {c : Char} (h : (letter ci c).has '/' = true) : c = '/' := by
  have itself : (letter false c).has '/' = true := by
    cases ci with
    | false => exact h
    | true => exact (foldClosure_contains_slash _).symm.trans h
  rw [letter_has, decide_eq_true_eq] at itself
  exact itself

/-- With or without regard to the case of letters, slashes part the segments. -/
theorem splits (ci : Bool) : Splits ci where
  literal _ _ has :=
    ⟨fun isSlash => eq_slash_of_letter_has (isSlash ▸ has),
      fun isSlash => eq_slash_of_letter_has_slash (isSlash ▸ has)⟩
  slash := letter_has_self ci '/'
  inside := inner_has ci

theorem spells_self (ci : Bool) (cs : List Char) : spells ci cs cs = true := by
  induction cs with
  | nil => rfl
  | cons c cs ih => rw [spells, letter_has_self, ih, Bool.and_self]

theorem spells_false : spells false = (· == ·) := by
  funext cs ds
  induction cs generalizing ds with
  | nil => cases ds <;> rfl
  | cons c cs ih =>
    cases ds with
    | nil => rfl
    | cons d ds =>
      rw [spells, letter_has, ih]
      rfl

end Recognizer

/-! ### Paths -/

/-- What may follow the segments of a path: the root is a slash, a pattern that is strict says
itself whether there is one, and otherwise it does not matter. -/
def Pattern.endings (pattern : String) (strict : Bool) (tokens : List Token) :
    List (List Char) :=
  if tokens = [] then [['/']]
  else if strict then if Matcher.endsWithSlash pattern then [['/']] else [[]]
  else [['/'], []]

/-- The segments of the path can be given to the tokens of the pattern in the given shares. -/
structure Pattern.Divides (pattern : String) (strict : Bool) (tokens : List Token) (path : String)
    (shares : List (List (List Char))) : Prop where
  takes : List.Forall₂ (Token.Takes (· == ·)) tokens shares
  segments : ∀ share ∈ shares, ∀ s ∈ share, IsSegment s
  spelled : ∃ tail ∈ endings pattern strict tokens, path.toList = spell shares.flatten ++ tail

theorem Pattern.Divides.all {pattern path : String} {strict : Bool} {tokens : List Token}
    {shares : List (List (List Char))} (h : Divides pattern strict tokens path shares) :
    ∀ s ∈ shares.flatten, IsSegment s := by
  intro s member
  obtain ⟨share, inShares, inShare⟩ := List.mem_flatten.mp member
  exact h.segments share inShares s inShare

namespace Matcher

open Recognizer (captured Ending)

variable {pattern path : String} {strict : Bool} {m : Matcher} {parts : List (List Char)}
  {tail : List Char}

/-- The endings that the recognizer lets through. -/
theorem accepts_iff (h : ofPattern pattern ⟨false, strict⟩ = .ok m) :
    (Recognizer.ending m.tokens strict m.trailingSlash).accepts tail = true ↔
      tail ∈ Pattern.endings pattern strict m.tokens := by
  obtain ⟨-, trailing, -⟩ := ofPattern_eq_ok h
  rw [trailing, Recognizer.ending, Pattern.endings]
  cases m.tokens with
  | nil => simp [Ending.accepts]
  | cons token tokens =>
    cases strict with
    | false => simp [Ending.accepts]
    | true => cases endsWithSlash pattern <;> simp [Ending.accepts]

theorem boundary_of_mem_endings {tokens : List Token}
    (h : tail ∈ Pattern.endings pattern strict tokens) :
    Boundary tail ∧ nextSegment? tail = none := by
  have either : tail = ['/'] ∨ tail = [] := by
    rw [Pattern.endings] at h
    split at h
    · simp_all
    · split at h
      · split at h <;> simp_all
      · simp_all
  rcases either with rfl | rfl
  · exact ⟨boundary_slash _, rfl⟩
  · exact ⟨boundary_nil, rfl⟩

section

variable {options : PatternOptions} (compiled : ofPattern pattern options = .ok m)
  (free : ∀ p ∈ Pattern.params m.tokens, p.constraint = none)

include compiled free

theorem recognizer_expr : m.recognizer.expr =
    .inSequence ((if options.caseInsensitive then [.empty] else []) ++
      Recognizer.wholeParts options.caseInsensitive m.tokens
        (Recognizer.ending m.tokens options.strict m.trailingSlash)) :=
  Recognizer.expr_of_source free (ofPattern_eq_ok compiled).2.2

/-- A path that begins with something else than a slash is not recognized. -/
theorem recognize_of_inside (inside : ¬ Boundary path.toList) : m.recognize path = none := by
  cases isPath : path.toList with
  | nil => exact absurd (isPath ▸ boundary_nil) inside
  | cons c rest =>
    have other : c ≠ '/' := fun isSlash => inside (isPath ▸ isSlash ▸ boundary_slash rest)
    rw [recognize, Regex.find?, isPath, Recognizer.search?_of_inside (Recognizer.splits _)
      (recognizer_expr compiled free) rest other, Option.map_none]

/-- The params of a path with given segments, under any options. -/
theorem recognize_divide (all : ∀ s ∈ parts, IsSegment s) (boundary : Boundary tail)
    (last : nextSegment? tail = none) (isPath : path.toList = spell parts ++ tail) :
    m.recognize path =
      if (Recognizer.ending m.tokens options.strict m.trailingSlash).accepts tail then
        (Pattern.divide (Recognizer.spells options.caseInsensitive) m.tokens parts).map
          (Pattern.values m.tokens)
      else none := by
  have tokenized := (ofPattern_eq_ok compiled).1
  have literals := Pattern.isSegment_of_mem_readTokens (Pattern.tokenize_eq_ok tokenized).1
  have search := Recognizer.search?_spell (Recognizer.splits _) (recognizer_expr compiled free)
    literals all boundary last
  rw [← isPath] at search
  have distinct := Pattern.names_nodup_of_tokenize tokenized
  rw [recognize, Regex.find?]
  cases found : m.recognizer.expr.search? path.toList with
  | none =>
    rw [found, Option.map_none] at search
    split at search
    · rename_i accepted
      rw [if_pos accepted, Option.map_eq_none_iff.mp search.symm]
      rfl
    · rename_i refused
      rw [if_neg refused]
      rfl
  | some hit =>
    rw [found, Option.map_some] at search
    split at search
    · rename_i accepted
      obtain ⟨shares, divided, isHit⟩ := Option.map_eq_some_iff.mp search.symm
      obtain ⟨takes, flat⟩ := Pattern.forall₂_of_divide divided
      have segments : ∀ share ∈ shares, ∀ s ∈ share, IsSegment s := fun share member s inShare =>
        all s (flat ▸ List.mem_flatten_of_mem member inShare)
      rw [if_pos accepted, divided, Option.map_some, Option.map_some]
      exact congrArg some ((readParams_captured takes segments isHit.symm (fun _ _ => rfl) distinct
        (by simp [Dict.keys])).trans (List.nil_append _))
    · exact absurd search (by simp)

end

section

variable (compiled : ofPattern pattern ⟨false, strict⟩ = .ok m)
  (free : ∀ p ∈ Pattern.params m.tokens, p.constraint = none)

include compiled free

/-- The params of a path with given segments. -/
theorem recognize_spell (all : ∀ s ∈ parts, IsSegment s) (boundary : Boundary tail)
    (last : nextSegment? tail = none) (isPath : path.toList = spell parts ++ tail) :
    m.recognize path =
      if tail ∈ Pattern.endings pattern strict m.tokens then
        (Pattern.divide (· == ·) m.tokens parts).map (Pattern.values m.tokens)
      else none := by
  rw [recognize_divide compiled free all boundary last isPath, Recognizer.spells_false]
  exact if_congr (accepts_iff compiled) rfl rfl

/-- The segments of a path that is recognized, and the division that gave the params. -/
theorem exists_of_recognize {params : Params} (h : m.recognize path = some params) :
    ∃ shares, Pattern.Divides pattern strict m.tokens path shares ∧
      params = Pattern.values m.tokens shares ∧
      Pattern.divide (· == ·) m.tokens shares.flatten = some shares := by
  have boundary : Boundary path.toList := by
    by_contra inside
    rw [recognize_of_inside compiled free inside] at h
    exact absurd h (by simp)
  obtain ⟨parts, tail, isPath, all, atTail, last⟩ := exists_spell boundary
  rw [recognize_spell compiled free all atTail last isPath] at h
  split at h
  · rename_i accepted
    obtain ⟨shares, divided, isParams⟩ := Option.map_eq_some_iff.mp h
    obtain ⟨takes, flat⟩ := Pattern.forall₂_of_divide divided
    refine ⟨shares, ⟨takes, ?_, tail, accepted, flat ▸ isPath⟩, isParams.symm, flat ▸ divided⟩
    exact fun share member s inShare => all s (flat ▸ List.mem_flatten_of_mem member inShare)
  · exact absurd h (by simp)

omit compiled free in
/-- The segments of a path do not depend on how they are divided. -/
theorem flatten_eq_of_divides {tokens : List Token} {shares others : List (List (List Char))}
    (h : Pattern.Divides pattern strict tokens path shares)
    (h' : Pattern.Divides pattern strict tokens path others) :
    shares.flatten = others.flatten := by
  obtain ⟨tail, ends, isPath⟩ := h.spelled
  obtain ⟨tail', ends', isPath'⟩ := h'.spelled
  obtain ⟨boundary, last⟩ := boundary_of_mem_endings ends
  obtain ⟨boundary', last'⟩ := boundary_of_mem_endings ends'
  exact (spell_append_inj h.all h'.all boundary boundary' last last'
    (isPath.symm.trans isPath')).1

theorem isSome_of_divides {shares : List (List (List Char))}
    (h : Pattern.Divides pattern strict m.tokens path shares) :
    (m.recognize path).isSome = true := by
  obtain ⟨tail, accepted, isPath⟩ := h.spelled
  obtain ⟨boundary, last⟩ := boundary_of_mem_endings accepted
  obtain ⟨best, divided, -⟩ := Pattern.exists_divide h.takes
  rw [recognize_spell compiled free h.all boundary last isPath, if_pos accepted, divided]
  rfl

/-- A path is recognized if its segments can be divided among the tokens of the pattern.  The
params are then those of the division that gives each token in turn as many segments as possible:
every other one is exceeded by it. -/
theorem recognize_divides (path : String) :
    ((m.recognize path).isSome = true ↔
      ∃ shares, Pattern.Divides pattern strict m.tokens path shares) ∧
    ∀ params, m.recognize path = some params →
      ∃ shares, Pattern.Divides pattern strict m.tokens path shares ∧
        params = Pattern.values m.tokens shares ∧
        ∀ others, Pattern.Divides pattern strict m.tokens path others → others ≠ shares →
          Pattern.Exceeds shares others := by
  refine ⟨⟨fun recognized => ?_, fun ⟨shares, divides⟩ =>
    isSome_of_divides compiled free divides⟩, fun params h => ?_⟩
  · obtain ⟨params, h⟩ := Option.isSome_iff_exists.mp recognized
    obtain ⟨shares, divides, -⟩ := exists_of_recognize compiled free h
    exact ⟨shares, divides⟩
  · obtain ⟨shares, divides, isParams, divided⟩ := exists_of_recognize compiled free h
    refine ⟨shares, divides, isParams, fun others divides' differ => ?_⟩
    have same := flatten_eq_of_divides divides divides'
    obtain ⟨best, found, notExceeded⟩ := Pattern.exists_divide divides'.takes
    rw [← same, divided] at found
    obtain rfl := Option.some.inj found
    exact Pattern.exceeds_of_not_exceeds same differ notExceeded

end

theorem probeAll_of_free {params : List Param} (free : ∀ p ∈ params, p.constraint = none) :
    probeAll params = .ok [] := by
  induction params with
  | nil => rfl
  | cons p rest ih =>
    rw [probeAll, probe, free p List.mem_cons_self, ih fun q member =>
      free q (List.mem_cons_of_mem _ member)]
    rfl

/-- A pattern has a matcher if its constraints pass their tests and its expression is accepted. -/
theorem exists_ofPattern_of_probed {tokens : List Token} {options : PatternOptions}
    {names : List String} (tokenized : Pattern.tokenize pattern = .ok tokens)
    (probed : probeAll (Pattern.params tokens) = .ok names)
    (accepted : (Regex.ofSource? (Recognizer.source tokens options
      (options.strict && !tokens.isEmpty && endsWithSlash pattern))).isSome = true) :
    ∃ m, ofPattern pattern options = .ok m ∧ m.tokens = tokens := by
  obtain ⟨r, isRegex⟩ := Option.isSome_iff_exists.mp accepted
  refine ⟨⟨tokens, options.strict && !tokens.isEmpty && endsWithSlash pattern, r, names⟩, ?_, rfl⟩
  rw [ofPattern, tokenized]
  simp only [ofTokens, probed, isRegex]

/-- A pattern without constraints has a matcher if its expression is accepted. -/
theorem exists_ofPattern_of_accepted {tokens : List Token} {options : PatternOptions}
    (tokenized : Pattern.tokenize pattern = .ok tokens)
    (free : ∀ p ∈ Pattern.params tokens, p.constraint = none)
    (accepted : (Regex.ofSource? (Recognizer.source tokens options
      (options.strict && !tokens.isEmpty && endsWithSlash pattern))).isSome = true) :
    ∃ m, ofPattern pattern options = .ok m ∧ m.tokens = tokens :=
  exists_ofPattern_of_probed tokenized (probeAll_of_free free) accepted

theorem exists_ofPattern {tokens : List Token} (tokenized : Pattern.tokenize pattern = .ok tokens)
    (free : ∀ p ∈ Pattern.params tokens, p.constraint = none)
    (accepted : (Regex.ofSource? (Recognizer.source tokens ⟨false, false⟩ false)).isSome = true) :
    ∃ m, ofPattern pattern ⟨false, false⟩ = .ok m ∧ m.tokens = tokens :=
  exists_ofPattern_of_accepted tokenized free accepted

theorem recognize_optional_and_repeatable : ∃ m, ofPattern "/:a?/:b*" ⟨false, false⟩ = .ok m ∧
    (∀ p ∈ Pattern.params m.tokens, p.constraint = none) ∧ (m.recognize "/x/y").isSome = true := by
  have tokenized : Pattern.tokenize "/:a?/:b*" =
      .ok [.param ⟨"a", none, true, false⟩, .param ⟨"b", none, true, true⟩] := by cbv
  have accepted :
      (Regex.ofSource? "^(?:/((?:[^/]+)))?(?:/((?:[^/]+)(?:/(?:[^/]+))*))?/?$").isSome = true := by
    cbv
  have free : ∀ p ∈ Pattern.params
      [.param ⟨"a", none, true, false⟩, .param ⟨"b", none, true, true⟩], p.constraint = none := by
    simp [Pattern.params, Token.param?]
  obtain ⟨m, compiled, isTokens⟩ := exists_ofPattern tokenized free accepted
  rw [← isTokens] at free
  refine ⟨m, compiled, free, (recognize_divides compiled free "/x/y").1.mpr
    ⟨[[['x']], [['y']]], ?_, ?_, [], ?_, rfl⟩⟩
  · rw [isTokens]
    exact .cons ⟨by simp, by simp⟩ (.cons ⟨by simp, by simp⟩ .nil)
  · simp [IsSegment]
  · simp [isTokens, Pattern.endings]

end Matcher

end Waymark
