/-
Strict patterns.

A slash at the end of a path is let through by a pattern that is not strict, whether it is there or
not.  A strict pattern wants it exactly if there is one at its own end.  Nothing else depends on
that: a slash after the pattern adds no token, and the segments of a path are divided before the
ending is looked at.  So what a pattern without constraints recognizes is what the strict pattern
does, and what it does with a slash after it.

* `Pattern.readTokens_append` — what follows a text at a boundary is read by itself;
* `Recognizer.isSome_source_strict` — what is accepted for a pattern is accepted for the strict one,
  with a slash and without;
* `recognize_iff_strict` — a pattern and its two strict forms.
-/
import Waymark.Proofs.Matcher.FinalSlash

namespace Waymark

/-! ### A slash after a pattern -/

namespace Pattern

open Waymark.Path (Boundary)

variable {cs rest : List Char} {tokens : List Token} {pattern : String}

/-- The reader leaves nothing open at the end of a text that it has read. -/
theorem readTokens_append (read : readTokens cs = .ok tokens) (boundary : Boundary rest) :
    readTokens (cs ++ rest) = (readTokens rest).map (tokens ++ ·) := by
  have cons : ∀ (token : Token) (others : List Token), ((readTokens rest).map (others ++ ·)).map
      (token :: ·) = (readTokens rest).map (token :: others ++ ·) := by
    intro token others
    cases readTokens rest <;> rfl
  fun_induction readTokens cs generalizing tokens with
  | case1 =>
    obtain rfl := Except.ok.inj read
    cases isRest : readTokens rest <;> simp [isRest, Except.map]
  | case2 cs ih =>
    rw [List.cons_append, readTokens]
    exact ih read
  | case3 => exact absurd read (by simp)
  | case4 cs p after found shorter ih =>
    obtain ⟨others, readOthers, rfl⟩ := exists_of_map_eq_ok read
    obtain ⟨wellFormed, atAfter, rfl⟩ := readParam_eq_ok found
    have again := readParam_text wellFormed (Path.boundary_append atAfter boundary)
    rw [← cons, ← ih readOthers, ← readTokens_param again]
    simp only [List.cons_append, List.append_assoc]
  | case5 c cs notSlash notColon shorter ih =>
    obtain ⟨others, readOthers, rfl⟩ := exists_of_map_eq_ok read
    have segment := isSegment_untilSlash notSlash cs
    have atSlash : Boundary (fromSlash cs) := Path.boundary_dropWhile cs
    have isText : c :: cs ++ rest = c :: untilSlash cs ++ (fromSlash cs ++ rest) := by
      rw [List.cons_append, List.cons_append, ← List.append_assoc, untilSlash, fromSlash,
        List.takeWhile_append_dropWhile]
    rw [isText, readTokens_literal segment (fun isColon => notColon (Option.some.inj isColon))
      (Path.boundary_append atSlash boundary), ih readOthers, cons]

/-- A slash after a pattern adds no token. -/
theorem tokenize_append_slash (h : tokenize pattern = .ok tokens) :
    tokenize (pattern ++ "/") = .ok tokens := by
  obtain ⟨read, unrepeated⟩ := tokenize_eq_ok h
  have again : readTokens (pattern ++ "/").toList = .ok tokens := by
    rw [Path.toList_append_slash rfl, readTokens_append read (Path.boundary_slash [])]
    simp [readTokens, Except.map]
  simp only [tokenize, again, unrepeated]

end Pattern

/-! ### What is accepted -/

namespace Regex

variable {es fs gs : List Expr}

theorem depths_append (before after : List Tree) :
    Tree.depths (before ++ after) = max (Tree.depths before) (Tree.depths after) := by
  induction before with
  | nil => exact (Nat.zero_max _).symm
  | cons tree before ih => rw [List.cons_append, Tree.depths, ih, Tree.depths, Nat.max_assoc]

theorem size_append_le (h : (Expr.inSequence fs).size ≤ (Expr.inSequence gs).size) :
    (Expr.inSequence (es ++ fs)).size ≤ (Expr.inSequence (es ++ gs)).size := by
  induction es with
  | nil => exact h
  | cons e es ih => exact Nat.add_le_add_left ih _

end Regex

namespace Recognizer

open Regex

variable {ci : Bool} {tokens : List Token} {ending : Ending}

/-- The trees for a slash or for nothing do not nest. -/
theorem exists_trees_ending (definite : ending ≠ .optional) (index : Nat) :
    ∃ trees, Writes index ending.text.toList trees 0 ∧
      List.Forall₂ (Settles (flags ci)) trees (ending.parts ci) ∧ Tree.depths trees = 0 := by
  cases ending with
  | slash =>
    exact ⟨_, (adds_of_not_isMeta (by decide)).writes, .cons (settles_letter ci '/') .nil, rfl⟩
  | nothing => exact ⟨[], writes_nil, .nil, rfl⟩
  | optional => exact absurd rfl definite

/-- The expression for a slash or for nothing is smaller than the one for both. -/
theorem size_ending_le (ending : Ending) :
    (Expr.inSequence (ending.parts ci ++ [.look .textEnd])).size ≤
      (Expr.inSequence (Ending.optional.parts ci ++ [.look .textEnd])).size := by
  cases ending <;> simp only [Ending.parts, List.cons_append, List.nil_append, Expr.inSequence,
    Expr.size] <;> omega

/-- What is accepted for a pattern is accepted for the strict pattern too, with a slash at its end or
without. -/
theorem isSome_source_strict (free : ∀ p ∈ Pattern.params tokens, p.constraint = none)
    (nonempty : tokens ≠ [])
    (accepted : (Regex.ofSource? (source tokens ⟨ci, false⟩ false)).isSome = true)
    (trailingSlash : Bool) :
    (Regex.ofSource? (source tokens ⟨ci, true⟩ trailingSlash)).isSome = true := by
  have notRoot : tokens.isEmpty = false := by simpa using nonempty
  have lenient : Recognizer.ending tokens false false = .optional := by
    rw [Recognizer.ending, notRoot]
    rfl
  have definite : Recognizer.ending tokens true trailingSlash ≠ .optional := by
    rw [Recognizer.ending, notRoot]
    cases trailingSlash <;> simp
  obtain ⟨trees, writes, settles⟩ := @denotes_tokens ci 1 tokens _ fun p member =>
    stands_segment (free p member)
  obtain ⟨last, writesLast, settlesLast⟩ := @denotes_ending ci
    (1 + (Pattern.params tokens).length) .optional
  obtain ⟨last', writesLast', settlesLast', flat⟩ := @exists_trees_ending ci _ definite
    (1 + (Pattern.params tokens).length)
  rw [@ofSource?_source tokens ⟨ci, false⟩ _ _ _ _ _ _ lenient writes settles writesLast settlesLast,
    Option.isSome_ite] at accepted
  rw [@ofSource?_source tokens ⟨ci, true⟩ _ _ _ _ _ _ rfl writes settles writesLast' settlesLast',
    Option.isSome_ite]
  refine ⟨Nat.le_trans ?_ accepted.1, Nat.le_trans ?_ accepted.2⟩
  · simp only [Tree.depth, Tree.depths, depths_append, flat]
    omega
  · exact size_append_le (Nat.add_le_add_left (size_append_le (size_ending_le _)) _)

end Recognizer

/-! ### Paths -/

namespace Matcher

open Waymark.Path

variable {pattern path : String} {ci : Bool} {m : Matcher}

theorem endsWithSlash_append_slash (pattern : String) : endsWithSlash (pattern ++ "/") = true := by
  rw [endsWithSlash, toList_append_slash rfl, List.getLast?_concat]
  decide

/-- The strict form of a pattern, or of the same pattern with a slash after it. -/
theorem exists_strict (compiled : ofPattern pattern ⟨ci, false⟩ = .ok m) (nonempty : m.tokens ≠ [])
    (free : ∀ p ∈ Pattern.params m.tokens, p.constraint = none) {other : String}
    (tokenized : Pattern.tokenize other = .ok m.tokens) :
    ∃ strict, ofPattern other ⟨ci, true⟩ = .ok strict ∧ strict.tokens = m.tokens ∧
      Recognizer.ending strict.tokens true strict.trailingSlash =
        if endsWithSlash other then .slash else .nothing := by
  obtain ⟨-, trailing, isSource⟩ := ofPattern_eq_ok compiled
  have lenient : m.trailingSlash = false := trailing
  rw [lenient] at isSource
  obtain ⟨strict, made, isTokens⟩ := @exists_ofPattern_of_accepted other m.tokens ⟨ci, true⟩
    tokenized free (Recognizer.isSome_source_strict free nonempty (isSource ▸ rfl) _)
  refine ⟨strict, made, isTokens, ?_⟩
  have notRoot : m.tokens.isEmpty = false := by simpa using nonempty
  rw [Recognizer.ending, (ofPattern_eq_ok made).2.1, isTokens, notRoot]
  cases endsWithSlash other <;> rfl

/-- A pattern without constraints recognizes the paths that its two strict forms do, with the same
params: one form those without a slash at the end, the other one those with a slash. -/
theorem recognize_iff_strict (compiled : ofPattern pattern ⟨ci, false⟩ = .ok m)
    (nonempty : m.tokens ≠ []) (free : ∀ p ∈ Pattern.params m.tokens, p.constraint = none)
    (bare : endsWithSlash pattern = false) :
    ∃ plain slashed, ofPattern pattern ⟨ci, true⟩ = .ok plain ∧
      ofPattern (pattern ++ "/") ⟨ci, true⟩ = .ok slashed ∧ ∀ path,
        (∀ params, m.recognize path = some params ↔
          plain.recognize path = some params ∨ slashed.recognize path = some params) ∧
        ¬ ((plain.recognize path).isSome = true ∧ (slashed.recognize path).isSome = true) := by
  have tokenized := (ofPattern_eq_ok compiled).1
  obtain ⟨plain, madePlain, tokensPlain, endPlain⟩ := exists_strict compiled nonempty free tokenized
  obtain ⟨slashed, madeSlashed, tokensSlashed, endSlashed⟩ := exists_strict compiled nonempty free
    (Pattern.tokenize_append_slash tokenized)
  rw [bare] at endPlain
  rw [endsWithSlash_append_slash] at endSlashed
  have freePlain := tokensPlain ▸ free
  have freeSlashed := tokensSlashed ▸ free
  refine ⟨plain, slashed, madePlain, madeSlashed, fun path => ?_⟩
  by_cases boundary : Boundary path.toList
  · obtain ⟨parts, tail, isPath, all, atTail, last⟩ := exists_spell boundary
    rw [recognize_divide compiled free all atTail last isPath,
      recognize_divide madePlain freePlain all atTail last isPath,
      recognize_divide madeSlashed freeSlashed all atTail last isPath,
      ending_of_lenient compiled nonempty, endPlain, endSlashed, tokensPlain, tokensSlashed]
    -- the segments are divided in one way, whatever the ending
    generalize (Pattern.divide _ m.tokens parts).map _ = divided
    by_cases nothing : tail = []
    · simp [Recognizer.Ending.accepts, nothing]
    · by_cases slash : tail = ['/'] <;> simp [Recognizer.Ending.accepts, nothing, slash]
  · rw [recognize_of_inside compiled free boundary, recognize_of_inside madePlain freePlain boundary,
      recognize_of_inside madeSlashed freeSlashed boundary]
    simp

/-- All segments may be missing, so that nothing but the ending is left of the shortest paths. -/
theorem recognize_iff_strict_optional : ∃ m plain slashed,
    ofPattern "/:a?/:b*" ⟨false, false⟩ = .ok m ∧ ofPattern "/:a?/:b*" ⟨false, true⟩ = .ok plain ∧
      ofPattern "/:a?/:b*/" ⟨false, true⟩ = .ok slashed ∧ ∀ path,
        (∀ params, m.recognize path = some params ↔
          plain.recognize path = some params ∨ slashed.recognize path = some params) ∧
        ¬ ((plain.recognize path).isSome = true ∧ (slashed.recognize path).isSome = true) := by
  obtain ⟨m, compiled, isTokens⟩ := @exists_ofPattern "/:a?/:b*"
    [.param ⟨"a", none, true, false⟩, .param ⟨"b", none, true, true⟩] (by cbv) (by decide)
    (show (Regex.ofSource? "^(?:/((?:[^/]+)))?(?:/((?:[^/]+)(?:/(?:[^/]+))*))?/?$").isSome = true
      by cbv)
  obtain ⟨plain, slashed, madePlain, madeSlashed, divided⟩ := recognize_iff_strict compiled
    (by simp [isTokens]) (isTokens ▸ by decide) (by decide)
  exact ⟨m, plain, slashed, compiled, madePlain, madeSlashed, divided⟩

end Matcher
end Waymark
