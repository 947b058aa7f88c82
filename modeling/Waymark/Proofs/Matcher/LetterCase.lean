/-
Patterns that are matched without regard to the case of letters.

Two paths are the same up to case when their characters have the same folds, one by one.  Each set
of such a pattern's expression holds all characters with the same fold or none of them, so the
expression matches both paths or neither, although what the groups capture may differ.

* `letter_has_true` — a letter matches the characters with the same fold;
* `simulatedBy_partsOf` — expressions for the segments of a pattern are simulated by those without
  regard to case;
* `recognize_iff_of_caseFold` — paths that are the same up to case are recognized together, and
  so is every path that is recognized with regard to case.
-/
import Waymark.Proofs.Matcher.Generation
import Waymark.Proofs.Regex.Simulation
import Waymark.Proofs.Unicode.Folding

namespace Waymark

open Regex Unicode

/-! ### Characters -/

namespace Unicode

/-- The characters differ at most in case. -/
def SameFold (c d : Char) : Prop := caseFold c = caseFold d

theorem forall₂_sameFold {cs ds : List Char} :
    List.Forall₂ SameFold cs ds ↔ cs.map caseFold = ds.map caseFold := by
  rw [← List.forall₂_eq_eq_eq, List.forall₂_map_left_iff, List.forall₂_map_right_iff]
  rfl

end Unicode

namespace Recognizer

variable {ci : Bool} {c d : Char} {index : Nat} {p : Param} {tokens : List Token} {e e' : Expr}
  {es es' : List Expr} {ending : Ending}

/-- Without regard to case, a letter matches the characters with the same fold. -/
theorem letter_has_true : (letter true c).has d = true ↔ SameFold c d := by
  show (foldClosure (CodeSet.ofChar c)).has d = true ↔ _
  rw [foldClosure_has_iff]
  have single : ∀ x, (CodeSet.ofChar c).has x = true ↔ c = x := by
    intro x
    rw [show CodeSet.ofChar c = letter false c from rfl, letter_has, decide_eq_true_eq]
  simp only [single, exists_eq_left']
  rfl

theorem sameFold_of_letter_has (has : (letter ci c).has d = true) : SameFold c d := by
  cases ci with
  | true => exact letter_has_true.mp has
  | false =>
    rw [letter_has, decide_eq_true_eq] at has
    exact congrArg caseFold has

/-! ### Expressions -/

theorem simulatedBy_letter (ci : Bool) (c : Char) :
    Expr.SimulatedBy SameFold (.set (letter ci c)) (.set (letter true c)) := by
  refine Expr.simulatedBy_set fun x y same has => letter_has_true.mpr ?_
  exact (sameFold_of_letter_has has).trans same

theorem simulatedBy_segment (ci : Bool) :
    Expr.SimulatedBy SameFold (segment ci) (segment true) := by
  refine (Expr.simulatedBy_set fun x y same has => ?_).plus (Expr.consuming_set _)
    (Expr.consuming_set _)
  rw [inner_has, decide_eq_true_eq] at has ⊢
  rintro rfl
  exact has (eq_of_caseFold_eq (by decide) same)

theorem simulatedBy_line : Expr.SimulatedBy SameFold line line := by
  refine (Expr.simulatedBy_set fun x y same has => ?_).star (Expr.consuming_set _)
    (Expr.consuming_set _)
  rw [dots_has, decide_eq_true_eq] at has ⊢
  rintro rfl
  exact has (eq_of_caseFold_eq (by decide) same)

theorem simulatedBy_plainBase (ci : Bool) (p : Param) :
    Expr.SimulatedBy SameFold (plainBase ci p) (plainBase true p) := by
  rw [plainBase, plainBase]
  by_cases free : p.constraint = none
  · rw [if_pos free, if_pos free]
    exact simulatedBy_segment ci
  · rw [if_neg free, if_neg free]
    exact simulatedBy_line

theorem simulatedBy_gathered {R : Char → Char → Prop}
    (h : List.Forall₂ (Expr.SimulatedBy R) es es') :
    Expr.SimulatedBy R (.gathered es) (.gathered es') := by
  have sequence := Expr.simulatedBy_inSequence h
  cases h with
  | nil => exact sequence
  | cons first others =>
    cases others with
    | nil => exact first
    | cons second others => exact sequence

theorem simulatedBy_valueParts (h : e.SimulatedBy SameFold e') :
    List.Forall₂ (Expr.SimulatedBy SameFold) (valueParts ci e p) (valueParts true e' p) := by
  have round := Expr.simulatedBy_inSequence (.cons (simulatedBy_letter ci '/') (.cons h .nil))
  have others := round.star (Expr.consuming_seq (Expr.consuming_set _) _)
    (Expr.consuming_seq (Expr.consuming_set _) _)
  unfold valueParts
  by_cases repeatable : p.repeatable = true
  · rw [if_pos repeatable, if_pos repeatable]
    exact .cons h (.cons others .nil)
  · rw [if_neg repeatable, if_neg repeatable]
    exact .cons h .nil

theorem simulatedBy_slotParts (h : e.SimulatedBy SameFold e') :
    List.Forall₂ (Expr.SimulatedBy SameFold) (slotParts ci e index p)
      (slotParts true e' index p) := by
  have captured : List.Forall₂ (Expr.SimulatedBy SameFold) [slash ci, .group index e]
      [slash true, .group index e'] :=
    .cons (simulatedBy_letter ci '/') (.cons (h.group index) .nil)
  unfold slotParts
  by_cases optional : p.optional = true
  · rw [if_pos optional, if_pos optional]
    exact .cons (Expr.simulatedBy_inSequence captured).optional .nil
  · rw [if_neg optional, if_neg optional]
    exact captured

/-- The expressions for the segments of a pattern, token by token. -/
theorem simulatedBy_partsOf (ci : Bool) (index : Nat) (tokens : List Token) :
    List.Forall₂ (Expr.SimulatedBy SameFold) (partsOf ci (plainBase ci) index tokens)
      (partsOf true (plainBase true) index tokens) := by
  induction tokens generalizing index with
  | nil => exact .nil
  | cons token tokens ih =>
    cases token with
    | literal text =>
      have letters : List.Forall₂ (Expr.SimulatedBy SameFold) (literalParts ci text.toList)
          (literalParts true text.toList) := by
        rw [literalParts, literalParts, List.forall₂_map_left_iff, List.forall₂_map_right_iff,
          List.forall₂_same]
        exact fun c _ => simulatedBy_letter ci c
      exact .cons (simulatedBy_letter ci '/') (List.rel_append letters (ih index))
    | param p =>
      exact List.rel_append (simulatedBy_slotParts
        (simulatedBy_gathered (simulatedBy_valueParts (simulatedBy_plainBase ci p)))) (ih (index + 1))

theorem simulatedBy_ending (ci : Bool) (ending : Ending) :
    List.Forall₂ (Expr.SimulatedBy SameFold) (ending.parts ci ++ [.look .textEnd])
      (ending.parts true ++ [.look .textEnd]) := by
  refine List.rel_append ?_ (.cons Expr.simulatedBy_textEnd .nil)
  cases ending with
  | slash => exact .cons (simulatedBy_letter ci '/') .nil
  | optional => exact .cons (simulatedBy_letter ci '/').optional .nil
  | nothing => exact .nil

/-! ### Searches -/

/-- What is found in a text is found in every text that is the same up to case, if case is not
regarded there. -/
theorem isSome_search?_of_simulatedBy {text text' : List Char}
    (h : e = .inSequence ((if ci then [.empty] else []) ++ framed ci es ending))
    (h' : e' = .inSequence ((if true then [.empty] else []) ++ framed true es' ending))
    (parts : List.Forall₂ (Expr.SimulatedBy SameFold) es es')
    (alike : List.Forall₂ SameFold text text') (found : (e.search? text).isSome = true) :
    (e'.search? text').isSome = true := by
  have atEnd : Carries SameFold text text' given given :=
    ⟨fair_given, fair_given, fun _ _ _ _ _ succeeds => succeeds⟩
  have whole := Expr.simulatedBy_inSequence parts
    (Expr.simulatedBy_inSequence (simulatedBy_ending ci ending) atEnd)
  rw [← Option.isSome_map (f := (·.groups)), search?_eq h] at found
  rw [← Option.isSome_map (f := (·.groups)), search?_eq h']
  exact whole.carries _ _ (Point.in_start text) (Point.in_start text') alike found

/-! ### A pattern without regard to case -/

theorem letter_true_slash : letter true '/' = ⟨[(0x2F, 0x2F)]⟩ := by
  show foldClosure (CodeSet.ofChar '/') = _
  rw [foldClosure_eq]
  decide +kernel

theorem letter_true_k : letter true 'k' = ⟨[(0x6B, 0x6B), (0x6B, 0x6B), (0x4B, 0x4B),
    (0x212A, 0x212A), (0x6B, 0x6B), (0x4B, 0x4B), (0x212A, 0x212A)]⟩ := by
  show foldClosure (CodeSet.ofChar 'k') = _
  rw [foldClosure_eq]
  decide +kernel

theorem inner_true : inner true = ⟨[(0, 0x2E), (0x30, 0x10FFFF)]⟩ := by
  show (foldClosure _).complement = _
  rw [foldClosure_eq]
  decide +kernel

theorem isSome_ofSource?_k : (Regex.ofSource?
    "(?i)^/k(?:/((?:[^/]+)))?(?:/((?:.*)(?:/(?:.*))*))?/?$").isSome = true := by
  have isTree : ∃ tree, readAll {}
      "(?i)^/k(?:/((?:[^/]+)))?(?:/((?:.*)(?:/(?:.*))*))?/?$".toList = some tree ∧
      tree.depth ≤ maxDepth ∧ Expr.ofTree? {} tree = some (.inSequence (.empty :: framed true
        (partsOf true (plainBase true) 1
          [.literal "k", .param ⟨"a", none, true, false⟩, .param Param.catchAll]) .optional),
        flags true) := ⟨_, by cbv, by cbv, rfl⟩
  obtain ⟨tree, read, shallow, settled⟩ := isTree
  rw [ofSource?_of_readAll read settled, Option.isSome_ite]
  refine ⟨shallow, ?_⟩
  -- the sets are looked up before the size is computed
  show Expr.size (.inSequence [.empty, .look .textStart, .set (letter true '/'),
    .set (letter true 'k'), .loop 0 (some 1) true (.inSequence [.set (letter true '/'),
      .group 1 (.loop 1 none true (.set (inner true)))]),
    .loop 0 (some 1) true (.inSequence [.set (letter true '/'), .group 2 (.inSequence [line,
      .loop 0 none true (.inSequence [.set (letter true '/'), line])])]),
    .loop 0 (some 1) true (.set (letter true '/')), .look .textEnd]) ≤ maxSize
  rw [letter_true_slash, letter_true_k, inner_true]
  cbv

end Recognizer

/-! ### Paths -/

namespace Matcher

variable {pattern path path' : String} {ci strict : Bool} {m m' : Matcher}

/-- A path that is recognized under some regard to case is recognized up to case. -/
theorem isSome_recognize_of_caseFold (compiled : ofPattern pattern ⟨ci, strict⟩ = .ok m)
    (compiled' : ofPattern pattern ⟨true, strict⟩ = .ok m') (plain : Pattern.Plain m.tokens)
    (same : path.toList.map caseFold = path'.toList.map caseFold)
    (recognized : (m.recognize path).isSome = true) : (m'.recognize path').isSome = true := by
  -- the two matchers have the same tokens and the same ending
  obtain ⟨tokenized, trailing, -⟩ := ofPattern_eq_ok compiled
  obtain ⟨tokenized', trailing', -⟩ := ofPattern_eq_ok compiled'
  have tokens : m'.tokens = m.tokens := Except.ok.inj (tokenized'.symm.trans tokenized)
  have slash : m'.trailingSlash = m.trailingSlash := by rw [trailing', trailing, tokens]
  have isExpr' := recognizer_expr_of_plain compiled' (tokens ▸ plain)
  rw [tokens, slash] at isExpr'
  rw [recognize, Option.isSome_map] at recognized ⊢
  exact Recognizer.isSome_search?_of_simulatedBy (recognizer_expr_of_plain compiled plain) isExpr'
    (Recognizer.simulatedBy_partsOf ci 1 m.tokens) (forall₂_sameFold.mpr same) recognized

/-- Without regard to case, a pattern whose params have no constraints of their own recognizes both
of two paths that are the same up to case, or neither.  And it recognizes what it would with regard
to case. -/
theorem recognize_iff_of_caseFold (compiled : ofPattern pattern ⟨true, strict⟩ = .ok m)
    (plain : Pattern.Plain m.tokens) :
    (∀ path path' : String, path.toList.map caseFold = path'.toList.map caseFold →
      ((m.recognize path).isSome = true ↔ (m.recognize path').isSome = true)) ∧
    ∀ cased, ofPattern pattern ⟨false, strict⟩ = .ok cased →
      ∀ path, (cased.recognize path).isSome = true → (m.recognize path).isSome = true := by
  constructor
  · intro path path' same
    exact ⟨isSome_recognize_of_caseFold compiled compiled plain same,
      isSome_recognize_of_caseFold compiled compiled plain same.symm⟩
  · intro cased compiled' path recognized
    have tokens : cased.tokens = m.tokens := Except.ok.inj
      ((ofPattern_eq_ok compiled').1.symm.trans (ofPattern_eq_ok compiled).1)
    exact isSome_recognize_of_caseFold compiled' compiled (tokens ▸ plain) rfl recognized

/-- The Kelvin sign is the same as a letter up to case. -/
theorem recognize_kelvin : ∃ m cased, ofPattern "/k/:a?/*" ⟨true, false⟩ = .ok m ∧
    ofPattern "/k/:a?/*" ⟨false, false⟩ = .ok cased ∧ Pattern.Plain m.tokens ∧
    (cased.recognize "/k/x/y").isSome = true ∧ (m.recognize "/k/x/y").isSome = true ∧
    (m.recognize "/\u212A/X/y").isSome = true := by
  have tokenized : Pattern.tokenize "/k/:a?/*" =
      .ok [.literal "k", .param ⟨"a", none, true, false⟩, .param Param.catchAll] := by cbv
  have probed : probeAll (Pattern.params [.literal "k", .param ⟨"a", none, true, false⟩,
      .param Param.catchAll]) = .ok [Param.catchAllName] := by cbv
  obtain ⟨m, compiled, isTokens⟩ := @exists_ofPattern_of_probed _ _ ⟨true, false⟩ _ tokenized probed
    Recognizer.isSome_ofSource?_k
  obtain ⟨cased, compiled', isTokens'⟩ := @exists_ofPattern_of_probed _ _ ⟨false, false⟩ _ tokenized
    probed (show (Regex.ofSource?
      "^/k(?:/((?:[^/]+)))?(?:/((?:.*)(?:/(?:.*))*))?/?$").isSome = true by cbv)
  have plain : ∀ p ∈ Pattern.params [.literal "k", .param ⟨"a", none, true, false⟩,
      .param Param.catchAll], p.constraint = none ∨ p = Param.catchAll := by decide
  have recognized : (cased.recognize "/k/x/y").isSome = true := by
    have trailing := (ofPattern_eq_ok compiled').2.1
    rw [recognize, Option.isSome_map, Regex.find?,
      recognizer_expr_of_plain compiled' (isTokens' ▸ plain), isTokens', trailing, isTokens']
    cbv
  obtain ⟨alike, more⟩ := recognize_iff_of_caseFold compiled (isTokens ▸ plain)
  have recognized' := more cased compiled' "/k/x/y" recognized
  refine ⟨m, cased, compiled, compiled', isTokens ▸ plain, recognized, recognized', ?_⟩
  exact (alike "/k/x/y" "/\u212A/X/y" (by decide +kernel)).mp recognized'

end Matcher
end Waymark
