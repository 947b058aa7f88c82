/-
Patterns and their tokens, each made from the other.

A list of tokens is proper if every token is, as a pattern may spell it, and no two params
have one name.  The proper lists are exactly those that are read, and each is read off its
own text.  So a pattern is compiled again from its normal form into the same matcher.

* `readConstraint_iff_openAfter` — a constraint ends where its parentheses are closed;
* `Token.proper_iff_wellFormed` — what proper tokens are, in terms of the reader;
* `tokenize_iff_proper` — a list is read off its own text if and only if it is proper;
* `ofPattern_pattern` — a matcher is compiled again from its normal form;
* `print_tokenize_inverse` — all of it together.
-/
import Mathlib
import Waymark.Proofs.Pattern.Printing

namespace Waymark

namespace Pattern

variable {depth : Nat} {source rest : List Char} {tokens : List Token} {pattern : String}

/-! ### Parentheses -/

/-- How many parentheses are open after a text, where `depth` are open before it.  A backslash
takes the next character with it.  `none` if one is closed that is not open, or if the text ends
with such a backslash. -/
def openAfter (depth : Nat) : List Char → Option Nat
  | [] => some depth
  | ['\\'] => none
  | '\\' :: _ :: rest => openAfter depth rest
  | c :: rest =>
    if c = '(' then openAfter (depth + 1) rest
    else if c = ')' then
      match depth with
      | 0 => none
      | depth + 1 => openAfter depth rest
    else openAfter depth rest

/-- A constraint is read up to a parenthesis if and only if all others before it are closed. -/
theorem readConstraint_iff_openAfter :
    readConstraint depth (source ++ ')' :: rest) = some (source, rest) ↔
      openAfter depth source = some 0 := by
  fun_induction openAfter depth source with
  | case1 depth => cases depth <;> simp [readConstraint]
  | case2 => simp [readConstraint]
  | case3 depth c source ih =>
    rw [← ih, List.cons_append, List.cons_append, readConstraint]
    simp
  | case4 depth source _ _ ih =>
    rw [← ih, List.cons_append, readConstraint_other (by decide) (by decide), if_pos rfl]
    simp
  | case5 source => simp [readConstraint]
  | case6 source depth _ _ _ ih =>
    rw [← ih, List.cons_append]
    simp [readConstraint]
  | case7 depth c source notLone notEscape notOpening notClosing ih =>
    have notBackslash : c ≠ '\\' := by
      rintro rfl
      cases source with
      | nil => exact notLone rfl rfl
      | cons d source => exact notEscape d source rfl rfl
    rw [← ih, List.cons_append, readConstraint_other notBackslash notClosing, if_neg notOpening]
    simp

theorem isConstraint_iff_openAfter :
    IsConstraint source ↔ source ≠ [] ∧ openAfter 0 source = some 0 :=
  and_congr_right fun _ =>
    ⟨fun reads => readConstraint_iff_openAfter.mp (reads []),
      fun closed _ => readConstraint_iff_openAfter.mpr closed⟩

end Pattern

/-! ### Proper tokens -/

namespace Token

/-- A token as a pattern may spell it: text that stands for itself, or a param whose constraint
is closed by nothing before its end. -/
def Proper : Token → Prop
  | .literal text =>
    text ≠ "" ∧ '/' ∉ text.toList ∧ text.toList.head? ≠ some ':' ∧ text ≠ "*"
  | .param p =>
    p.name ≠ "" ∧ (∀ c ∈ p.name.toList, c.isAlphanum = true ∨ c = '_') ∧
      ∀ source, p.constraint = some source →
        source ≠ "" ∧ Pattern.openAfter 0 source.toList = some 0

theorem proper_iff_wellFormed {token : Token} : token.Proper ↔ Pattern.WellFormed token := by
  cases token with
  | literal text =>
    simp only [Proper, Pattern.WellFormed, Path.IsSegment, ne_eq, String.toList_eq_nil_iff,
      and_assoc]
  | param p =>
    simp only [Proper, Pattern.WellFormed, Pattern.isConstraint_iff_openAfter, Pattern.isNameChar,
      Bool.or_eq_true, decide_eq_true_eq, ne_eq, String.toList_eq_nil_iff]

end Token

namespace Pattern

variable {tokens : List Token} {pattern : String}

/-- Proper tokens whose params have names of their own. -/
structure Proper (tokens : List Token) : Prop where
  each : ∀ token ∈ tokens, token.Proper
  distinct : ((params tokens).map (·.name)).Nodup

/-- Tokens that are read are proper. -/
theorem proper_of_tokenize (h : tokenize pattern = .ok tokens) : Proper tokens where
  each := fun token member =>
    Token.proper_iff_wellFormed.mpr (wellFormed_of_mem_readTokens (tokenize_eq_ok h).1 token member)
  distinct := names_nodup_of_tokenize h

/-- Proper tokens are read off their normal form, with or without a slash at the end. -/
theorem Proper.tokenize_patternOf (h : Proper tokens) (slash : Bool) :
    tokenize (Matcher.patternOf tokens slash) = .ok tokens :=
  Matcher.tokenize_patternOf
    (fun token member => Token.proper_iff_wellFormed.mp (h.each token member))
    (repeatedName?_of_nodup h.distinct fun _ _ => List.not_mem_nil) slash

/-- The lists that are read off their own texts are the proper ones. -/
theorem tokenize_iff_proper : tokenize (print tokens) = .ok tokens ↔ Proper tokens := by
  refine ⟨proper_of_tokenize, fun proper => ?_⟩
  have read := proper.tokenize_patternOf false
  rwa [Matcher.patternOf, if_neg (by simp), String.append_empty] at read

end Pattern

/-! ### Matchers -/

namespace Matcher

variable {tokens : List Token} {pattern : String} {options : PatternOptions} {m : Matcher}

/-- The normal form ends with a slash only where the matcher asks for one. -/
theorem endsWithSlash_patternOf (wellFormed : ∀ token ∈ tokens, Pattern.WellFormed token)
    (nonempty : tokens ≠ []) (slash : Bool) : endsWithSlash (patternOf tokens slash) = slash := by
  rw [endsWithSlash, patternOf, String.toList_append, Pattern.toList_print, if_neg nonempty]
  cases slash with
  | true => simp
  | false =>
    have ends := @Path.getLast?_spell (tokens.map (·.text.toList))
      (by simpa using fun token member => Pattern.getLast?_text (wellFormed token member))
    simpa using ends

/-- A pattern is compiled again from its normal form. -/
theorem ofPattern_pattern (compiled : ofPattern pattern options = .ok m) :
    ofPattern m.pattern options = .ok m := by
  obtain ⟨tokenized, slash, -⟩ := ofPattern_eq_ok compiled
  have proper := Pattern.proper_of_tokenize tokenized
  have sameSlash : (options.strict && !m.tokens.isEmpty && endsWithSlash m.pattern) =
      m.trailingSlash := by
    by_cases nonempty : m.tokens = []
    · rw [slash, nonempty]
      simp
    · have ends := endsWithSlash_patternOf
        (fun token member => Token.proper_iff_wellFormed.mp (proper.each token member)) nonempty
        m.trailingSlash
      rw [Matcher.pattern, ends, slash]
      cases options.strict <;> simp
  rw [ofPattern, tokenized] at compiled
  rw [ofPattern, Matcher.pattern, proper.tokenize_patternOf, ← Matcher.pattern]
  simpa only [sameSlash, slash] using compiled

/-- Reading and writing patterns are inverse to each other.  The lists of tokens that are read
off their own texts are the proper ones, every list that is read is proper, and a matcher is
compiled again from its normal form, the same in all that it holds: its tokens, whether its paths
end with a slash, and its recognizer. -/
theorem print_tokenize_inverse :
    (∀ tokens, Pattern.tokenize (Pattern.print tokens) = .ok tokens ↔ Pattern.Proper tokens) ∧
      (∀ pattern tokens, Pattern.tokenize pattern = .ok tokens → Pattern.Proper tokens) ∧
      ∀ pattern options m, ofPattern pattern options = .ok m →
        ofPattern m.pattern options = .ok m :=
  ⟨fun _ => Pattern.tokenize_iff_proper, fun _ _ => Pattern.proper_of_tokenize,
    fun _ _ _ => ofPattern_pattern⟩

/-- A strict pattern with a slash at its end, whose constraint holds a slash and parentheses of
its own. -/
theorem print_tokenize_constrained : ∃ m,
    ofPattern "//:id((?:/\\)))?//*/" ⟨false, true⟩ = .ok m ∧ Pattern.Proper m.tokens ∧
      Pattern.tokenize (Pattern.print m.tokens) = .ok m.tokens ∧
      m.pattern = "/:id((?:/\\)))?/*/" ∧ ofPattern m.pattern ⟨false, true⟩ = .ok m := by
  have printed : (ofPattern "//:id((?:/\\)))?//*/" ⟨false, true⟩).toOption.map Matcher.pattern =
      some "/:id((?:/\\)))?/*/" := by cbv
  obtain ⟨readsBack, proper, again⟩ := print_tokenize_inverse
  cases compiled : ofPattern "//:id((?:/\\)))?//*/" ⟨false, true⟩ with
  | error e =>
    rw [compiled] at printed
    exact absurd printed (by simp [Except.toOption])
  | ok m =>
    have isProper := proper _ _ (ofPattern_eq_ok compiled).1
    rw [compiled] at printed
    exact ⟨m, rfl, isProper, (readsBack _).mpr isProper, Option.some.inj printed,
      again _ _ _ compiled⟩

end Matcher
end Waymark
