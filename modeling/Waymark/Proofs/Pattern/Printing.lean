/-
Patterns that are written and read again.

Whatever tokens are read from a text are well-formed, and the text of well-formed
tokens is read into the same tokens again, whatever follows it.  So a pattern in its
normal form says which tokens it has, and a nested path begins with the tokens of the
path that it is put under.

* `wellFormed_of_mem_readTokens` — every token that is read is well-formed;
* `readTokens_spell` — written tokens are read again;
* `tokenize_patternOf` — so are they from their normal form;
* `readTokens_resolve` — the tokens of a path under a parent are those of the parent and
  those of its own.
-/
import Waymark.Proofs.Pattern.Tokens
import Waymark.Matcher

namespace Waymark

namespace Param

/-- The constraint of a param as it is written. -/
def constraintText (p : Param) : List Char :=
  match p.constraint with
  | some source => '(' :: (source.toList ++ [')'])
  | none => []

/-- The mark of a param as it is written. -/
def mark (p : Param) : List Char :=
  match p.optional, p.repeatable with
  | true, true => ['*']
  | false, true => ['+']
  | true, false => ['?']
  | false, false => []

theorem toList_modifier (p : Param) : p.modifier.toList = p.mark := by
  obtain ⟨name, constraint, optional, repeatable⟩ := p
  cases optional <;> cases repeatable <;> simp [modifier, mark]

theorem toList_text {p : Param} (h : p ≠ catchAll) :
    p.text.toList = ':' :: (p.name.toList ++ (p.constraintText ++ p.mark)) := by
  rw [text, if_neg h, ← toList_modifier]
  cases isConstraint : p.constraint <;> simp [constraintText, isConstraint]

end Param

namespace Pattern

open Waymark.Path (IsSegment Boundary Compact spell hasDoubleSlash)

variable {cs source after rest : List Char} {p : Param} {token : Token} {tokens : List Token}

/-- A text that may stand between the parentheses of a constraint. -/
def IsConstraint (source : List Char) : Prop :=
  source ≠ [] ∧ ∀ rest, readConstraint 0 (source ++ ')' :: rest) = some (source, rest)

/-- A token as patterns have them. -/
def WellFormed : Token → Prop
  | .literal text => IsSegment text.toList ∧ text.toList.head? ≠ some ':' ∧ text ≠ "*"
  | .param p => p.name.toList ≠ [] ∧ (∀ c ∈ p.name.toList, isNameChar c = true) ∧
      ∀ source, p.constraint = some source → IsConstraint source.toList

/-! ### Params -/

theorem readConstraint_other {c : Char} (notBackslash : c ≠ '\\') (notClosing : c ≠ ')')
    (depth : Nat) (rest : List Char) :
    readConstraint depth (c :: rest) =
      (readConstraint (if c = '(' then depth + 1 else depth) rest).map fun (source, after) =>
        (c :: source, after) := by
  cases depth <;> simp only [readConstraint, notClosing, if_false]

/-- A constraint ends at the parenthesis that closes it, whatever follows. -/
theorem readConstraint_eq_some {depth : Nat} (h : readConstraint depth cs = some (source, after)) :
    cs = source ++ ')' :: after ∧
      ∀ rest, readConstraint depth (source ++ ')' :: rest) = some (source, rest) := by
  fun_induction readConstraint depth cs generalizing source with
  | case1 => exact absurd h (by simp)
  | case2 => exact absurd h (by simp)
  | case3 depth c cs ih =>
    obtain ⟨⟨inner, after'⟩, found, same⟩ := Option.map_eq_some_iff.mp h
    cases same
    obtain ⟨rfl, again⟩ := ih found
    refine ⟨rfl, fun rest => ?_⟩
    rw [List.cons_append, List.cons_append, readConstraint, again rest, Option.map_some]
  | case4 cs _ =>
    cases h
    exact ⟨rfl, fun rest => by simp [readConstraint]⟩
  | case5 cs depth _ ih =>
    obtain ⟨⟨inner, after'⟩, found, same⟩ := Option.map_eq_some_iff.mp h
    cases same
    obtain ⟨rfl, again⟩ := ih found
    exact ⟨rfl, fun rest => by simp [readConstraint, again rest]⟩
  | case6 depth c cs notBackslash notClosing ih =>
    obtain ⟨⟨inner, after'⟩, found, same⟩ := Option.map_eq_some_iff.mp h
    cases same
    obtain ⟨rfl, again⟩ := ih found
    refine ⟨rfl, fun rest => ?_⟩
    rw [List.cons_append, readConstraint_other notBackslash notClosing, again rest, Option.map_some]

theorem readModifier_mark (p : Param) (boundary : Boundary rest) :
    readModifier (p.mark ++ rest) = ((p.optional, p.repeatable), rest) := by
  obtain ⟨name, constraint, optional, repeatable⟩ := p
  cases optional <;> cases repeatable
  case false.false =>
    cases rest with
    | nil => rfl
    | cons c rest =>
      obtain rfl := boundary c rfl
      rfl
  all_goals rfl

theorem readModifier_eq {marks : Bool × Bool} (name : String) (constraint : Option String)
    (h : readModifier cs = (marks, after)) :
    cs = Param.mark ⟨name, constraint, marks.1, marks.2⟩ ++ after := by
  unfold readModifier at h
  split at h <;> cases h <;> rfl

/-- What follows the name of a param does not go on with the name. -/
theorem takeWhile_nameChar (p : Param) (boundary : Boundary rest) :
    (p.constraintText ++ (p.mark ++ rest)).takeWhile isNameChar = [] ∧
      (p.constraintText ++ (p.mark ++ rest)).dropWhile isNameChar =
        p.constraintText ++ (p.mark ++ rest) := by
  have stops : ∀ c, (p.constraintText ++ (p.mark ++ rest)).head? = some c →
      isNameChar c = false := by
    obtain ⟨name, constraint, optional, repeatable⟩ := p
    intro c head
    cases constraint with
    | some source =>
      obtain rfl : '(' = c := Option.some.inj head
      decide
    | none =>
      rw [Param.constraintText, List.nil_append] at head
      cases optional <;> cases repeatable
      case false.false =>
        rw [boundary c head]
        decide
      all_goals
        rw [← Option.some.inj head]
        decide
  cases text : p.constraintText ++ (p.mark ++ rest) with
  | nil => exact ⟨rfl, rfl⟩
  | cons c cs =>
    have stop := stops c (by rw [text]; rfl)
    rw [List.takeWhile_cons_of_neg (by simp [stop]), List.dropWhile_cons_of_neg (by simp [stop])]
    exact ⟨rfl, rfl⟩

theorem readConstraint?_text (wellFormed : WellFormed (.param p)) (boundary : Boundary rest) :
    readConstraint? p.name (p.constraintText ++ (p.mark ++ rest)) =
      .ok (p.constraint, p.mark ++ rest) := by
  obtain ⟨name, constraint, optional, repeatable⟩ := p
  obtain ⟨-, -, isConstraint⟩ := wellFormed
  cases constraint with
  | none =>
    rw [Param.constraintText, List.nil_append]
    cases optional <;> cases repeatable
    case false.false =>
      cases rest with
      | nil => rfl
      | cons c rest =>
        obtain rfl := boundary c rfl
        rfl
    all_goals rfl
  | some source =>
    obtain ⟨nonempty, reads⟩ := isConstraint source rfl
    simp only [Param.constraintText, readConstraint?, List.cons_append, List.append_assoc,
      List.nil_append, reads]
    rw [String.ofList_toList]

/-- The text of a param is read again. -/
theorem readParam_text (wellFormed : WellFormed (.param p)) (boundary : Boundary rest) :
    readParam (p.name.toList ++ (p.constraintText ++ (p.mark ++ rest))) =
      .ok (p, rest) := by
  have constraint := readConstraint?_text wellFormed boundary
  obtain ⟨nonempty, nameChars, -⟩ := wellFormed
  obtain ⟨nothing, everything⟩ := takeWhile_nameChar p boundary
  have named : p.name.isEmpty = false := by
    rw [← Bool.not_eq_true, String.isEmpty_iff]
    exact fun empty => nonempty (by rw [empty]; rfl)
  rw [readParam, List.takeWhile_append_of_pos nameChars, nothing, List.append_nil,
    List.dropWhile_append_of_pos nameChars, everything, String.ofList_toList]
  simp only [named, constraint, readModifier_mark p boundary, bind, Except.bind, pure, Except.pure,
    Bool.false_eq_true, if_false]
  cases rest with
  | nil => rfl
  | cons c rest =>
    obtain rfl := boundary c rfl
    rfl

theorem readConstraint?_eq_ok {name : String} {constraint : Option String}
    (h : readConstraint? name cs = .ok (constraint, after)) (optional repeatable : Bool) :
    cs = Param.constraintText ⟨name, constraint, optional, repeatable⟩ ++ after ∧
      ∀ source, constraint = some source → IsConstraint source.toList := by
  unfold readConstraint? at h
  split at h
  · split at h
    · exact absurd h (by simp)
    · exact absurd h (by simp)
    · rename_i source after' nonempty found
      cases h
      obtain ⟨rfl, again⟩ := readConstraint_eq_some found
      refine ⟨by simp [Param.constraintText], ?_⟩
      intro text isText
      rw [← Option.some.inj isText, String.toList_ofList]
      exact ⟨fun empty => nonempty empty, again⟩
  · cases h
    exact ⟨rfl, by simp⟩

/-- A param that is read is well-formed, and its text is what was read. -/
theorem readParam_eq_ok (h : readParam cs = .ok (p, after)) :
    WellFormed (.param p) ∧ Boundary after ∧
      cs = p.name.toList ++ (p.constraintText ++ (p.mark ++ after)) := by
  unfold readParam at h
  simp only [bind, Except.bind, pure, Except.pure, throw, throwThe, MonadExceptOf.throw] at h
  split at h
  · exact absurd h (by simp)
  rename_i named
  split at h
  · exact absurd h (by simp)
  rename_i pair found
  obtain ⟨constraint, rest⟩ := pair
  generalize marked : readModifier rest = read at h
  obtain ⟨marks, left⟩ := read
  have isParam : p = ⟨String.ofList (cs.takeWhile isNameChar), constraint, marks.1, marks.2⟩ ∧
      after = left ∧ Boundary left := by
    split at h
    · rename_i isNil
      obtain rfl : left = [] := isNil
      cases h
      exact ⟨rfl, rfl, Path.boundary_nil⟩
    · rename_i more isSlash
      obtain rfl : left = '/' :: more := isSlash
      cases h
      exact ⟨rfl, rfl, Path.boundary_slash _⟩
    · exact absurd h (by simp)
  obtain ⟨rfl, rfl, boundary⟩ := isParam
  obtain ⟨inConstraint, isConstraint⟩ := readConstraint?_eq_ok found marks.1 marks.2
  refine ⟨⟨?_, ?_, isConstraint⟩, boundary, ?_⟩
  · intro empty
    rw [Bool.not_eq_true, ← Bool.not_eq_true, String.isEmpty_iff, ← String.toList_inj] at named
    exact named empty
  · rw [String.toList_ofList]
    exact fun c member => List.mem_takeWhile_imp member
  · calc cs = cs.takeWhile isNameChar ++ cs.dropWhile isNameChar :=
          List.takeWhile_append_dropWhile.symm
      _ = _ := by rw [inConstraint, readModifier_eq _ constraint marked, String.toList_ofList]

/-! ### Tokens -/

theorem readTokens_param (read : readParam cs = .ok (p, rest)) :
    readTokens (':' :: cs) = (readTokens rest).map (.param p :: ·) := by
  rw [readTokens]
  split
  · rename_i failed
    rw [read] at failed
    exact absurd failed (by simp)
  · rename_i same
    rw [read] at same
    cases same
    rfl

theorem readTokens_literal (isSegment : IsSegment cs) (noColon : cs.head? ≠ some ':')
    (boundary : Boundary rest) :
    readTokens (cs ++ rest) = (readTokens rest).map (literalToken cs :: ·) := by
  obtain ⟨c, others, rfl⟩ := List.exists_cons_of_ne_nil isSegment.1
  rw [IsSegment, List.mem_cons, not_or] at isSegment
  obtain ⟨take, drop⟩ := Path.takeWhile_append isSegment.2.2 boundary
  rw [List.cons_append, readTokens, untilSlash, fromSlash, take, drop]
  · exact isSegment.2.1 ∘ Eq.symm
  · exact fun isColon => noColon (by rw [isColon]; rfl)

/-- The text of a token is read again. -/
theorem readTokens_text (wellFormed : WellFormed token) (boundary : Boundary rest) :
    readTokens (token.text.toList ++ rest) = (readTokens rest).map (token :: ·) := by
  cases token with
  | literal text =>
    obtain ⟨isSegment, noColon, notAsterisk⟩ := wellFormed
    have isLiteral : literalToken text.toList = .literal text := by
      rw [literalToken, if_neg, String.ofList_toList]
      exact fun same => notAsterisk (String.toList_inj.mp same)
    rw [Token.text, readTokens_literal isSegment noColon boundary, isLiteral]
  | param p =>
    by_cases catchAll : p = Param.catchAll
    · have asterisk : (Token.param p).text.toList = ['*'] := by
        rw [Token.text, Param.text, if_pos catchAll]
        rfl
      rw [asterisk, readTokens_literal ⟨by decide, by decide⟩ (by decide) boundary, catchAll]
      rfl
    · rw [Token.text, Param.toList_text catchAll, List.cons_append, List.append_assoc,
        List.append_assoc, readTokens_param (readParam_text wellFormed boundary)]

theorem isConstraint_wildcard : IsConstraint Param.wildcard.toList := by
  have text : Param.wildcard.toList = ['.', '*'] := by
    rw [Param.wildcard]
    simp
  rw [text]
  exact ⟨by simp, fun rest => by simp [readConstraint]⟩

theorem wellFormed_literalToken (isSegment : IsSegment cs) (noColon : cs.head? ≠ some ':') :
    WellFormed (literalToken cs) := by
  rw [literalToken]
  split
  · have name : Param.catchAll.name.toList = "pathMatch".toList := rfl
    refine ⟨by simp [name], by simp [name, isNameChar], fun source isSource => ?_⟩
    obtain rfl : Param.wildcard = source := Option.some.inj isSource
    exact isConstraint_wildcard
  · rename_i notAsterisk
    refine ⟨?_, ?_, fun same => notAsterisk ?_⟩
    · rwa [String.toList_ofList]
    · rwa [String.toList_ofList]
    · rw [← String.toList_ofList (l := cs), same]
      rfl

/-- Every token that is read is well-formed. -/
theorem wellFormed_of_mem_readTokens (h : readTokens cs = .ok tokens) :
    ∀ token ∈ tokens, WellFormed token := by
  refine forall_mem_readTokens (fun rest p after found => (readParam_eq_ok found).1) ?_ h
  intro c rest notSlash notColon
  refine wellFormed_literalToken (isSegment_untilSlash notSlash rest) fun isColon => ?_
  exact notColon (Option.some.inj isColon)

/-- Written tokens are read again, whatever follows them. -/
theorem readTokens_spell (wellFormed : ∀ token ∈ tokens, WellFormed token)
    (boundary : Boundary rest) :
    readTokens (spell (tokens.map (·.text.toList)) ++ rest) =
      (readTokens rest).map (tokens ++ ·) := by
  induction tokens with
  | nil =>
    cases read : readTokens rest <;> simp [read, Except.map]
  | cons token tokens ih =>
    obtain ⟨first, others⟩ := List.forall_mem_cons.mp wellFormed
    rw [List.map_cons, Path.spell_cons, List.cons_append, List.append_assoc, readTokens,
      readTokens_text first (Path.boundary_spell boundary), ih others]
    cases readTokens rest <;> rfl

/-! ### Patterns -/

theorem getLast?_mark (p : Param) : p.mark.getLast? ≠ some '/' := by
  unfold Param.mark
  split <;> decide

theorem getLast?_constraintText (p : Param) : p.constraintText.getLast? ≠ some '/' := by
  unfold Param.constraintText
  split
  · rw [← List.cons_append, List.getLast?_concat]
    decide
  · decide

theorem getLast?_paramText (wellFormed : WellFormed (.param p)) :
    (p.name.toList ++ (p.constraintText ++ p.mark)).getLast? ≠ some '/' := by
  obtain ⟨nonempty, nameChars, -⟩ := wellFormed
  have nameEnd : p.name.toList.getLast? ≠ some '/' := fun last =>
    absurd (nameChars _ (List.mem_of_getLast? last)) (by decide)
  rw [List.getLast?_append, List.getLast?_append, List.getLast?_eq_some_getLast nonempty]
  rw [List.getLast?_eq_some_getLast nonempty] at nameEnd
  have markEnd := getLast?_mark p
  have constraintEnd := getLast?_constraintText p
  cases inMark : p.mark.getLast? with
  | some c => rwa [inMark] at markEnd
  | none =>
    cases inConstraint : p.constraintText.getLast? with
    | some c => rwa [inConstraint] at constraintEnd
    | none => exact nameEnd

/-- The text of a token does not end with a slash. -/
theorem getLast?_text (wellFormed : WellFormed token) :
    token.text.toList ≠ [] ∧ token.text.toList.getLast? ≠ some '/' := by
  cases token with
  | literal text => exact ⟨wellFormed.1.1, fun last => wellFormed.1.2 (List.mem_of_getLast? last)⟩
  | param p =>
    rw [Token.text]
    by_cases catchAll : p = Param.catchAll
    · rw [Param.text, if_pos catchAll]
      decide
    · have nonempty : p.name.toList ++ (p.constraintText ++ p.mark) ≠ [] :=
        List.append_ne_nil_of_left_ne_nil wellFormed.1 _
      rw [Param.toList_text catchAll, List.getLast?_cons_of_ne_nil nonempty]
      exact ⟨by simp, getLast?_paramText wellFormed⟩

theorem compact_param (wellFormed : WellFormed (.param p))
    (single : hasDoubleSlash (p.name.toList ++ (p.constraintText ++ p.mark)) = false) :
    Compact (Token.param p).text.toList := by
  have last := (getLast?_text wellFormed).2
  by_cases catchAll : p = Param.catchAll
  · rw [Token.text, Param.text, if_pos catchAll]
    exact IsSegment.compact ⟨by decide, by decide⟩
  · rw [Token.text, Param.toList_text catchAll] at last ⊢
    refine ⟨by simp, by simp, last, ?_⟩
    rw [Path.hasDoubleSlash_cons, single]
    rfl

/-- In a text without two slashes in a row, no token that is read has them. -/
theorem compact_of_mem_readTokens (h : readTokens cs = .ok tokens)
    (single : hasDoubleSlash cs = false) : ∀ token ∈ tokens, Compact token.text.toList := by
  fun_induction readTokens cs generalizing tokens with
  | case1 =>
    obtain rfl := Except.ok.inj h
    simp
  | case2 rest ih =>
    rw [Path.hasDoubleSlash_cons, Bool.or_eq_false_iff] at single
    exact ih h single.2
  | case3 => exact absurd h (by simp)
  | case4 rest p after found shorter ih =>
    obtain ⟨others, read, rfl⟩ := exists_of_map_eq_ok h
    obtain ⟨wellFormed, -, isText⟩ := readParam_eq_ok found
    rw [Path.hasDoubleSlash_cons, Bool.or_eq_false_iff, isText, ← List.append_assoc,
      ← List.append_assoc] at single
    obtain ⟨inText, inRest⟩ := Path.hasDoubleSlash_of_append single.2
    rw [List.append_assoc] at inText
    exact List.forall_mem_cons.mpr ⟨compact_param wellFormed inText, ih read inRest⟩
  | case5 c rest notSlash notColon shorter ih =>
    obtain ⟨others, read, rfl⟩ := exists_of_map_eq_ok h
    have segment := isSegment_untilSlash notSlash rest
    have isText : c :: rest = (c :: untilSlash rest) ++ fromSlash rest := by
      rw [List.cons_append, untilSlash, fromSlash, List.takeWhile_append_dropWhile]
    rw [isText] at single
    refine List.forall_mem_cons.mpr ⟨?_, ih read (Path.hasDoubleSlash_of_append single).2⟩
    unfold literalToken
    split
    · have wellFormed : WellFormed (literalToken ['*']) :=
        wellFormed_literalToken ⟨by decide, by decide⟩ (by decide)
      exact compact_param wellFormed (by decide)
    · rw [Token.text, String.toList_ofList]
      exact segment.compact

theorem toList_print (tokens : List Token) :
    (print tokens).toList =
      if tokens = [] then ['/'] else spell (tokens.map (·.text.toList)) := by
  have texts : tokens.map Token.text = (tokens.map (·.text.toList)).map String.ofList := by
    rw [List.map_map]
    exact List.map_congr_left fun token _ => String.ofList_toList.symm
  rw [print, texts, Path.intercalate_ofList, Path.slash_append, String.toList_ofList]
  cases tokens with
  | nil => rfl
  | cons token tokens => rw [if_neg (List.cons_ne_nil _ _), List.map_cons, Path.spell_eq_cons]

end Pattern

namespace Matcher

open Waymark.Path (Compact Boundary spell)

variable {tokens : List Token} {slash : Bool} {pattern : String} {m : Matcher}

/-- What goes into the matcher for tokens. -/
theorem ofTokens_eq_ok {tokens : List Token} {options : PatternOptions} {slash : Bool} :
    ofTokens tokens options slash = .ok m ↔ m.tokens = tokens ∧ m.trailingSlash = slash ∧
      probeAll (Pattern.params tokens) = .ok m.emptyCapable ∧
      Regex.ofSource? (Recognizer.source tokens options slash) = some m.recognizer := by
  rw [ofTokens]
  constructor
  · intro h
    split at h
    · exact absurd h (by simp)
    · rename_i probed
      split at h
      · exact absurd h (by simp)
      · rename_i compiled
        obtain rfl := Except.ok.inj h
        exact ⟨rfl, rfl, probed, compiled⟩
  · rintro ⟨rfl, rfl, probed, compiled⟩
    simp only [probed, compiled]

theorem ofPattern_eq_ok {options : PatternOptions} (h : ofPattern pattern options = .ok m) :
    Pattern.tokenize pattern = .ok m.tokens ∧
      m.trailingSlash = (options.strict && !m.tokens.isEmpty && endsWithSlash pattern) ∧
      Regex.ofSource? (Recognizer.source m.tokens options m.trailingSlash) = some m.recognizer := by
  rw [ofPattern] at h
  split at h
  · exact absurd h (by simp)
  · rename_i tokens tokenized
    obtain ⟨rfl, isSlash, -, compiled⟩ := ofTokens_eq_ok.mp h
    exact ⟨tokenized, isSlash, isSlash ▸ compiled⟩

theorem exists_toList_patternOf (tokens : List Token) (slash : Bool) :
    ∃ tail, (∀ c ∈ tail, c = '/') ∧
      (patternOf tokens slash).toList = spell (tokens.map (·.text.toList)) ++ tail := by
  rw [patternOf, String.toList_append, Pattern.toList_print]
  have slashes : ∀ c ∈ (if slash then "/" else "").toList, c = '/' := by
    cases slash <;> simp
  split
  · rename_i root
    exact ⟨'/' :: (if slash then "/" else "").toList, by simpa using slashes, by rw [root]; rfl⟩
  · exact ⟨_, slashes, rfl⟩

theorem readTokens_slashes {tail : List Char} (slashes : ∀ c ∈ tail, c = '/') :
    Pattern.readTokens tail = .ok [] := by
  induction tail with
  | nil => rw [Pattern.readTokens]
  | cons c tail ih =>
    obtain ⟨rfl, others⟩ := List.forall_mem_cons.mp slashes
    rw [Pattern.readTokens]
    exact ih others

theorem boundary_slashes {tail : List Char} (slashes : ∀ c ∈ tail, c = '/') : Boundary tail :=
  fun c head => slashes c (List.mem_of_head? head)

/-- A pattern in its normal form is read into its tokens. -/
theorem readTokens_patternOf (wellFormed : ∀ token ∈ tokens, Pattern.WellFormed token)
    (slash : Bool) : Pattern.readTokens (patternOf tokens slash).toList = .ok tokens := by
  obtain ⟨tail, slashes, isText⟩ := exists_toList_patternOf tokens slash
  rw [isText, Pattern.readTokens_spell wellFormed (boundary_slashes slashes),
    readTokens_slashes slashes, Except.map, List.append_nil]

theorem tokenize_patternOf (wellFormed : ∀ token ∈ tokens, Pattern.WellFormed token)
    (distinct : Pattern.repeatedName? [] ((Pattern.params tokens).map (·.name)) = none)
    (slash : Bool) : Pattern.tokenize (patternOf tokens slash) = .ok tokens := by
  rw [Pattern.tokenize, readTokens_patternOf wellFormed slash]
  simp only [distinct]

/-- The tokens of a path that is put under a pattern are those of the pattern and those of its
own. -/
theorem readTokens_resolve (wellFormed : ∀ token ∈ tokens, Pattern.WellFormed token)
    (compact : ∀ token ∈ tokens, Compact token.text.toList) (slash : Bool) {raw : String}
    (relative : raw.toList.head? ≠ some '/') :
    Pattern.readTokens (Path.resolve raw (some (patternOf tokens slash))).toList =
      (Pattern.readTokens (Path.collapseFrom true raw.toList)).map (tokens ++ ·) := by
  obtain ⟨tail, slashes, isText⟩ := exists_toList_patternOf tokens slash
  have allCompact : ∀ s ∈ tokens.map (·.text.toList), Compact s := by
    simpa using compact
  rw [Path.resolve, if_neg relative, Path.join, String.toList_ofList, Path.joinChars, isText]
  cases isRaw : raw.toList with
  | nil =>
    -- nothing is put under the pattern, of which only slashes at the end may be left out
    have head : (spell (tokens.map (·.text.toList)) ++ tail).head? = some '/' := by
      rw [← isText, patternOf, Pattern.print, String.append_assoc, String.toList_append]
      rfl
    have collapsed : ∀ c ∈ Path.collapseFrom false tail, c = '/' := fun c member =>
      slashes c (Path.mem_of_mem_collapseFrom member)
    rw [List.isEmpty_nil, if_pos rfl, Path.collapseChars, if_pos head,
      Path.collapseFrom_spell allCompact, Pattern.readTokens_spell wellFormed
      (boundary_slashes collapsed), readTokens_slashes collapsed, Path.collapseFrom,
      Pattern.readTokens]
  | cons c cs =>
    have head : (spell (tokens.map (·.text.toList)) ++ '/' :: c :: cs).head? = some '/' := by
      cases tokens <;> rfl
    have boundary : Boundary ('/' :: Path.collapseFrom true (c :: cs)) := fun d first =>
      (Option.some.inj first).symm
    rw [List.isEmpty_cons, if_neg (by simp), Path.trimEnd_spell allCompact slashes,
      Path.collapseChars, if_pos head, Path.collapseFrom_spell allCompact, Path.collapseFrom,
      if_neg (by simp), decide_eq_true rfl, Pattern.readTokens_spell wellFormed boundary,
      Pattern.readTokens]

/-! ### Patterns of routes -/

/-- The pattern is one that a route may have. -/
def Registrable (m : Matcher) : Prop :=
  ∃ raw settings, ofPattern (Path.collapse raw) settings = .ok m

theorem registrable_of_resolve {m : Matcher} {raw : String} {above : Option String}
    {settings : PatternOptions} (h : ofPattern (Path.resolve raw above) settings = .ok m) :
    m.Registrable := by
  cases above with
  | none => exact ⟨raw, settings, h⟩
  | some path =>
    rw [Path.resolve] at h
    split at h
    · exact ⟨raw, settings, h⟩
    · -- a joined path is the collapsed form of the two parts together
      rw [Path.join, Path.joinChars] at h
      split at h
      · exact ⟨path, settings, h⟩
      · refine ⟨String.ofList (Path.trimEnd path.toList ++ '/' :: raw.toList), settings, ?_⟩
        rw [Path.collapse, String.toList_ofList]
        exact h

theorem registrable_of_collapsed {m : Matcher} {pattern : String} {settings : PatternOptions}
    (collapsed : Path.collapse pattern = pattern) (h : ofPattern pattern settings = .ok m) :
    m.Registrable := ⟨pattern, settings, by rw [collapsed]; exact h⟩

variable (h : m.Registrable)

include h

theorem Registrable.readTokens :
    ∃ raw, Pattern.readTokens (Path.collapse raw).toList = .ok m.tokens := by
  obtain ⟨raw, settings, compiled⟩ := h
  exact ⟨raw, (Pattern.tokenize_eq_ok (ofPattern_eq_ok compiled).1).1⟩

theorem Registrable.wellFormed : ∀ token ∈ m.tokens, Pattern.WellFormed token := by
  obtain ⟨raw, read⟩ := h.readTokens
  exact Pattern.wellFormed_of_mem_readTokens read

theorem Registrable.compact : ∀ token ∈ m.tokens, Compact token.text.toList := by
  obtain ⟨raw, read⟩ := h.readTokens
  exact Pattern.compact_of_mem_readTokens read (Path.hasDoubleSlash_collapse raw)

/-- The normal form of the pattern has the same tokens. -/
theorem Registrable.tokenize_pattern : Pattern.tokenize m.pattern = .ok m.tokens := by
  have wellFormed := h.wellFormed
  obtain ⟨raw, settings, compiled⟩ := h
  exact tokenize_patternOf wellFormed (Pattern.tokenize_eq_ok (ofPattern_eq_ok compiled).1).2 _

/-- A pattern under another one has its tokens in front. -/
theorem Registrable.tokens_nested {child : Matcher} {raw : String} {settings : PatternOptions}
    (relative : raw.toList.head? ≠ some '/')
    (compiled : ofPattern (Path.resolve raw (some m.pattern)) settings = .ok child) :
    ∃ own, Pattern.readTokens (Path.collapseFrom true raw.toList) = .ok own ∧
      child.tokens = m.tokens ++ own := by
  have read := (Pattern.tokenize_eq_ok (ofPattern_eq_ok compiled).1).1
  rw [Matcher.pattern, readTokens_resolve h.wellFormed h.compact _ relative] at read
  exact Pattern.exists_of_map_eq_ok read

end Matcher
end Waymark
