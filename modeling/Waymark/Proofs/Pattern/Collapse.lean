/-
Patterns whose slashes are collapsed.

The path of a route is collapsed before it is read.  Slashes between segments are skipped by the
reader anyway, but a constraint may hold slashes too, and of these the first of each run is left.
A backslash takes the next character with it, in the collapsed text the same one, because a slash
that is dropped has another slash in front of it.  So the reader goes through both texts in step.

* `readConstraint_collapseFrom` — a constraint ends at the same parenthesis;
* `readTokens_collapseFrom` — the tokens are the same but for the slashes in constraints;
* `map_squeeze_eq_self_iff` — they are the same exactly if no constraint has two slashes in a row;
* `toOption_tokenize_collapse` — what holds of the tokens of a whole path.
-/
import Waymark.Proofs.Pattern.Printing

namespace Waymark

open Waymark.Path (collapseFrom hasDoubleSlash)

/-- The text without repeated slashes. -/
def Path.squeeze (text : String) : String := String.ofList (collapseFrom false text.toList)

/-- The param whose constraint has no repeated slashes. -/
def Param.squeeze (p : Param) : Param := { p with constraint := p.constraint.map Path.squeeze }

/-- The token whose constraint has no repeated slashes. -/
def Token.squeeze : Token → Token
  | literal text => literal text
  | param p => param p.squeeze

/-- The fault in the text without repeated slashes. -/
def PatternFault.squeeze : PatternFault → PatternFault
  | strayText text name => strayText (Path.squeeze text) name
  | fault => fault

namespace Path

variable {c : Char} {cs : List Char} {p : Char → Bool}

theorem collapseFrom_cons_of_ne (other : c ≠ '/') (afterSlash : Bool) (cs : List Char) :
    collapseFrom afterSlash (c :: cs) = c :: collapseFrom false cs := by
  rw [collapseFrom, if_neg (by simp [other]), decide_eq_false other]

/-- The first character stays, even if it is a slash. -/
theorem collapseFrom_false_cons (c : Char) (cs : List Char) :
    collapseFrom false (c :: cs) = c :: collapseFrom (c = '/') cs := by
  rw [collapseFrom, if_neg (by simp)]

theorem eq_nil_of_collapseFrom (h : collapseFrom false cs = []) : cs = [] := by
  cases cs with
  | nil => rfl
  | cons c cs => exact absurd h (by simp [collapseFrom_false_cons])

theorem head?_collapseFrom (cs : List Char) : (collapseFrom false cs).head? = cs.head? := by
  cases cs with
  | nil => rfl
  | cons c cs => rw [collapseFrom_false_cons]; rfl

theorem collapseFrom_of_hasDoubleSlash {afterSlash : Bool} (single : hasDoubleSlash cs = false)
    (front : afterSlash = true → cs.head? ≠ some '/') : collapseFrom afterSlash cs = cs := by
  induction cs generalizing afterSlash with
  | nil => rfl
  | cons c cs ih =>
    rw [hasDoubleSlash_cons, Bool.or_eq_false_iff, decide_eq_false_iff_not] at single
    have kept : ¬ (decide (c = '/') && afterSlash) = true := by
      rw [Bool.and_eq_true, decide_eq_true_iff]
      rintro ⟨rfl, after⟩
      exact front after rfl
    rw [collapseFrom, if_neg kept]
    exact congrArg (c :: ·) (ih single.2 fun isSlash head =>
      single.1 ⟨of_decide_eq_true isSlash, head⟩)

/-- A text is left as it is exactly if it has no two slashes in a row. -/
theorem collapseFrom_eq_self_iff : collapseFrom false cs = cs ↔ hasDoubleSlash cs = false := by
  refine ⟨fun same => ?_, fun single => collapseFrom_of_hasDoubleSlash single (by simp)⟩
  rw [← same]
  exact (hasDoubleSlash_collapseFrom false cs).1

/-- The end of a text does not change. -/
theorem getLast?_collapseFrom (cs : List Char) :
    (collapseFrom false cs).getLast? = cs.getLast? := by
  have behind : ∀ (c : Char) (cs : List Char),
      (c :: collapseFrom (c = '/') cs).getLast? = (c :: cs).getLast? := by
    intro c cs
    induction cs generalizing c with
    | nil => rfl
    | cons d cs ih =>
      rw [collapseFrom, List.getLast?_cons_cons, ← ih d]
      split
      · rename_i dropped
        simp only [Bool.and_eq_true, decide_eq_true_eq] at dropped
        rw [dropped.1, dropped.2, decide_eq_true rfl]
      · rw [List.getLast?_cons_cons]
  cases cs with
  | nil => rfl
  | cons c cs => rw [collapseFrom_false_cons, behind]

theorem getLast?_collapse {text : String} (nonempty : text.toList ≠ []) :
    (collapse text).toList.getLast? = text.toList.getLast? := by
  rw [collapse, String.toList_ofList, collapseChars, ← getLast?_collapseFrom text.toList]
  split
  · rfl
  · rw [List.getLast?_cons_of_ne_nil fun none => nonempty (eq_nil_of_collapseFrom none)]

theorem takeWhile_collapseFrom (noSlash : p '/' = false) (cs : List Char) :
    (collapseFrom false cs).takeWhile p = cs.takeWhile p := by
  induction cs with
  | nil => rfl
  | cons c cs ih =>
    by_cases isSlash : c = '/'
    · subst isSlash
      rw [collapseFrom_false_cons, List.takeWhile_cons_of_neg (by simp [noSlash]),
        List.takeWhile_cons_of_neg (by simp [noSlash])]
    · rw [collapseFrom_cons_of_ne isSlash, List.takeWhile_cons, List.takeWhile_cons, ih]

theorem dropWhile_collapseFrom (noSlash : p '/' = false) (cs : List Char) :
    (collapseFrom false cs).dropWhile p = collapseFrom false (cs.dropWhile p) := by
  induction cs with
  | nil => rfl
  | cons c cs ih =>
    by_cases isSlash : c = '/'
    · subst isSlash
      rw [List.dropWhile_cons_of_neg (by simp [noSlash]), collapseFrom_false_cons,
        List.dropWhile_cons_of_neg (by simp [noSlash])]
    · rw [collapseFrom_cons_of_ne isSlash, List.dropWhile_cons, List.dropWhile_cons, ih]
      split
      · rfl
      · rw [collapseFrom_cons_of_ne isSlash]

end Path

namespace Pattern

variable {cs source after rest : List Char} {tokens : List Token} {p : Param}

/-! ### Params -/

/-- A constraint ends at the same parenthesis. -/
theorem readConstraint_collapseFrom (depth : Nat) (afterSlash : Bool) (cs : List Char) :
    readConstraint depth (collapseFrom afterSlash cs) =
      (readConstraint depth cs).map fun (source, after) =>
        (collapseFrom afterSlash source, collapseFrom false after) := by
  fun_induction readConstraint depth cs generalizing afterSlash with
  | case1 => rfl
  | case2 depth =>
    rw [Path.collapseFrom_cons_of_ne (by decide)]
    rfl
  | case3 depth c rest ih =>
    rw [Path.collapseFrom_cons_of_ne (by decide), Path.collapseFrom_false_cons, readConstraint, ih,
      Option.map_map, Option.map_map]
    refine congrArg (Option.map · _) (funext fun _ => ?_)
    simp only [Function.comp_apply, Path.collapseFrom_cons_of_ne (show '\\' ≠ '/' by decide),
      Path.collapseFrom_false_cons]
  | case4 rest _ =>
    rw [Path.collapseFrom_cons_of_ne (by decide)]
    simp [readConstraint, collapseFrom]
  | case5 rest depth _ ih =>
    rw [Path.collapseFrom_cons_of_ne (by decide)]
    simp only [readConstraint, if_pos, ih, Option.map_map]
    refine congrArg (Option.map · _) (funext fun _ => ?_)
    simp only [Function.comp_apply, Path.collapseFrom_cons_of_ne (show ')' ≠ '/' by decide)]
  | case6 depth c rest notBackslash notClosing ih =>
    rw [Option.map_map]
    by_cases dropped : (decide (c = '/') && afterSlash) = true
    · obtain ⟨isSlash, rfl⟩ := Bool.and_eq_true_iff.mp dropped
      obtain rfl := of_decide_eq_true isSlash
      rw [collapseFrom, if_pos dropped]
      exact ih true
    · rw [collapseFrom, if_neg dropped, readConstraint_other notBackslash notClosing, ih,
        Option.map_map]
      refine congrArg (Option.map · _) (funext fun _ => ?_)
      simp only [Function.comp_apply, collapseFrom, if_neg dropped]

theorem readConstraint?_of_head {name : String} (h : cs.head? ≠ some '(') :
    readConstraint? name cs = .ok (none, cs) := by
  unfold readConstraint?
  split
  · exact absurd rfl h
  · rfl

theorem readConstraint?_collapseFrom (name : String) (cs : List Char) :
    readConstraint? name (collapseFrom false cs) =
      ((readConstraint? name cs).map fun (constraint, after) =>
        (constraint.map Path.squeeze, collapseFrom false after)).mapError
          PatternFault.squeeze := by
  by_cases opening : cs.head? = some '('
  · obtain ⟨rest, rfl⟩ := List.head?_eq_some_iff.mp opening
    rw [Path.collapseFrom_cons_of_ne (by decide), readConstraint?, readConstraint?,
      readConstraint_collapseFrom]
    cases readConstraint 0 rest with
    | none => rfl
    | some pair =>
      obtain ⟨source, after⟩ := pair
      cases source with
      | nil => rfl
      | cons c source =>
        simp only [Option.map_some, Path.collapseFrom_false_cons, Except.map, Except.mapError,
          Path.squeeze, String.toList_ofList]
  · rw [readConstraint?_of_head opening, readConstraint?_of_head]
    · rfl
    · rwa [Path.head?_collapseFrom]

theorem readModifier_collapseFrom (cs : List Char) :
    readModifier (collapseFrom false cs) =
      ((readModifier cs).1, collapseFrom false (readModifier cs).2) := by
  cases cs with
  | nil => rfl
  | cons c rest =>
    by_cases isSlash : c = '/'
    · subst isSlash
      rw [Path.collapseFrom_false_cons]
      rfl
    · rw [Path.collapseFrom_cons_of_ne isSlash]
      unfold readModifier
      split <;> simp_all [Path.collapseFrom_cons_of_ne]

/-- A param that has been read ends at a slash or at the end of the text. -/
def finishParam (p : Param) (rest : List Char) : Except PatternFault (Param × List Char) :=
  match rest with
  | [] => .ok (p, [])
  | '/' :: _ => .ok (p, rest)
  | _ => .error (.strayText (String.ofList rest) p.name)

theorem readParam_eq (cs : List Char) :
    readParam cs =
      if (String.ofList (cs.takeWhile isNameChar)).isEmpty then .error .missingName
      else (readConstraint? (String.ofList (cs.takeWhile isNameChar))
        (cs.dropWhile isNameChar)).bind fun (constraint, rest) =>
          finishParam ⟨String.ofList (cs.takeWhile isNameChar), constraint, (readModifier rest).1.1,
            (readModifier rest).1.2⟩ (readModifier rest).2 := by
  rw [readParam]
  simp only [bind, pure, Except.pure, throw, throwThe, MonadExceptOf.throw]
  split
  · rfl
  · rfl

theorem finishParam_of_ne {c : Char} (other : c ≠ '/') (p : Param) (rest : List Char) :
    finishParam p (c :: rest) = .error (.strayText (String.ofList (c :: rest)) p.name) := by
  unfold finishParam
  split
  · exact absurd ‹_› (by simp)
  · rename_i same
    exact absurd (List.cons.inj same).1 other
  · rfl

/-- The param and what follows it in the collapsed text. -/
def squeezeRead (read : Except PatternFault (Param × List Char)) :
    Except PatternFault (Param × List Char) :=
  (read.map fun (p, after) => (p.squeeze, collapseFrom false after)).mapError PatternFault.squeeze

theorem finishParam_collapseFrom (p : Param) (rest : List Char) :
    finishParam p.squeeze (collapseFrom false rest) = squeezeRead (finishParam p rest) := by
  cases rest with
  | nil => rfl
  | cons c rest =>
    by_cases isSlash : c = '/'
    · subst isSlash
      rw [Path.collapseFrom_false_cons]
      exact congrArg (fun after => Except.ok (p.squeeze, after))
        (Path.collapseFrom_false_cons '/' rest).symm
    · rw [Path.collapseFrom_cons_of_ne isSlash, finishParam_of_ne isSlash,
        finishParam_of_ne isSlash, ← Path.collapseFrom_cons_of_ne isSlash false]
      simp only [squeezeRead, Except.map, Except.mapError, PatternFault.squeeze, Path.squeeze,
        String.toList_ofList]
      rfl

/-- A param is read with its constraint collapsed, or there is the same fault. -/
theorem readParam_collapseFrom (cs : List Char) :
    readParam (collapseFrom false cs) = squeezeRead (readParam cs) := by
  rw [readParam_eq, readParam_eq, Path.takeWhile_collapseFrom (by decide),
    Path.dropWhile_collapseFrom (by decide), readConstraint?_collapseFrom]
  generalize String.ofList (cs.takeWhile isNameChar) = name
  split
  · rfl
  · cases readConstraint? name (cs.dropWhile isNameChar) with
    | error fault => rfl
    | ok pair =>
      obtain ⟨constraint, rest⟩ := pair
      simp only [Except.map, Except.mapError, Except.bind, readModifier_collapseFrom]
      exact finishParam_collapseFrom ⟨_, constraint, _, _⟩ _

/-! ### Tokens -/

theorem squeeze_literalToken (text : List Char) :
    (literalToken text).squeeze = literalToken text := by
  rw [literalToken]
  split <;> rfl

theorem readTokens_param_error {fault : PatternFault} (failed : readParam cs = .error fault) :
    readTokens (':' :: cs) = .error fault := by
  rw [readTokens]
  split
  · rename_i same
    exact congrArg Except.error (Except.error.inj (same.symm.trans failed))
  · rename_i same
    rw [failed] at same
    exact absurd same (by simp)

theorem readTokens_other {c : Char} (notSlash : c ≠ '/') (notColon : c ≠ ':')
    (rest : List Char) :
    readTokens (c :: rest) =
      (readTokens (fromSlash rest)).map (literalToken (c :: untilSlash rest) :: ·) := by
  rw [readTokens]
  · exact notSlash
  · exact notColon

/-- The tokens of the collapsed text are those of the text, with their constraints collapsed; a
fault of the one text is a fault of the other. -/
theorem readTokens_collapseFrom (afterSlash : Bool) (cs : List Char) :
    readTokens (collapseFrom afterSlash cs) =
      ((readTokens cs).map (List.map Token.squeeze)).mapError PatternFault.squeeze := by
  fun_induction readTokens cs generalizing afterSlash with
  | case1 => rw [collapseFrom, readTokens]; rfl
  | case2 rest ih =>
    cases afterSlash with
    | true => exact ih true
    | false => rw [Path.collapseFrom_false_cons, readTokens, ih]
  | case3 rest fault failed =>
    have again := readParam_collapseFrom rest
    rw [failed] at again
    rw [Path.collapseFrom_cons_of_ne (by decide), readTokens_param_error again]
    rfl
  | case4 rest p after found shorter ih =>
    have again := readParam_collapseFrom rest
    rw [found] at again
    rw [Path.collapseFrom_cons_of_ne (by decide), readTokens_param again, ih]
    cases readTokens after <;> rfl
  | case5 c rest notSlash notColon shorter ih =>
    rw [Path.collapseFrom_cons_of_ne notSlash, readTokens_other notSlash notColon, untilSlash,
      fromSlash, Path.takeWhile_collapseFrom (by decide), Path.dropWhile_collapseFrom (by decide),
      ← fromSlash, ih]
    cases readTokens (fromSlash rest) with
    | error fault => rfl
    | ok tokens =>
      simp only [Except.map, Except.mapError, List.map_cons, squeeze_literalToken, untilSlash]

/-- No constraint holds two slashes in a row. -/
def SingleSlashed (tokens : List Token) : Prop :=
  ∀ p ∈ params tokens, ∀ source, p.constraint = some source →
    hasDoubleSlash source.toList = false

theorem squeeze_eq_self_iff {p : Param} : p.squeeze = p ↔
    ∀ source, p.constraint = some source → hasDoubleSlash source.toList = false := by
  obtain ⟨name, constraint, optional, repeatable⟩ := p
  cases constraint with
  | none => simp [Param.squeeze]
  | some source =>
    simp only [Param.squeeze, Option.map_some, Param.mk.injEq, true_and, and_true,
      Option.some.injEq, forall_eq', ← Path.collapseFrom_eq_self_iff]
    rw [Path.squeeze, ← String.toList_inj, String.toList_ofList]

theorem map_squeeze_eq_self_iff : tokens.map Token.squeeze = tokens ↔ SingleSlashed tokens := by
  have each : tokens.map Token.squeeze = tokens ↔ ∀ token ∈ tokens, token.squeeze = token := by
    simpa using List.map_inj_left (f := Token.squeeze) (g := id) (l := tokens)
  rw [each]
  constructor
  · intro same p member
    exact squeeze_eq_self_iff.mp (Token.param.inj (same _ (mem_params.mp member)))
  · intro single token member
    cases token with
    | literal text => rfl
    | param p =>
      exact congrArg Token.param (squeeze_eq_self_iff.mpr (single p (mem_params.mpr member)))

theorem names_map_squeeze (tokens : List Token) :
    (params (tokens.map Token.squeeze)).map (·.name) = (params tokens).map (·.name) := by
  induction tokens with
  | nil => rfl
  | cons token tokens ih =>
    cases token with
    | literal text => exact ih
    | param p => exact congrArg (p.name :: ·) ih

/-! ### Patterns -/

/-- A path without a parent is read like its text without repeated slashes. -/
theorem readTokens_collapse (raw : String) :
    readTokens (Path.collapse raw).toList = readTokens (collapseFrom false raw.toList) := by
  rw [Path.collapse, String.toList_ofList, Path.collapseChars]
  split
  · rfl
  · rw [readTokens]

theorem toOption_tokenize (pattern : String) :
    (tokenize pattern).toOption =
      (readTokens pattern.toList).toOption.filter fun tokens =>
        (repeatedName? [] ((params tokens).map (·.name))).isNone := by
  rw [tokenize]
  cases readTokens pattern.toList with
  | error fault => rfl
  | ok tokens =>
    cases repeated : repeatedName? [] ((params tokens).map (·.name)) <;>
      simp [repeated, Except.toOption, Option.filter]

/-- The tokens of a collapsed path are those of the path, with their constraints collapsed, or
both are faulty. -/
theorem toOption_tokenize_collapse (raw : String) :
    (tokenize (Path.collapse raw)).toOption =
      (tokenize raw).toOption.map (List.map Token.squeeze) := by
  rw [toOption_tokenize, toOption_tokenize, readTokens_collapse, readTokens_collapseFrom]
  cases readTokens raw.toList with
  | error fault => rfl
  | ok tokens =>
    simp only [Except.map, Except.mapError, Except.toOption, Option.filter_some, names_map_squeeze]
    split <;> rfl

/-- They are the same if and only if no constraint holds two slashes in a row. -/
theorem toOption_tokenize_collapse_eq_iff (raw : String) :
    (tokenize (Path.collapse raw)).toOption = (tokenize raw).toOption ↔
      ∀ tokens, tokenize raw = .ok tokens → SingleSlashed tokens := by
  rw [toOption_tokenize_collapse]
  cases tokenize raw with
  | error error => simp [Except.toOption]
  | ok tokens => simp [Except.toOption, map_squeeze_eq_self_iff]

end Pattern
end Waymark
