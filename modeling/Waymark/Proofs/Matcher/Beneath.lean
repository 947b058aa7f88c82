/-
Everything beneath a path.

Literal texts with a bare asterisk behind them recognize the paths that begin with the texts and
then stop, or go on with a slash.  There is no choice: the texts take as many characters as they
have, and the asterisk takes what is left.  But the asterisk is one line, as a dot is no newline,
and a path with a newline behind the texts is not recognized.

* `run_letters_eq` — literal text takes as many characters as it has;
* `recognize_beneath_iff` — what is recognized, under any options;
* `recognize_beneath_of_isCanonical` — and of canonical paths, with regard to the case of letters.
-/
import Waymark.Proofs.Matcher.FinalSlash

namespace Waymark

open Regex Regex.Point Waymark.Path

theorem Pattern.params_literals (texts : List String) :
    params (texts.map Token.literal) = [] := by
  rw [params, List.filterMap_map, List.filterMap_eq_nil_iff]
  exact fun _ _ => rfl

namespace Recognizer

variable {ci : Bool} {index : Nat} {texts : List String} {text cs ds : List Char} {p : Point}
  {e : Expr} {ending : Ending}

/-! ### Literal texts -/

theorem length_of_spells (h : spells ci cs ds = true) : cs.length = ds.length := by
  induction cs generalizing ds with
  | nil =>
    cases ds with
    | nil => rfl
    | cons d ds => rw [spells_nil_cons] at h; exact absurd h (by simp)
  | cons c cs ih =>
    cases ds with
    | nil => rw [spells_cons_nil] at h; exact absurd h (by simp)
    | cons d ds =>
      rw [spells, Bool.and_eq_true] at h
      rw [List.length_cons, List.length_cons, ih h.2]

/-- Literal text takes as many characters as it has, slashes included. -/
theorem run_letters_eq {α : Type} {k : Point → Option α} (fair : Fair k) (place : p.In text)
    (cs : List Char) :
    (Expr.inSequence (literalParts ci cs)).run k p =
      if spells ci cs (p.rest.take cs.length) then
        k (p.past (p.rest.take cs.length) (p.rest.drop cs.length)) else none := by
  induction cs generalizing p with
  | nil => exact Expr.run_empty
  | cons c cs ih =>
    rw [literalParts, List.map_cons, Expr.run_inSequence_cons fair place]
    cases isRest : p.rest with
    | nil => rw [Expr.run_set_of_nil _ isRest, List.take_nil, spells_cons_nil, if_neg (by simp)]
    | cons d rest =>
      have others := ih (place.next isRest)
      rw [literalParts] at others
      rw [Expr.run_set_of_cons _ isRest, others, past_rest, past_past, List.length_cons,
        List.take_succ_cons, List.drop_succ_cons, spells, List.singleton_append]
      cases (letter ci c).has d <;> simp

/-- Literal tokens are one literal text. -/
theorem partsOf_literals (base : Param → Expr) (index : Nat) (texts : List String) :
    partsOf ci base index (texts.map .literal) =
      literalParts ci (spell (texts.map String.toList)) := by
  induction texts with
  | nil => rfl
  | cons t texts ih =>
    rw [List.map_cons, partsOf, ih, List.map_cons, spell_cons, literalParts, literalParts,
      literalParts, List.map_cons, List.map_append]
    rfl

/-! ### The search -/

/-- The texts take the beginning, and the asterisk what is left. -/
theorem search?_beneath
    (h : e = .inSequence ((if ci then [.empty] else []) ++ framed ci
      (partsOf ci (plainBase ci) 1 (texts.map .literal ++ [.param Param.catchAll])) ending))
    (empty : ending.accepts [] = true) {groups : List (Nat × List Char)} :
    (e.search? text).map (·.groups) = some groups ↔
      ∃ taken rest, text = taken ++ rest ∧
        spells ci (spell (texts.map String.toList)) taken = true ∧ Boundary rest ∧
          swallow 1 rest [] = some groups := by
  have fair : Fair ((Expr.inSequence (ending.parts ci ++ [.look .textEnd])).run given) :=
    Expr.fair_run fair_given _
  have place := in_start text
  have catchAll : partsOf ci (plainBase ci) (1 + (Pattern.params (texts.map Token.literal)).length)
      [.param Param.catchAll] = paramPartsOf ci line 1 Param.catchAll := by
    rw [Pattern.params_literals, partsOf, partsOf, List.append_nil]
    rfl
  rw [search?_eq h, partsOf_append, partsOf_literals, catchAll,
    Expr.run_inSequence_append fair place, run_letters_eq (Expr.fair_run fair _) place]
  generalize spell (texts.map String.toList) = front
  have isRest : (Point.start text).rest = text := rfl
  rw [isRest]
  -- the run of the asterisk, where the texts end
  have last : ∀ {taken rest}, text = taken ++ rest → Boundary rest →
      (Expr.inSequence (paramPartsOf ci line 1 Param.catchAll)).run
          ((Expr.inSequence (ending.parts ci ++ [.look .textEnd])).run given)
          ((Point.start text).past taken rest) = swallow 1 rest [] := fun isText boundary =>
    run_swallow (splits ci) empty (place.past (isRest.trans isText)) boundary
  constructor
  · intro found
    rw [Option.ite_none_right_eq_some] at found
    obtain ⟨spelled, found⟩ := found
    have isText := (List.take_append_drop front.length text).symm
    refine ⟨text.take front.length, text.drop front.length, isText, spelled, ?_⟩
    -- in the middle of a segment nothing is left to be matched
    by_cases boundary : Boundary (text.drop front.length)
    · exact ⟨boundary, (last isText boundary) ▸ found⟩
    · obtain ⟨c, first, other⟩ : ∃ c, (text.drop front.length).head? = some c ∧ c ≠ '/' := by
        simpa [Boundary] using boundary
      obtain ⟨rest, isDrop⟩ := List.head?_eq_some_iff.mp first
      have nothing := @bounded_swallow ci 1 text (splits ci) _ _ fair (bounded_ending (splits ci))
        ((Point.start text).past (text.take front.length) (text.drop front.length)) c rest
        (place.past (isRest.trans isText)) isDrop other
      rw [nothing] at found
      exact absurd found (by simp)
  · rintro ⟨taken, rest, isText, spelled, boundary, found⟩
    have length := length_of_spells spelled
    rw [length, isText, List.take_left, List.drop_left, ← isText, if_pos spelled,
      last isText boundary, found]

end Recognizer

/-! ### Paths -/

namespace Matcher

open Recognizer (spells swallow)

variable {texts : List String} {options : PatternOptions} {m : Matcher} {path : String}
  {params : Params} {rest : List Char}

/-- The params of a path with some text behind the literal ones. -/
def beneath (rest : List Char) : Params :=
  if rest.tail = [] then [] else [(Param.catchAllName, readValue true rest.tail)]

/-- Of a text without double slashes nothing but its segments matters. -/
theorem beneath_of_hasDoubleSlash (boundary : Boundary rest)
    (single : hasDoubleSlash rest = false) :
    beneath rest = if segments rest = [] then []
      else [(Param.catchAllName, .list ((segments rest).map decodedSegment))] := by
  cases rest with
  | nil => rfl
  | cons c body =>
    obtain rfl := boundary c rfl
    rw [beneath, List.tail_cons, segments_cons_slash, readValue, if_pos rfl]
    cases body with
    | nil => rfl
    | cons d body =>
      have inside : d ≠ '/' := by
        rintro rfl
        simp [hasDoubleSlash] at single
      have some : segments (d :: body) ≠ [] := by
        rw [segments, pieces, if_neg inside]
        split <;> simp
      rw [if_neg (by simp), if_neg some]
      rfl

theorem swallow_eq_some (boundary : Boundary rest) {groups : List (Nat × List Char)} :
    swallow 1 rest [] = some groups ↔
      '\n' ∉ rest ∧ groups = if rest = [] then [] else [(1, rest.tail)] := by
  cases rest with
  | nil => simp [swallow, eq_comm]
  | cons c body =>
    obtain rfl := boundary c rfl
    rw [swallow]
    by_cases newline : '\n' ∈ body <;> simp [newline, eq_comm]

theorem readGroups_swallow (isKeys : m.keys = [Param.catchAll.key]) (rest : List Char) :
    m.readGroups (if rest = [] then [] else [(1, rest.tail)]) = beneath rest := by
  rw [readGroups, isKeys]
  rcases rest with - | ⟨c, - | ⟨d, body⟩⟩ <;> rfl

/-- Literal texts with a bare asterisk behind them recognize what begins with the texts, up to a
slash or to the end, and goes on in a single line. -/
theorem recognize_beneath_iff (compiled :
    ofTokens (texts.map .literal ++ [.param Param.catchAll]) options false = .ok m) :
    m.recognize path = some params ↔ ∃ taken rest, path.toList = taken ++ rest ∧
      spells options.caseInsensitive (spell (texts.map String.toList)) taken = true ∧
        Boundary rest ∧ '\n' ∉ rest ∧ params = beneath rest := by
  obtain ⟨isTokens, trailing, -, isSource⟩ := ofTokens_eq_ok.mp compiled
  have onlyParam : Pattern.params (texts.map .literal ++ [.param Param.catchAll]) =
      [Param.catchAll] := by
    rw [Pattern.params, List.filterMap_append, ← Pattern.params, Pattern.params_literals]
    rfl
  have stands : ∀ p ∈ Pattern.params (texts.map .literal ++ [.param Param.catchAll]),
      Recognizer.Stands options.caseInsensitive p
        (Recognizer.plainBase options.caseInsensitive p) := fun p member =>
    Recognizer.stands_plainBase (Or.inr (List.mem_singleton.mp (onlyParam ▸ member)))
  have isExpr := Recognizer.expr_of_stands stands isSource
  have empty : (Recognizer.ending (texts.map .literal ++ [.param Param.catchAll]) options.strict
      false).accepts [] = true := by
    rw [Recognizer.ending, List.isEmpty_eq_false_iff.mpr (by simp)]
    cases options.strict <;> rfl
  have isKeys : m.keys = [Param.catchAll.key] := by
    rw [keys, isTokens, onlyParam]
    rfl
  rw [recognize_eq, Option.map_eq_some_iff]
  simp only [Recognizer.search?_beneath isExpr empty]
  constructor
  · rintro ⟨groups, ⟨taken, rest, isPath, spelled, boundary, found⟩, rfl⟩
    obtain ⟨single, rfl⟩ := (swallow_eq_some boundary).mp found
    exact ⟨taken, rest, isPath, spelled, boundary, single, readGroups_swallow isKeys rest⟩
  · rintro ⟨taken, rest, isPath, spelled, boundary, single, rfl⟩
    exact ⟨_, ⟨taken, rest, isPath, spelled, boundary,
      (swallow_eq_some boundary).mpr ⟨single, rfl⟩⟩, readGroups_swallow isKeys rest⟩

/-- Of the canonical paths they recognize, with regard to the case of letters, the texts themselves
and what goes on behind them with a slash, and the segments behind are the value of the asterisk. -/
theorem recognize_beneath_of_isCanonical (sensitive : options.caseInsensitive = false) (compiled :
    ofTokens (texts.map .literal ++ [.param Param.catchAll]) options false = .ok m)
    (canonical : isCanonical path = true) :
    m.recognize path = some params ↔ ∃ rest,
      path.toList = spell (texts.map String.toList) ++ rest ∧ Boundary rest ∧ '\n' ∉ rest ∧
        params = if segments rest = [] then []
          else [(Param.catchAllName, .list ((segments rest).map decodedSegment))] := by
  have single := (isCanonicalChars_iff.mp canonical).2.1
  rw [recognize_beneath_iff compiled, sensitive, Recognizer.spells_false]
  constructor
  · rintro ⟨taken, rest, isPath, same, boundary, line, rfl⟩
    rw [beq_iff_eq] at same
    rw [isPath] at single
    exact ⟨rest, by rw [isPath, same], boundary, line,
      beneath_of_hasDoubleSlash boundary (hasDoubleSlash_of_append single).2⟩
  · rintro ⟨rest, isPath, boundary, line, rfl⟩
    rw [isPath] at single
    exact ⟨_, rest, isPath, beq_self_eq_true _, boundary, line,
      (beneath_of_hasDoubleSlash boundary (hasDoubleSlash_of_append single).2).symm⟩

end Matcher
end Waymark
