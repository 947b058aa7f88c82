/-
A bare asterisk at the end of a pattern.

The param that it stands for takes whatever is left behind a slash, further slashes included, as
long as that is a single line (`swallow`).  Of a greedy loop over all characters of a line only the
longest match gets to the end, and nothing but the ending may follow.

* `Expr.Spares` — no match of an expression goes past a certain character;
* `run_swallow` — what the param takes;
* `search?_swallow` — the search for a pattern that ends with a bare asterisk.
-/
import Waymark.Proofs.Matcher.Captures
import Waymark.Proofs.Matcher.Generation

namespace Waymark

open Regex Regex.Point Unicode Waymark.Path

/-! ### Characters that stop a match -/

namespace Regex.Expr

variable {c : Char} {e first second : Expr} {s : CodeSet} {α : Type} {k : Point → Option α}
  {text : List Char} {p : Point}

/-- No match of the expression goes past the character. -/
def Spares (c : Char) (e : Expr) : Prop := ∀ p, ∀ q ∈ e.ends p, c ∈ p.rest → c ∈ q.rest

theorem spares_empty : empty.Spares c := by
  intro p q listed ahead
  rwa [List.mem_singleton.mp listed]

theorem spares_set (outside : s.has c = false) : (set s).Spares c := by
  intro p q listed ahead
  rw [ends] at listed
  split at listed
  · rename_i d next found
    obtain ⟨rest, isRest, rfl⟩ := Point.rest_of_next? found
    split at listed
    · rename_i has
      rw [List.mem_singleton.mp listed, Point.past_rest]
      rw [isRest] at ahead
      rcases List.mem_cons.mp ahead with rfl | later
      · rw [outside] at has
        exact absurd has (by simp)
      · exact later
    · exact absurd listed List.not_mem_nil
  · exact absurd listed List.not_mem_nil

theorem Spares.seq (h : first.Spares c) (h' : second.Spares c) : (first.seq second).Spares c := by
  intro p q listed ahead
  obtain ⟨middle, inFirst, inSecond⟩ := mem_chain listed
  exact h' middle q inSecond (h p middle inFirst ahead)

theorem Spares.loop (h : e.Spares c) (least : Nat) (most : Option Nat) (greedy : Bool) :
    (e.loop least most greedy).Spares c := fun _ _ listed =>
  related_repeatedly (R := fun p q => c ∈ p.rest → c ∈ q.rest) (fun _ ahead => ahead)
    (fun before after ahead => after (before ahead)) h listed

/-- A loop over characters that are all admitted takes all of them, if that leads on. -/
theorem run_star_set_of_all (fair : Fair k) (place : p.In text) (all : ∀ c ∈ p.rest, s.has c = true)
    {a : α} (found : k (p.past p.rest []) = some a) :
    ((set s).loop 0 none true).run k p = some a := by
  generalize isRest : p.rest = rest at all found
  induction rest generalizing p with
  | nil =>
    rw [run_star fair (consuming_set s) place, run_set_of_nil s isRest, Option.none_or]
    have itself := Point.past_nil p
    rw [isRest] at itself
    rwa [itself] at found
  | cons c rest ih =>
    have others : ((set s).loop 0 none true).run k (p.past [c] rest) = some a := by
      refine ih (place.next isRest) rfl (fun d member => all d (List.mem_cons_of_mem _ member)) ?_
      rw [Point.past_past]
      exact found
    rw [run_star fair (consuming_set s) place, run_set_of_cons s isRest,
      if_pos (all c List.mem_cons_self), others, Option.some_or]

end Regex.Expr

/-- The number of the first group behind those of the params. -/
def Pattern.nextGroup (tokens : List Token) : Nat := 1 + (params tokens).length

namespace Recognizer

variable {ci : Bool} {index : Nat} {tokens front : List Token} {text body tail : List Char}
  {parts : List (List Char)} {p : Point} {e : Expr}

/-! ### The catch-all param -/

/-- What the groups have captured when the catch-all param has taken what is left. -/
def swallow (index : Nat) : List Char → List (Nat × List Char) → Option (List (Nat × List Char))
  | [], groups => some groups
  | _ :: body, groups => if '\n' ∈ body then none else some ((index, body) :: groups)

/-- Any number of further lines, each behind a slash. -/
def lines (ci : Bool) : Expr := .loop 0 none true (.inSequence [slash ci, line])

theorem spares_slash : (slash ci).Spares '\n' := by
  refine Expr.spares_set (Bool.eq_false_iff.mpr fun has => ?_)
  exact absurd (eq_slash_of_letter_has has) (by decide)

theorem spares_line : line.Spares '\n' := by
  refine (Expr.spares_set ?_).loop 0 none true
  rw [dots_has, decide_eq_false (by simp)]

theorem spares_lines : (lines ci).Spares '\n' :=
  (spares_slash.seq (spares_line.seq Expr.spares_empty)).loop 0 none true

theorem consuming_lines : Consuming (Expr.inSequence [slash ci, line]).ends :=
  Expr.consuming_seq (Expr.consuming_set _) _

theorem accepts_of_newline {ending : Ending} {rest : List Char} (h : '\n' ∈ rest) :
    ending.accepts rest = false := by
  have nonempty : rest ≠ [] := by
    rintro rfl
    exact absurd h List.not_mem_nil
  have other : rest ≠ ['/'] := by
    rintro rfl
    exact absurd h (by decide)
  cases ending <;> simp [Ending.accepts, nonempty, other]

section

variable {α : Type} {k : Point → Option α}

/-- A match within the first of several lines does not get to the end. -/
theorem run_value_of_several (stops : ∀ q, q.In text → '\n' ∈ q.rest → k q = none)
    (place : p.In text) (several : '\n' ∈ p.rest) :
    (Expr.inSequence [line, lines ci]).run k p = none := by
  rw [Expr.run, List.findSome?_eq_none_iff]
  intro q listed
  refine stops q (Expr.in_of_mem_ends _ place listed) ?_
  exact spares_line.seq (spares_lines.seq Expr.spares_empty) p q listed several

/-- A single line is taken to its end, where nothing is left for further lines. -/
theorem run_value_of_single (fair : Fair k) (place : p.In text) (single : '\n' ∉ p.rest) {a : α}
    (found : k (p.past p.rest []) = some a) :
    (Expr.inSequence [line, lines ci]).run k p = some a := by
  have atEnd := place.past (List.append_nil p.rest).symm
  have stop : (lines ci).run k (p.past p.rest []) = some a := by
    rw [lines, Expr.run_star fair consuming_lines atEnd, Expr.run_pair (Expr.fair_run fair _) atEnd,
      slash, Expr.run_set_of_nil _ rfl, Option.none_or, found]
  have all : ∀ c ∈ p.rest, dots.has c = true := fun c member =>
    (dots_has c).trans (decide_eq_true fun same => single (same ▸ member))
  rw [Expr.run_pair fair place, line]
  exact Expr.run_star_set_of_all (Expr.fair_run fair _) place all stop

end

/-- The param takes the rest of the path, or the search fails. -/
theorem run_swallow (splits : Splits ci) {ending : Ending} (empty : ending.accepts [] = true)
    (place : p.In text) (boundary : Boundary p.rest) :
    (Expr.inSequence (paramPartsOf ci line index Param.catchAll)).run
        ((Expr.inSequence (ending.parts ci ++ [.look .textEnd])).run given) p =
      swallow index p.rest p.groups := by
  have ends := fun {q : Point} (place : q.In text) => @run_ending ci ending text q splits place
  have fair : Fair ((Expr.inSequence (ending.parts ci ++ [.look .textEnd])).run given) :=
    Expr.fair_run fair_given _
  generalize (Expr.inSequence (ending.parts ci ++ [.look .textEnd])).run given = k at *
  have stops : ∀ q : Point, q.In text → '\n' ∈ q.rest → k q = none := by
    intro q place several
    rw [ends place, accepts_of_newline several]
    rfl
  show (Expr.inSequence [.loop 0 (some 1) true
    (.inSequence [slash ci, .group index (.inSequence [line, lines ci])])]).run k p = _
  rw [run_passable fair place, Expr.run_pair fair place]
  cases isRest : p.rest with
  | nil =>
    rw [slash, Expr.run_set_of_nil _ isRest, ends place, isRest, if_pos empty]
    rfl
  | cons c body =>
    obtain rfl := boundary c (by rw [isRest]; rfl)
    have placeQ := place.next isRest
    rw [run_slash_of_boundary splits isRest, Expr.run_group, swallow]
    by_cases several : '\n' ∈ body
    · have nothing : (Expr.inSequence [line, lines ci]).run
          (fun q => k ((p.past ['/'] body).capture index q)) (p.past ['/'] body) = none :=
        run_value_of_several (fun q place => stops _ (in_capture place _ _)) placeQ several
      rw [nothing, Option.none_or, if_pos several]
      exact stops p place (isRest ▸ List.mem_cons_of_mem _ several)
    · have found : k ((p.past ['/'] body).capture index ((p.past ['/'] body).past body [])) =
          some ((index, body) :: p.groups) := by
        rw [ends (in_capture (placeQ.past (List.append_nil body).symm) _ _), Point.capture,
          Point.past_rest, if_pos empty]
        show some ((index, (p.past ['/'] body).textTo _) :: p.groups) = _
        rw [textTo_past (List.append_nil body).symm]
      rw [run_value_of_single (Expr.fair_capture fair index _) placeQ several found, Option.some_or,
        if_neg several]

theorem bounded_swallow (splits : Splits ci) {α : Type} {k : Point → Option α} (fair : Fair k)
    (bounded : Bounded text k) :
    Bounded text ((Expr.inSequence (paramPartsOf ci line index Param.catchAll)).run k) := by
  intro p c rest place isRest inside
  show (Expr.inSequence [.loop 0 (some 1) true
    (.inSequence [slash ci, .group index (.inSequence [line, lines ci])])]).run k p = none
  rw [run_passable fair place, Expr.run_pair fair place, run_slash_of_inside splits isRest inside,
    bounded p c rest place isRest inside, Option.none_or]

/-! ### Patterns that end with a bare asterisk -/

theorem partsOf_append (ci : Bool) (base : Param → Expr) (index : Nat) (front tokens : List Token) :
    partsOf ci base index (front ++ tokens) =
      partsOf ci base index front ++
        partsOf ci base (index + (Pattern.params front).length) tokens := by
  induction front generalizing index with
  | nil => rfl
  | cons token front ih =>
    cases token with
    | literal text =>
      rw [List.cons_append, partsOf, ih, partsOf, List.cons_append, List.append_assoc]
      rfl
    | param p =>
      rw [List.cons_append, partsOf, ih, partsOf, List.append_assoc, Nat.add_assoc,
        Nat.add_comm 1]
      rfl

theorem partsOf_plainBase (free : ∀ p ∈ Pattern.params front, p.constraint = none) :
    partsOf ci (plainBase ci) index front = tokensParts ci index front := by
  induction front generalizing index with
  | nil => rfl
  | cons token front ih =>
    cases token with
    | literal text => rw [partsOf, tokensParts, ih free]
    | param p =>
      rw [partsOf, tokensParts, ih fun q member => free q (List.mem_cons_of_mem _ member),
        plainBase, if_pos (free p List.mem_cons_self), paramPartsOf_segment]

/-- The tokens in front of a bare asterisk are given as many segments as possible, and the asterisk
takes what is left. -/
theorem search?_swallow (splits : Splits ci)
    (h : e = .inSequence ((if ci then [.empty] else []) ++
      framed ci (partsOf ci (plainBase ci) 1 (front ++ [.param Param.catchAll])) .optional))
    (free : ∀ p ∈ Pattern.params front, p.constraint = none)
    (literals : ∀ t, Token.literal t ∈ front → IsSegment t.toList)
    (all : ∀ s ∈ parts, IsSegment s) (boundary : Boundary tail) (last : nextSegment? tail = none) :
    (e.search? (spell parts ++ tail)).map (·.groups) =
      allot (spells ci)
        (fun parts => swallow (Pattern.nextGroup front) (spell parts ++ tail)) 1 front parts [] := by
  have ahead : Ahead (spell parts ++ tail) (.start (spell parts ++ tail)) parts tail :=
    ⟨in_start _, rfl, all, boundary, last⟩
  have fair : Fair ((Expr.inSequence (Ending.optional.parts ci ++ [.look .textEnd])).run given) :=
    Expr.fair_run fair_given _
  have catchAll : partsOf ci (plainBase ci) (1 + (Pattern.params front).length)
      [.param Param.catchAll] =
      paramPartsOf ci line (Pattern.nextGroup front) Param.catchAll := by
    rw [partsOf, partsOf, List.append_nil]
    rfl
  rw [search?_eq h, partsOf_append, partsOf_plainBase free, catchAll,
    Expr.run_inSequence_append fair ahead.place]
  refine run_allot splits (Expr.fair_run fair _)
    (bounded_swallow splits fair (bounded_ending splits)) ?_ literals 1 ahead
  intro q parts ahead
  have boundaryQ : Boundary q.rest := by
    rw [ahead.rest]
    exact boundary_spell ahead.boundary
  rw [run_swallow splits rfl ahead.place boundaryQ, ahead.rest]

end Recognizer
end Waymark
