/-
Running the expression of a pattern.

Each token of a pattern without constraints stands for a short sequence of expressions
(`Recognizer.tokensParts`).  Nothing of such a sequence can end in the middle of a
segment and be followed by something that matches (`Bounded`), so a run goes from
segment to segment:

* `run_segment`, `run_letters` — one segment is matched as a whole or not at all;
* `run_further` — a loop over segments takes as many as it can first;
* `run_allot` — each token in turn is given as many segments as possible, until what follows
  succeeds;
* `run_tokens` — so the tokens are given the preferred division of the segments.
-/
import Waymark.Matcher
import Waymark.Proofs.Matcher.Division
import Waymark.Proofs.Regex.Run
import Waymark.Proofs.Text.Segments

namespace Waymark

open Regex Regex.Point Unicode Waymark.Path

namespace Recognizer

/-! ### The expressions -/

section Parts

variable (ci : Bool)

/-- The switches of a pattern. -/
def flags : Flags := { caseInsensitive := ci }

/-- The characters that match a literal one. -/
def letter (c : Char) : CodeSet := foldSet (flags ci) (CodeSet.ofChar c)

/-- The characters inside of segments. -/
def inner : CodeSet :=
  (foldSet (flags ci) ((CodeSet.single '/'.toNat).union CodeSet.empty)).complement

/-- The slash in front of a segment. -/
def slash : Expr := .set (letter ci '/')

/-- A segment. -/
def segment : Expr := .loop 1 none true (.set (inner ci))

/-- Any number of further segments. -/
def further : Expr := .loop 0 none true (.inSequence [slash ci, segment ci])

/-- The value of a param. -/
def value (p : Param) : Expr :=
  if p.repeatable then .inSequence [segment ci, further ci] else segment ci

/-- The expressions for a param whose value goes to the group with a number. -/
def paramParts (index : Nat) (p : Param) : List Expr :=
  if p.optional then
    [.loop 0 (some 1) true (.inSequence [slash ci, .group index (value ci p)])]
  else [slash ci, .group index (value ci p)]

/-- The expressions for literal text. -/
def literalParts (cs : List Char) : List Expr := cs.map fun c => .set (letter ci c)

/-- The expressions for tokens, of which the first param has the group with a number. -/
def tokensParts : Nat → List Token → List Expr
  | _, [] => []
  | index, .literal text :: rest =>
    slash ci :: (literalParts ci text.toList ++ tokensParts index rest)
  | index, .param p :: rest => paramParts ci index p ++ tokensParts (index + 1) rest

/-- Whether literal text matches a segment. -/
def spells : List Char → List Char → Bool
  | [], [] => true
  | c :: cs, d :: ds => (letter ci c).has d && spells cs ds
  | _, _ => false

/-- Slashes match slashes and nothing else does. -/
structure Splits : Prop where
  literal (c d : Char) : (letter ci c).has d = true → (c = '/' ↔ d = '/')
  slash : (letter ci '/').has '/' = true
  inside (c : Char) : (inner ci).has c = decide (c ≠ '/')

end Parts

/-- What the groups capture when the tokens are given shares of the segments. -/
def captured : Nat → List Token → List (List (List Char)) → List (Nat × List Char) →
    List (Nat × List Char)
  | index, .literal _ :: tokens, _ :: shares, groups => captured index tokens shares groups
  | index, .param _ :: tokens, share :: shares, groups =>
    captured (index + 1) tokens shares
      (if share = [] then groups else (index, joinSegments share) :: groups)
  | _, _, _, groups => groups

/-- Gives each token in turn as many segments as possible, until `after` succeeds with the segments
that are left and with what the groups have captured. -/
def allot {α : Type} (spells : List Char → List Char → Bool)
    (after : List (List Char) → List (Nat × List Char) → Option α) :
    Nat → List Token → List (List Char) → List (Nat × List Char) → Option α
  | _, [], parts, groups => after parts groups
  | _, .literal _ :: _, [], _ => none
  | index, .literal text :: tokens, s :: parts, groups =>
    if spells text.toList s then allot spells after index tokens parts groups else none
  | index, .param p :: tokens, parts, groups =>
    (Pattern.sizes p parts.length).findSome? fun n =>
      allot spells after (index + 1) tokens (parts.drop n)
        (if parts.take n = [] then groups else (index, joinSegments (parts.take n)) :: groups)

@[simp] theorem spells_nil_cons (ci : Bool) (d : Char) (ds : List Char) :
    spells ci [] (d :: ds) = false := rfl

@[simp] theorem spells_cons_nil (ci : Bool) (c : Char) (cs : List Char) :
    spells ci (c :: cs) [] = false := rfl

variable {ci : Bool} {α : Type} {k : Point → Option α} {text s tail : List Char} {p : Point}
  {parts : List (List Char)}

/-! ### Segments -/

/-- What follows fails in the middle of a segment. -/
def Bounded (text : List Char) (k : Point → Option α) : Prop :=
  ∀ p c rest, p.In text → p.rest = c :: rest → c ≠ '/' → k p = none

theorem in_capture {q : Point} (place : q.In text) (index : Nat) (p : Point) :
    (p.capture index q).In text := ⟨place.before, place.rest, place.offset_le⟩

theorem Bounded.capture (bounded : Bounded text k) (index : Nat) (p : Point) :
    Bounded text fun q => k (p.capture index q) :=
  fun q c rest place => bounded (p.capture index q) c rest (in_capture place index p)

theorem run_slash_of_boundary (splits : Splits ci) {rest : List Char}
    (isRest : p.rest = '/' :: rest) : (slash ci).run k p = k (p.past ['/'] rest) := by
  rw [slash, Expr.run_set_of_cons _ isRest, if_pos splits.slash]

theorem run_slash_of_inside (splits : Splits ci) {c : Char} {rest : List Char}
    (isRest : p.rest = c :: rest) (inside : c ≠ '/') : (slash ci).run k p = none := by
  rw [slash, Expr.run_set_of_cons _ isRest, if_neg]
  exact fun has => inside ((splits.literal '/' c has).mp rfl)

/-- Literal text matches a whole segment or nothing. -/
theorem run_letters (splits : Splits ci) (fair : Fair k) (bounded : Bounded text k) {cs : List Char}
    (noSlash : '/' ∉ cs) (noSlash' : '/' ∉ s) (boundary : Boundary tail) (place : p.In text)
    (isRest : p.rest = s ++ tail) :
    (Expr.inSequence (literalParts ci cs)).run k p =
      if spells ci cs s then k (p.past s tail) else none := by
  induction cs generalizing s p with
  | nil =>
    rw [literalParts, List.map_nil, Expr.inSequence, Expr.run_empty]
    cases s with
    | nil =>
      rw [List.nil_append] at isRest
      rw [spells, if_pos rfl, ← isRest, past_nil]
    | cons d ds =>
      rw [List.mem_cons, not_or] at noSlash'
      -- the literal is over inside of the segment, where nothing that follows matches
      rw [spells_nil_cons, if_neg (by simp)]
      exact bounded p d (ds ++ tail) place isRest (Ne.symm noSlash'.1)
  | cons c cs ih =>
    rw [List.mem_cons, not_or] at noSlash
    rw [literalParts, List.map_cons, Expr.run_inSequence_cons fair place]
    cases s with
    | nil =>
      -- the segment is over first, and only a slash can follow it
      rw [spells_cons_nil, if_neg (by simp)]
      cases tail with
      | nil => exact Expr.run_set_of_nil _ isRest
      | cons d rest =>
        obtain rfl := boundary d rfl
        rw [Expr.run_set_of_cons _ isRest, if_neg]
        exact fun has => noSlash.1 ((splits.literal c '/' has).mpr rfl).symm
    | cons d ds =>
      rw [List.mem_cons, not_or] at noSlash'
      rw [Expr.run_set_of_cons _ isRest, spells]
      have next := ih noSlash.2 noSlash'.2 (place.next isRest) rfl
      rw [literalParts] at next
      rw [next, past_past]
      cases (letter ci c).has d <;> simp

/-- A run of characters inside of a segment ends with the segment. -/
theorem run_inside (splits : Splits ci) (fair : Fair k) (bounded : Bounded text k)
    (noSlash : '/' ∉ s) (boundary : Boundary tail) (place : p.In text)
    (isRest : p.rest = s ++ tail) :
    (Expr.loop 0 none true (.set (inner ci))).run k p = k (p.past s tail) := by
  induction s generalizing p with
  | nil =>
    rw [List.nil_append] at isRest
    rw [Expr.run_star fair (Expr.consuming_set _) place, ← isRest, past_nil]
    cases tail with
    | nil => rw [Expr.run_set_of_nil _ isRest, Option.none_or]
    | cons d rest =>
      obtain rfl := boundary d rfl
      rw [Expr.run_set_of_cons _ isRest, splits.inside, if_neg (by simp), Option.none_or]
  | cons c cs ih =>
    rw [List.mem_cons, not_or] at noSlash
    rw [Expr.run_star fair (Expr.consuming_set _) place, Expr.run_set_of_cons _ isRest,
      splits.inside, if_pos (by simpa using Ne.symm noSlash.1),
      bounded p c (cs ++ tail) place isRest (Ne.symm noSlash.1), Option.or_none,
      ih noSlash.2 (place.next isRest) rfl, past_past]
    rfl

/-- A segment is matched as a whole. -/
theorem run_segment (splits : Splits ci) (fair : Fair k) (bounded : Bounded text k)
    (isSegment : IsSegment s) (boundary : Boundary tail) (place : p.In text)
    (isRest : p.rest = s ++ tail) : (segment ci).run k p = k (p.past s tail) := by
  obtain ⟨nonempty, noSlash⟩ := isSegment
  cases s with
  | nil => exact absurd rfl nonempty
  | cons c cs =>
    rw [List.mem_cons, not_or] at noSlash
    rw [segment, Expr.run_plus fair (Expr.consuming_set _) place, Expr.run_set_of_cons _ isRest,
      splits.inside, if_pos (by simpa using Ne.symm noSlash.1),
      run_inside splits fair bounded noSlash.2 boundary (place.next isRest) rfl, past_past]
    rfl

theorem run_segment_of_boundary (splits : Splits ci) (fair : Fair k) (boundary : Boundary p.rest)
    (place : p.In text) : (segment ci).run k p = none := by
  rw [segment, Expr.run_plus fair (Expr.consuming_set _) place]
  cases isRest : p.rest with
  | nil => exact Expr.run_set_of_nil _ isRest
  | cons c rest =>
    obtain rfl := boundary c (by rw [isRest, List.head?_cons])
    rw [Expr.run_set_of_cons _ isRest, splits.inside, if_neg (by simp)]

/-- The segments that follow a point, and what is left after them. -/
structure Ahead (text : List Char) (p : Point) (parts : List (List Char)) (tail : List Char) :
    Prop where
  place : p.In text
  rest : p.rest = spell parts ++ tail
  all : ∀ s ∈ parts, IsSegment s
  boundary : Boundary tail
  last : nextSegment? tail = none

/-- The point behind the first segments that follow. -/
def behind (p : Point) (parts : List (List Char)) (tail : List Char) (n : Nat) : Point :=
  p.past (spell (parts.take n)) (spell (parts.drop n) ++ tail)

theorem behind_zero (h : Ahead text p parts tail) : behind p parts tail 0 = p := by
  rw [behind, List.take_zero, List.drop_zero, ← h.rest, spell_nil, past_nil]

theorem behind_succ (p : Point) (s : List Char) (parts : List (List Char)) (tail : List Char)
    (n : Nat) : behind p (s :: parts) tail (n + 1) =
      behind (p.past ('/' :: s) (spell parts ++ tail)) parts tail n := by
  rw [behind, behind, past_past, List.take_succ_cons, List.drop_succ_cons, spell_cons,
    List.cons_append]

theorem Ahead.later (h : Ahead text p parts tail) (n : Nat) :
    Ahead text (behind p parts tail n) (parts.drop n) tail where
  place := by
    refine h.place.past ?_
    rw [h.rest, ← List.append_assoc, ← spell_append, List.take_append_drop]
  rest := rfl
  all := fun s member => h.all s (List.mem_of_mem_drop member)
  boundary := h.boundary
  last := h.last

theorem Ahead.next (h : Ahead text p (s :: parts) tail) :
    Ahead text (p.past ('/' :: s) (spell parts ++ tail)) parts tail := by
  have one := h.later 1
  rw [behind_succ, behind, List.take_zero, spell_nil, List.drop_zero] at one
  exact one

/-- A slash and a segment are matched together. -/
theorem run_slash_segment (splits : Splits ci) (fair : Fair k) (bounded : Bounded text k)
    (h : Ahead text p (s :: parts) tail) :
    (slash ci).run ((segment ci).run k) p = k (p.past ('/' :: s) (spell parts ++ tail)) := by
  have isRest : p.rest = '/' :: (s ++ (spell parts ++ tail)) := by
    rw [h.rest, spell_cons, List.cons_append, List.append_assoc]
  rw [run_slash_of_boundary splits isRest, run_segment splits fair bounded
    (h.all s List.mem_cons_self) (boundary_spell h.boundary) (h.place.next isRest)
    rfl, past_past]
  rfl

theorem run_slash_of_end (splits : Splits ci) {k : Point → Option α}
    (fails : ∀ q, q.In text → Boundary q.rest → k q = none) (h : Ahead text p [] tail) :
    (slash ci).run k p = none := by
  have isRest : p.rest = tail := h.rest
  cases tail with
  | nil => exact Expr.run_set_of_nil _ isRest
  | cons c rest =>
    obtain rfl := h.boundary c rfl
    rw [run_slash_of_boundary splits isRest]
    exact fails _ (h.place.next isRest) (boundary_of_nextSegment?_eq_none h.last)

theorem consuming_further : Consuming (Expr.inSequence [slash ci, segment ci]).ends :=
  Expr.consuming_seq (Expr.consuming_set _) _

theorem run_further_eq_or (fair : Fair k) (place : p.In text) : (further ci).run k p =
    ((slash ci).run ((segment ci).run ((further ci).run k)) p).or (k p) :=
  (Expr.run_star fair consuming_further place).trans
    (congrArg (Option.or · (k p)) (Expr.run_pair (Expr.fair_run fair _) place _ _))

theorem bounded_further (splits : Splits ci) (fair : Fair k) (bounded : Bounded text k) :
    Bounded text ((further ci).run k) := by
  intro p c rest place isRest inside
  rw [run_further_eq_or fair place, bounded p c rest place isRest inside, Option.or_none,
    run_slash_of_inside splits isRest inside]

/-- A loop over segments takes as many as it can first. -/
theorem run_further (splits : Splits ci) (fair : Fair k) (bounded : Bounded text k)
    (h : Ahead text p parts tail) :
    (further ci).run k p =
      (Pattern.countdown parts.length).findSome? fun n => k (behind p parts tail n) := by
  have fair' : Fair ((further ci).run k) := Expr.fair_run fair _
  induction parts generalizing p with
  | nil =>
    rw [run_further_eq_or fair h.place, run_slash_of_end splits (fun q place boundary =>
      run_segment_of_boundary splits fair' boundary place) h, Option.none_or, List.length_nil,
      Pattern.countdown, List.findSome?_singleton, behind_zero h]
  | cons s parts ih =>
    -- one more segment is taken first; to stop here is the last choice
    rw [run_further_eq_or fair h.place, run_slash_segment splits fair'
      (bounded_further splits fair bounded) h, ih h.next, List.length_cons,
      Pattern.countdown_succ, List.findSome?_append, List.findSome?_map, List.findSome?_singleton,
      behind_zero h]
    congr 1
    exact congrArg (fun f => List.findSome? f _) (funext fun n =>
      congrArg k (behind_succ p s parts tail n).symm)

/-! ### Tokens -/

/-- The point behind the first segments that follow, with their text captured by a group. -/
def served (index : Nat) (p : Point) (parts : List (List Char)) (tail : List Char) (n : Nat) :
    Point :=
  if n = 0 then p
  else { behind p parts tail n with groups := (index, joinSegments (parts.take n)) :: p.groups }

theorem Ahead.served (h : Ahead text p parts tail) (index n : Nat) :
    Ahead text (served index p parts tail n) (parts.drop n) tail := by
  rw [Recognizer.served]
  split
  · rename_i none
    rw [none, List.drop_zero]
    exact h
  · obtain ⟨⟨before, rest, bound⟩, isRest, all, boundary, last⟩ := h.later n
    exact ⟨⟨before, rest, bound⟩, isRest, all, boundary, last⟩

/-- The value of a param takes one segment and as many more as it can. -/
theorem run_value (splits : Splits ci) (fair : Fair k) (bounded : Bounded text k) (param : Param)
    (h : Ahead text p (s :: parts) tail) :
    (slash ci).run ((value ci param).run k) p =
      (Pattern.countdown (if param.repeatable then parts.length else 0)).findSome? fun n =>
        k (behind p (s :: parts) tail (n + 1)) := by
  have single : behind p (s :: parts) tail 1 = p.past ('/' :: s) (spell parts ++ tail) := by
    rw [behind_succ, behind_zero h.next]
  rw [value]
  cases param.repeatable with
  | false =>
    simp only [Bool.false_eq_true, if_false]
    rw [run_slash_segment splits fair bounded h, Pattern.countdown, List.findSome?_singleton,
      single]
  | true =>
    simp only [if_true]
    have both : (slash ci).run ((Expr.inSequence [segment ci, further ci]).run k) p =
        (slash ci).run ((segment ci).run ((further ci).run k)) p :=
      Expr.run_congr fun q listed =>
        Expr.run_pair fair ((slash ci).in_of_mem_ends h.place listed) _ _
    rw [both, run_slash_segment splits (Expr.fair_run fair _)
      (bounded_further splits fair bounded) h, run_further splits fair bounded h.next]
    exact congrArg (fun f => List.findSome? f _) (funext fun n =>
      congrArg k (behind_succ p s parts tail n).symm)

theorem run_value_of_end (splits : Splits ci) (fair : Fair k) (param : Param)
    (h : Ahead text p [] tail) : (slash ci).run ((value ci param).run k) p = none := by
  refine run_slash_of_end splits (fun q place boundary => ?_) h
  rw [value]
  split
  · rw [Expr.run_pair fair place,
      run_segment_of_boundary splits (Expr.fair_run fair _) boundary place]
  · exact run_segment_of_boundary splits fair boundary place

/-- The group of a param begins behind the slash. -/
theorem run_group_value (fair : Fair k) (index : Nat) (param : Param) {c : Char}
    {rest : List Char} (place : p.In text) (isRest : p.rest = c :: rest) :
    (Expr.inSequence [slash ci, .group index (value ci param)]).run k p =
      (slash ci).run ((value ci param).run fun q => k ((p.past [c] rest).capture index q)) p := by
  rw [Expr.run_pair fair place, slash, Expr.run_set_of_cons _ isRest, Expr.run_set_of_cons _ isRest,
    Expr.run_group]

theorem capture_behind (p : Point) (s : List Char) (parts : List (List Char)) (tail : List Char)
    (index n : Nat) :
    (p.past ['/'] (s ++ (spell parts ++ tail))).capture index (behind p (s :: parts) tail (n + 1)) =
      served index p (s :: parts) tail (n + 1) := by
  have split : s ++ (spell parts ++ tail) = joinSegments ((s :: parts).take (n + 1)) ++
      (spell ((s :: parts).drop (n + 1)) ++ tail) := by
    rw [List.take_succ_cons, joinSegments_cons, List.drop_succ_cons, List.append_assoc,
      ← List.append_assoc (spell _), ← spell_append, List.take_append_drop]
  have same : behind p (s :: parts) tail (n + 1) =
      (p.past ['/'] (s ++ (spell parts ++ tail))).past (joinSegments ((s :: parts).take (n + 1)))
        (spell ((s :: parts).drop (n + 1)) ++ tail) := by
    rw [behind, past_past, List.take_succ_cons, spell_eq_cons]
    rfl
  have text : (p.past ['/'] (s ++ (spell parts ++ tail))).textTo
      (behind p (s :: parts) tail (n + 1)) = joinSegments ((s :: parts).take (n + 1)) := by
    rw [same, textTo_past split]
  rw [Point.capture, text, served, if_neg (Nat.succ_ne_zero n)]
  rfl

theorem run_required (splits : Splits ci) (fair : Fair k) (bounded : Bounded text k) (index : Nat)
    (param : Param) (h : Ahead text p parts tail) :
    (Expr.inSequence [slash ci, .group index (value ci param)]).run k p =
      (Pattern.nonzeroSizes param parts.length).findSome? fun n =>
        k (served index p parts tail n) := by
  cases parts with
  | nil =>
    rw [List.length_nil, Pattern.nonzeroSizes, List.findSome?_nil]
    cases isRest : p.rest with
    | nil => rw [Expr.run_pair fair h.place, slash, Expr.run_set_of_nil _ isRest]
    | cons c rest =>
      rw [run_group_value fair index param h.place isRest,
        run_value_of_end splits (Expr.fair_capture fair index _) param h]
  | cons s parts =>
    have isRest : p.rest = '/' :: (s ++ (spell parts ++ tail)) := by
      rw [h.rest, spell_cons, List.cons_append, List.append_assoc]
    rw [run_group_value fair index param h.place isRest,
      run_value splits (Expr.fair_capture fair index _) (bounded.capture index _) param h,
      List.length_cons, Pattern.nonzeroSizes, List.findSome?_map]
    exact congrArg (fun f => List.findSome? f _) (funext fun n =>
      congrArg k (capture_behind p s parts tail index n))

/-- A param that may be missing is tried first, then passed over. -/
theorem run_passable (fair : Fair k) (place : p.In text) (e : Expr) :
    (Expr.inSequence [.loop 0 (some 1) true e]).run k p = (e.run k p).or (k p) := by
  rw [Expr.run_inSequence_cons fair place]
  refine (Expr.run_congr fun _ _ => Expr.run_empty).trans ?_
  exact Expr.run_optional fair place _

/-- A param is given as many segments as possible first. -/
theorem run_param (splits : Splits ci) (fair : Fair k) (bounded : Bounded text k) (index : Nat)
    (param : Param) (h : Ahead text p parts tail) :
    (Expr.inSequence (paramParts ci index param)).run k p =
      (Pattern.sizes param parts.length).findSome? fun n => k (served index p parts tail n) := by
  rw [paramParts, Pattern.sizes_eq]
  cases param.optional with
  | false =>
    rw [if_neg (by simp), if_neg (by simp), List.append_nil]
    exact run_required splits fair bounded index param h
  | true =>
    rw [if_pos rfl, if_pos rfl, run_passable fair h.place,
      run_required splits fair bounded index param h, List.findSome?_append,
      List.findSome?_singleton]
    rfl

theorem bounded_param (splits : Splits ci) (fair : Fair k) (bounded : Bounded text k)
    (index : Nat) (param : Param) :
    Bounded text ((Expr.inSequence (paramParts ci index param)).run k) := by
  intro p c rest place isRest inside
  rw [paramParts]
  split
  · rw [run_passable fair place, Expr.run_pair fair place, run_slash_of_inside splits isRest inside,
      bounded p c rest place isRest inside, Option.none_or]
  · rw [Expr.run_pair fair place, run_slash_of_inside splits isRest inside]

theorem bounded_tokens (splits : Splits ci) (fair : Fair k) (bounded : Bounded text k)
    (index : Nat) (tokens : List Token) :
    Bounded text ((Expr.inSequence (tokensParts ci index tokens)).run k) := by
  induction tokens generalizing index with
  | nil =>
    intro p c rest place isRest inside
    rw [tokensParts, Expr.inSequence, Expr.run_empty, bounded p c rest place isRest inside]
  | cons token tokens ih =>
    intro p c rest place isRest inside
    cases token with
    | literal text =>
      rw [tokensParts, Expr.run_inSequence_cons fair place,
        run_slash_of_inside splits isRest inside]
    | param param =>
      rw [tokensParts, Expr.run_inSequence_append fair place]
      exact bounded_param splits (Expr.fair_run fair _) (ih (index + 1)) index param p c rest place
        isRest inside

/-- The expressions for literal text and what follows it are run one after the other. -/
theorem run_literal_cons (fair : Fair k) (place : p.In text) (index : Nat) (t : String)
    (tokens : List Token) :
    (Expr.inSequence (tokensParts ci index (.literal t :: tokens))).run k p =
      (slash ci).run ((Expr.inSequence (literalParts ci t.toList)).run
        ((Expr.inSequence (tokensParts ci index tokens)).run k)) p := by
  rw [tokensParts, Expr.run_inSequence_cons fair place]
  exact Expr.run_congr fun q listed =>
    Expr.run_inSequence_append fair ((slash ci).in_of_mem_ends place listed) _ _

theorem run_slash_letters (splits : Splits ci) (fair : Fair k) (bounded : Bounded text k)
    {cs : List Char} (noSlash : '/' ∉ cs) (h : Ahead text p (s :: parts) tail) :
    (slash ci).run ((Expr.inSequence (literalParts ci cs)).run k) p =
      if spells ci cs s then k (p.past ('/' :: s) (spell parts ++ tail)) else none := by
  have isRest : p.rest = '/' :: (s ++ (spell parts ++ tail)) := by
    rw [h.rest, spell_cons, List.cons_append, List.append_assoc]
  rw [run_slash_of_boundary splits isRest, run_letters splits fair bounded noSlash
    (h.all s List.mem_cons_self).2 (boundary_spell h.boundary) (h.place.next isRest) rfl,
    past_past, List.singleton_append]

theorem run_slash_letters_of_end (splits : Splits ci) (fair : Fair k) (bounded : Bounded text k)
    {cs : List Char} (literal : IsSegment cs) (h : Ahead text p [] tail) :
    (slash ci).run ((Expr.inSequence (literalParts ci cs)).run k) p = none := by
  refine run_slash_of_end splits (fun q place boundary => ?_) h
  have nothing : q.rest = [] ++ q.rest := rfl
  rw [run_letters splits fair bounded literal.2 (by simp) boundary place nothing]
  cases cs with
  | nil => exact absurd rfl literal.1
  | cons c cs => rw [spells_cons_nil, if_neg (by simp)]

/-- What the groups have captured behind a param. -/
theorem groups_served (index : Nat) (p : Point) (tail : List Char) {n : Nat}
    (enough : n ≤ parts.length) :
    (served index p parts tail n).groups =
      if parts.take n = [] then p.groups
      else (index, joinSegments (parts.take n)) :: p.groups := by
  have share : parts.take n = [] ↔ n = 0 := by
    rw [← List.length_eq_zero_iff, List.length_take_of_le enough]
  rw [served]
  by_cases none : n = 0
  · rw [if_pos none, if_pos (share.mpr none)]
  · rw [if_neg none, if_neg (mt share.mp none)]

/-- The tokens are given as many segments as possible, each in turn, until what follows succeeds. -/
theorem run_allot (splits : Splits ci) (fair : Fair k) (bounded : Bounded text k)
    {after : List (List Char) → List (Nat × List Char) → Option α}
    (last : ∀ {q parts}, Ahead text q parts tail → k q = after parts q.groups)
    {tokens : List Token} (literals : ∀ t, Token.literal t ∈ tokens → IsSegment t.toList)
    (index : Nat) (h : Ahead text p parts tail) :
    (Expr.inSequence (tokensParts ci index tokens)).run k p =
      allot (spells ci) after index tokens parts p.groups := by
  -- the first token takes its share, and what it leaves is divided among the others
  induction tokens generalizing index p parts with
  | nil =>
    rw [tokensParts, Expr.inSequence, Expr.run_empty, last h, allot]
  | cons token tokens ih =>
    have fair' := fun index => Expr.fair_run fair (.inSequence (tokensParts ci index tokens))
    have bounded' := fun index => bounded_tokens splits fair bounded index tokens
    have others : ∀ {q rest} index, Ahead text q rest tail → _ := fun index ahead =>
      ih (fun t member => literals t (List.mem_cons_of_mem _ member)) index ahead
    cases token with
    | literal t =>
      have literal := literals t List.mem_cons_self
      rw [run_literal_cons fair h.place]
      cases parts with
      | nil =>
        rw [run_slash_letters_of_end splits (fair' index) (bounded' index) literal h, allot]
      | cons s parts =>
        rw [run_slash_letters splits (fair' index) (bounded' index) literal.2 h, allot,
          others index h.next]
        rfl
    | param param =>
      rw [tokensParts, Expr.run_inSequence_append fair h.place, run_param splits (fair' (index + 1))
        (bounded' (index + 1)) index param h, allot]
      refine findSome?_congr fun n member => ?_
      obtain ⟨enough, -⟩ := Pattern.mem_sizes.mp member
      rw [others (index + 1) (h.served index n), groups_served index p tail enough]

/-- If all segments have to be given away, that is the preferred division. -/
theorem allot_divide (spells : List Char → List Char → Bool) (accepts : Bool) (index : Nat)
    (tokens : List Token) (parts : List (List Char)) (groups : List (Nat × List Char)) :
    allot spells (fun parts groups => if parts = [] ∧ accepts then some groups else none) index
        tokens parts groups =
      if accepts then
        (Pattern.divide spells tokens parts).map fun shares => captured index tokens shares groups
      else none := by
  induction tokens generalizing index parts groups with
  | nil => cases parts <;> simp [allot, Pattern.divide, captured]
  | cons token tokens ih =>
    cases token with
    | literal t =>
      cases parts with
      | nil => rw [allot, Pattern.divide, Option.map_none, ite_self]
      | cons s parts =>
        rw [allot, Pattern.divide]
        split
        · rw [ih, Option.map_map]
          rfl
        · rw [Option.map_none, ite_self]
    | param param =>
      rw [allot, Pattern.divide, List.map_findSome?]
      cases accepts with
      | false =>
        rw [if_neg (by simp), List.findSome?_eq_none_iff]
        exact fun n _ => ih ..
      | true =>
        rw [if_pos rfl]
        refine findSome?_congr fun n _ => (ih ..).trans ?_
        rw [if_pos rfl, Function.comp_apply, Option.map_map]
        rfl

/-- The tokens are given the preferred division of the segments, if what follows accepts the point
behind all of them; `accepts` tells whether it does. -/
theorem run_tokens (splits : Splits ci) {k : Point → Option (List (Nat × List Char))}
    (fair : Fair k) (bounded : Bounded text k) {accepts : Bool}
    (last : ∀ {q parts}, Ahead text q parts tail →
      k q = if parts = [] ∧ accepts then some q.groups else none)
    {tokens : List Token} (literals : ∀ t, Token.literal t ∈ tokens → IsSegment t.toList)
    (index : Nat) (h : Ahead text p parts tail) :
    (Expr.inSequence (tokensParts ci index tokens)).run k p =
      if accepts then
        (Pattern.divide (spells ci) tokens parts).map fun shares =>
          captured index tokens shares p.groups
      else none := by
  rw [← allot_divide]
  exact run_allot splits fair bounded last literals index h

end Recognizer
end Waymark
