/-
What is captured for the params of a pattern.

Constraints may let anything through, slashes and nothing at all included.  But a match goes
from one slash in front of a segment to the next one, so of every required param some text
has been captured (`Recognizer.Accounted`), and text without a slash in front.

* `exists_passes_of_search?` — a match goes through the tokens, and up to an ending;
* `numbers_slotsOf` — the groups of the params are numbered one after the other;
* `accounted_of_passes` — what a match of the tokens has captured;
* `exists_accounted_of_recognize` — what has been captured when a path is recognized.
-/
import Waymark.Proofs.Matcher.Constraint

namespace Waymark

open Regex Regex.Point Unicode Waymark.Path

/-! ### Sequences one after the other -/

namespace Regex

variable {p q : Point} {e : Expr} {es fs : List Expr} {i : Nat}

/-- A way through the expressions, one after the other. -/
def Passes : List Expr → Point → Point → Prop
  | [], p, q => q = p
  | e :: es, p, q => ∃ middle ∈ e.ends p, Passes es middle q

theorem passes_of_mem_ends (h : q ∈ (Expr.inSequence es).ends p) : Passes es p q := by
  induction es generalizing p with
  | nil => exact List.mem_singleton.mp h
  | cons e es ih =>
    obtain ⟨middle, inFirst, rest⟩ := mem_chain h
    exact ⟨middle, inFirst, ih rest⟩

theorem passes_append :
    Passes (es ++ fs) p q ↔ ∃ middle, Passes es p middle ∧ Passes fs middle q := by
  induction es generalizing p with
  | nil => simp [Passes]
  | cons e es ih =>
    simp only [List.cons_append, Passes, ih]
    constructor
    · rintro ⟨first, inFirst, middle, before, after⟩
      exact ⟨middle, ⟨first, inFirst, before⟩, after⟩
    · rintro ⟨middle, ⟨first, inFirst, before⟩, after⟩
      exact ⟨first, inFirst, middle, before, after⟩

theorem in_of_passes {text : List Char} (place : p.In text) (h : Passes es p q) : q.In text := by
  induction es generalizing p with
  | nil => exact h ▸ place
  | cons e es ih =>
    obtain ⟨middle, inFirst, rest⟩ := h
    exact ih (e.in_of_mem_ends place inFirst) rest

/-- An optional expression is passed over or matched. -/
theorem mem_ends_optional (h : q ∈ (e.loop 0 (some 1) true).ends p) : q = p ∨ q ∈ e.ends p := by
  obtain ⟨start, isStart, listed⟩ := mem_chain h
  obtain rfl := List.mem_singleton.mp isStart
  rw [atMost, if_neg (by simp)] at listed
  simp only [if_true, Expr.foldl_atMost_zero] at listed
  rcases mem_reach listed with inside | rfl
  · exact Or.inr ((mem_foldl_reach inside).resolve_left List.not_mem_nil)
  · exact Or.inl rfl

/-- What was captured by other groups stays. -/
theorem group?_of_mem_ends (e : Expr) (other : i ∉ e.numbers) (h : q ∈ e.ends p) :
    q.group? i = p.group? i := by
  refine e.ends_related (R := fun p q => q.group? i = p.group? i) (fun _ => rfl)
    (fun first second => second.trans first) ?_ ?_ h
  · intro p c q next
    obtain ⟨rest, -, rfl⟩ := rest_of_next? next
    rfl
  · intro p q index member same
    have differ : i ≠ index := fun equal => other (equal ▸ member)
    exact (lookup_cons_of_ne differ _).trans same

theorem group?_of_passes (other : ∀ e ∈ es, i ∉ e.numbers) (h : Passes es p q) :
    q.group? i = p.group? i := by
  induction es generalizing p with
  | nil => rw [show q = p from h]
  | cons e es ih =>
    obtain ⟨middle, inFirst, rest⟩ := h
    exact (ih (fun f member => other f (List.mem_cons_of_mem _ member)) rest).trans
      (group?_of_mem_ends e (other e List.mem_cons_self) inFirst)

end Regex

/-! ### Places between segments -/

namespace Recognizer

variable {ci : Bool} {base value : Param → Expr} {index : Nat} {tokens : List Token}
  {text cs : List Char} {ending : Ending} {param : Param} {e : Expr} {p q : Point}

theorem exists_of_mem_ends_slash (h : q ∈ (slash ci).ends p) :
    ∃ rest, p.rest = '/' :: rest ∧ q = p.past ['/'] rest := by
  rw [slash, Expr.ends] at h
  cases isRest : p.rest with
  | nil =>
    rw [Point.next?, isRest] at h
    exact absurd h List.not_mem_nil
  | cons c rest =>
    rw [Point.next?_of_cons isRest] at h
    simp only at h
    split at h
    · rename_i has
      obtain rfl := eq_slash_of_letter_has has
      exact ⟨rest, rfl, List.mem_singleton.mp h⟩
    · exact absurd h List.not_mem_nil

theorem boundary_of_mem_ends_slash (h : q ∈ (slash ci).ends p) : Boundary p.rest := by
  obtain ⟨rest, isRest, -⟩ := exists_of_mem_ends_slash h
  rw [isRest]
  exact boundary_slash _

theorem boundary_of_accepts (h : ending.accepts cs = true) : Boundary cs := by
  have either : cs = ['/'] ∨ cs = [] := by
    cases ending <;> simp_all [Ending.accepts]
  rcases either with rfl | rfl
  · exact boundary_slash _
  · exact boundary_nil

/-- A match of a pattern goes through the expressions of its tokens, and up to an ending. -/
theorem exists_passes_of_search? {es : List Expr}
    (h : e = .inSequence ((if ci then [.empty] else []) ++ framed ci es ending)) {hit : Point}
    (found : e.search? text = some hit) :
    ∃ middle, Passes es (.start text) middle ∧ ending.accepts middle.rest = true ∧
      middle.groups = hit.groups := by
  have groups := search?_eq h text
  rw [found, Option.map_some] at groups
  obtain ⟨middle, inTokens, run⟩ := List.exists_of_findSome?_eq_some groups.symm
  rw [run_ending (splits ci) (Expr.in_of_mem_ends _ (in_start text) inTokens),
    Option.ite_none_right_eq_some] at run
  exact ⟨middle, passes_of_mem_ends inTokens, run.1, Option.some.inj run.2⟩

/-- A param begins with a slash, unless it is passed over. -/
theorem passes_param (h : Passes (slotParts ci e index param) p q) :
    (param.optional = true ∧ q = p) ∨
      ∃ rest last, p.rest = '/' :: rest ∧ last ∈ e.ends (p.past ['/'] rest) ∧
        q = (p.past ['/'] rest).capture index last := by
  have captured : ∀ {q}, Passes [slash ci, .group index e] p q →
      ∃ rest last, p.rest = '/' :: rest ∧ last ∈ e.ends (p.past ['/'] rest) ∧
        q = (p.past ['/'] rest).capture index last := by
    rintro q ⟨first, inSlash, middle, inGroup, rfl⟩
    obtain ⟨rest, isRest, rfl⟩ := exists_of_mem_ends_slash inSlash
    obtain ⟨last, inValue, rfl⟩ := List.mem_map.mp inGroup
    exact ⟨rest, last, isRest, inValue, rfl⟩
  unfold slotParts at h
  split at h
  · rename_i optional
    obtain ⟨middle, inOptional, rfl⟩ := h
    rcases mem_ends_optional inOptional with rfl | inside
    · exact Or.inl ⟨optional, rfl⟩
    · exact Or.inr (captured (passes_of_mem_ends inside))
  · exact Or.inr (captured h)

/-- Between two segments there is a slash. -/
theorem boundary_of_passes (h : Passes (slotsOf ci value index tokens) p q)
    (boundary : Boundary q.rest) : Boundary p.rest := by
  induction tokens generalizing index p with
  | nil =>
    obtain rfl : q = p := h
    exact boundary
  | cons token tokens ih =>
    cases token with
    | literal text =>
      obtain ⟨middle, inSlash, -⟩ := h
      exact boundary_of_mem_ends_slash inSlash
    | param param =>
      obtain ⟨middle, inParam, rest⟩ := passes_append.mp h
      rcases passes_param inParam with ⟨-, rfl⟩ | ⟨tail, last, isRest, -⟩
      · exact ih rest
      · rw [isRest]
        exact boundary_slash _

/-! ### What groups capture -/

/-- What has been captured for the required params of the tokens: text that does not begin with a
slash, and that is empty only if what stands for the param can consume nothing. -/
def Accounted (base : Param → Expr) (group? : Nat → Option (List Char)) :
    Nat → List Token → Prop
  | _, [] => True
  | index, .literal _ :: tokens => Accounted base group? index tokens
  | index, .param p :: tokens =>
    (p.optional = false → ∃ raw, group? index = some raw ∧ raw.head? ≠ some '/' ∧
      (raw = [] → (base p).idle (·.holds (.start [])) = true)) ∧
    Accounted base group? (index + 1) tokens

theorem Accounted.of_getElem? {group? : Nat → Option (List Char)}
    (h : Accounted base group? index tokens) {i : Nat}
    (isParam : (Pattern.params tokens)[i]? = some param) (required : param.optional = false) :
    ∃ raw, group? (index + i) = some raw ∧ raw.head? ≠ some '/' ∧
      (raw = [] → (base param).idle (·.holds (.start [])) = true) := by
  induction tokens generalizing index i with
  | nil => exact absurd isParam (by simp [Pattern.params])
  | cons token tokens ih =>
    cases token with
    | literal text => exact ih h isParam
    | param p =>
      rw [show Pattern.params (.param p :: tokens) = p :: Pattern.params tokens from rfl] at isParam
      cases i with
      | zero =>
        obtain rfl : p = param := Option.some.inj isParam
        exact h.1 required
      | succ i =>
        rw [List.getElem?_cons_succ] at isParam
        rw [Nat.add_comm i 1, ← Nat.add_assoc]
        exact ih h.2 isParam

theorem numbers_inSequence (es : List Expr) :
    (Expr.inSequence es).numbers = es.flatMap Expr.numbers := by
  induction es with
  | nil => rfl
  | cons e es ih => rw [Expr.inSequence, Expr.numbers, ih, List.flatMap_cons]

/-- The groups of the params are numbered one after the other. -/
theorem numbers_slotsOf (free : ∀ p ∈ Pattern.params tokens, (value p).numbers = []) :
    (slotsOf ci value index tokens).flatMap Expr.numbers =
      List.range' index (Pattern.params tokens).length := by
  induction tokens generalizing index with
  | nil => rfl
  | cons token tokens ih =>
    cases token with
    | literal text =>
      have letters : (literalParts ci text.toList).flatMap Expr.numbers = [] := by
        simp [literalParts, Expr.numbers]
      rw [slotsOf, List.flatMap_cons, List.flatMap_append, letters, ih free]
      rfl
    | param param =>
      have own : (slotParts ci (value param) index param).flatMap Expr.numbers = [index] := by
        unfold slotParts
        split <;> simp [Expr.inSequence, Expr.numbers, slash, free param List.mem_cons_self]
      rw [slotsOf, List.flatMap_append, own, ih fun p member => free p (List.mem_cons_of_mem _ member)]
      rfl

/-- What the group of a param captured stays when the params behind it are matched. -/
theorem group?_of_passes_slots (free : ∀ p ∈ Pattern.params tokens, (value p).numbers = [])
    {i : Nat} (before : i < index) (h : Passes (slotsOf ci value index tokens) p q) :
    q.group? i = p.group? i := by
  refine group?_of_passes (fun e member inNumbers => ?_) h
  have listed := List.mem_flatMap.mpr ⟨e, member, inNumbers⟩
  rw [numbers_slotsOf free, List.mem_range'_1] at listed
  omega

theorem numbers_gathered (none : e.numbers = []) :
    (Expr.gathered (valueParts ci e param)).numbers = [] := by
  unfold valueParts
  split
  · simp [Expr.gathered, Expr.inSequence, Expr.numbers, slash, none]
  · exact none

theorem idle_of_gathered {holds : Look → Bool}
    (h : (Expr.gathered (valueParts ci e param)).idle holds = true) : e.idle holds = true := by
  unfold valueParts at h
  split at h
  · simp only [Expr.gathered, Expr.inSequence, Expr.idle, Bool.and_eq_true] at h
    exact h.1
  · exact h

/-- In a text without repeated slashes no slash follows a slash. -/
theorem head?_of_slash (single : hasDoubleSlash text = false) (place : p.In text)
    {rest : List Char} (h : p.rest = '/' :: rest) : rest.head? ≠ some '/' := by
  have whole : hasDoubleSlash (text.take p.offset ++ text.drop p.offset) = false := by
    rwa [List.take_append_drop]
  have after := (hasDoubleSlash_of_append whole).2
  rw [← place.rest, h, hasDoubleSlash_cons, Bool.or_eq_false_iff, decide_eq_false_iff_not] at after
  exact fun head => after.1 ⟨rfl, head⟩

/-- What is captured behind a slash does not begin with a slash, and it is empty only if what stands
for the value can consume nothing. -/
theorem captured_behind_slash (single : hasDoubleSlash text = false) (place : p.In text)
    {rest : List Char} (isRest : p.rest = '/' :: rest) {last : Point}
    (h : last ∈ e.ends (p.past ['/'] rest)) (boundary : Boundary last.rest) :
    ((p.past ['/'] rest).textTo last).head? ≠ some '/' ∧
      ((p.past ['/'] rest).textTo last = [] → e.idle (·.holds (.start [])) = true) := by
  have noSlash := head?_of_slash single place isRest
  have start := place.next isRest
  have leads := e.leads_of_mem_ends h
  have stop := leads.2 text start
  rw [textTo, past_rest]
  constructor
  · rw [List.head?_take]
    split
    · simp
    · exact noSlash
  · intro nothing
    -- the match has stayed where it began
    have stays : last.offset = (p.past ['/'] rest).offset := by
      have bound := stop.offset_le
      have length := start.length_rest
      have := leads.1
      rcases List.take_eq_nil_iff.mp nothing with none | none
      · omega
      · have empty : (p.past ['/'] rest).rest.length = 0 := by rw [past_rest, none]; rfl
        omega
    have same := stop.same start stays
    -- a slash would be the second one in a row, so this is the end
    have atEnd : rest = [] := by
      cases rest with
      | nil => rfl
      | cons c rest =>
        have isSlash := boundary c (by rw [same.rest]; rfl)
        exact absurd (by rw [isSlash]; rfl) noSlash
    subst atEnd
    exact e.idle_mono (Look.holds_of_behind_slash rfl rfl) (e.idle_of_mem_ends start h stays)

/-- What a match of the tokens captures for their params. -/
theorem accounted_of_passes (single : hasDoubleSlash text = false) (place : p.In text)
    (free : ∀ p ∈ Pattern.params tokens, (base p).numbers = [])
    (h : Passes (slotsOf ci (fun p => .gathered (valueParts ci (base p) p)) index tokens) p q)
    (boundary : Boundary q.rest) : Accounted base q.group? index tokens := by
  induction tokens generalizing index p with
  | nil => trivial
  | cons token tokens ih =>
    cases token with
    | literal text =>
      obtain ⟨first, inSlash, rest⟩ := h
      obtain ⟨middle, inText, rest⟩ := passes_append.mp rest
      exact ih (in_of_passes ((slash ci).in_of_mem_ends place inSlash) inText) free rest
    | param param =>
      obtain ⟨middle, inParam, rest⟩ := passes_append.mp h
      have freeRest : ∀ p ∈ Pattern.params tokens, (base p).numbers = [] := fun p member =>
        free p (List.mem_cons_of_mem _ member)
      refine ⟨fun required => ?_, ih (in_of_passes place inParam) freeRest rest⟩
      rcases passes_param inParam with ⟨optional, -⟩ | ⟨tail, last, isRest, inValue, rfl⟩
      · exact absurd optional (by simp [required])
      · have kept := group?_of_passes_slots (fun p member => numbers_gathered (freeRest p member))
          (Nat.lt_succ_self index) rest
        have captured : ((p.past ['/'] tail).capture index last).group? index =
            some ((p.past ['/'] tail).textTo last) := List.lookup_cons_self
        have boundary' := boundary_of_passes rest boundary
        obtain ⟨noSlash, idle⟩ := captured_behind_slash single place isRest inValue boundary'
        exact ⟨_, kept.trans captured, noSlash, fun nothing => idle_of_gathered (idle nothing)⟩

end Recognizer

/-! ### Recognized paths -/

namespace Matcher

open Recognizer

variable {pattern path : String} {options : PatternOptions} {m : Matcher} {params : Params}

/-- The params of a path are read from what was captured for them. -/
theorem exists_accounted_of_recognize (compiled : ofPattern pattern options = .ok m)
    (enclosed : ∀ p ∈ Pattern.params m.tokens, p.Enclosed)
    (single : hasDoubleSlash path.toList = false) (h : m.recognize path = some params) :
    ∃ base hit, Accounted base hit.group? 1 m.tokens ∧ params = readParams hit 1 m.keys [] ∧
      ∀ p ∈ Pattern.params m.tokens,
        (base p).idle (·.holds (.start [])) = true → p.name ∈ m.emptyCapable := by
  obtain ⟨base, spec⟩ := exists_base compiled enclosed options.caseInsensitive
  have isExpr := expr_of_fills (fun p member => fills_of_stands (spec p member).1)
    (ofPattern_eq_ok compiled).2.2
  obtain ⟨hit, isHit, rfl⟩ := Option.map_eq_some_iff.mp h
  refine ⟨base, hit, ?_, rfl, fun p member => (spec p member).2.2⟩
  obtain ⟨middle, passes, accepted, same⟩ := exists_passes_of_search? isExpr isHit
  have accounted := accounted_of_passes single (in_start path.toList)
    (fun p member => (spec p member).2.1) passes (boundary_of_accepts accepted)
  -- nothing is captured behind the tokens
  have groups : hit.group? = middle.group? := by
    funext i
    rw [Point.group?, Point.group?, same]
  exact groups ▸ accounted

end Matcher
end Waymark
