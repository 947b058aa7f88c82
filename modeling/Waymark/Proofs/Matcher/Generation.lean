/-
Generated paths are recognized.

A path that a pattern builds is spelled by the shares of its tokens, and the expression of
the pattern admits each share where it stands, with or without regard to the case of
letters.  What may follow the segments fits too, except that a strict pattern all of whose
segments may be missing builds a single slash but lets through only the empty text.

* `admits_parts` — the expressions for tokens admit the shares that fit them;
* `isSome_of_fits` — a path that fits is recognized, under any options;
* `toList_pathOf` — the text of a path with given segments;
* `Readmits.isSome_recognize` — a path that was built is recognized, if the params admit what they
  are written with;
* `isSome_recognize_of_build` — so it is without constraints;
* `normalize_of_build` — and it is in canonical form.
-/
import Waymark.Proofs.Matcher.Build
import Waymark.Proofs.Regex.Admits
import Waymark.Proofs.Regex.Outline

namespace Waymark

open Regex Unicode
open Waymark.Path (IsSegment spell joinSegments)

theorem Regex.Expr.Admits.gathered {es : List Expr} {cs : List Char}
    (h : (inSequence es).Admits cs) : (Expr.gathered es).Admits cs := by
  unfold Expr.gathered
  split
  · intro α k text rest p fair place isRest succeeds
    rw [← run_singleton fair place]
    exact h fair place isRest succeeds
  · exact h

namespace Recognizer

variable {ci : Bool} {index : Nat} {tokens : List Token} {p : Param} {e : Expr}
  {s cs : List Char} {share : List (List Char)} {shares : List (List (List Char))}
  {base : Param → Expr}

/-! ### The catch-all param -/

/-- The characters that a dot stands for. -/
def dots : CodeSet := (CodeSet.ofChar '\n').complement

/-- Text of one line. -/
def line : Expr := .loop 0 none true (.set dots)

theorem stands_line (ci : Bool) : Stands ci Param.catchAll line := by
  intro index
  have settled : Settles (flags ci) .dot (.set dots) := by cases ci <;> rfl
  have text : Denotes (flags ci) index (Param.catchAll.constraint.getD anySegment).toList
      [line] 0 := by
    have adds : Adds ['.'] .dot := adds_singleton fun _ _ => rfl
    refine ⟨_, writes_marked (c := '*') rfl adds ⟨by simp, by simp⟩, .cons ?_ .nil⟩
    exact settles_repetition rfl (c := '*') rfl rfl settled
  exact text.group

/-- The expression for a segment of a param that has no constraint or is the catch-all param. -/
def plainBase (ci : Bool) (p : Param) : Expr := if p.constraint = none then segment ci else line

theorem stands_plainBase (plain : p.constraint = none ∨ p = Param.catchAll) :
    Stands ci p (plainBase ci p) := by
  rw [plainBase]
  rcases plain with free | rfl
  · rw [if_pos free]
    exact stands_segment free
  · exact stands_line ci

theorem admits_segment (isSegment : IsSegment s) : (segment ci).Admits s := by
  obtain ⟨nonempty, noSlash⟩ := isSegment
  obtain ⟨c, rest, rfl⟩ := List.exists_cons_of_ne_nil nonempty
  have inside : ∀ d ∈ c :: rest, (inner ci).has d = true := fun d member =>
    (inner_has ci d).trans (decide_eq_true fun same => noSlash (same ▸ member))
  exact (Expr.admits_set (inside c List.mem_cons_self)).plus (Expr.consuming_set _)
    (Expr.admits_star_set fun d member => inside d (List.mem_cons_of_mem _ member))

theorem dots_has (c : Char) : dots.has c = decide (c ≠ '\n') := by
  show (CodeSet.complement _).contains c.toNat = _
  rw [CodeSet.contains_complement _ (toNat_le_top c), CodeSet.ofChar, CodeSet.contains_single,
    ← decide_not]
  refine decide_eq_decide.mpr (not_congr ?_)
  rw [Char.toNat_inj]
  exact eq_comm

theorem admits_line (noNewline : '\n' ∉ s) : line.Admits s :=
  Expr.admits_star_set fun c member =>
    (dots_has c).trans (decide_eq_true fun same => noNewline (same ▸ member))

theorem admits_plainBase (ci : Bool) (p : Param) (encoded : IsEncoded s) :
    (plainBase ci p).Admits s := by
  rw [plainBase]
  split
  · exact admits_segment encoded.isSegment
  · obtain ⟨text, -, rfl⟩ := encoded
    exact admits_line (Percent.not_mem_encode (by decide) text)

/-! ### Quoted constraints -/

theorem admits_letters (ci : Bool) (cs : List Char) :
    (Expr.inSequence (literalParts ci cs)).Admits cs := by
  induction cs with
  | nil => exact Expr.admits_nil
  | cons c cs ih => exact (Expr.admits_set (letter_has_self ci c)).cons ih

/-- The letters of quoted text. -/
theorem stands_quoted (isConstraint : p.constraint = some (String.ofList (quoted cs))) :
    Stands ci p (.gathered (literalParts ci cs)) := by
  intro index
  rw [isConstraint, Option.getD_some, String.toList_ofList]
  exact (denotes_quoted (settles_letter ci) cs).group

/-! ### Tokens -/

/-- The token may take the share, and the expression for a segment of a param admits each of its
segments. -/
structure Fits (base : Param → Expr) (token : Token) (share : List (List Char)) : Prop where
  takes : token.Takes (· == ·) share
  admits : ∀ p, token = .param p → ∀ s ∈ share, (base p).Admits s

theorem admits_slash (ci : Bool) : (slash ci).Admits ['/'] :=
  Expr.admits_set (letter_has_self ci '/')

theorem admits_value (nonempty : share ≠ []) (single : p.repeatable = false → share.length ≤ 1)
    (admits : ∀ s ∈ share, e.Admits s) :
    (Expr.gathered (valueParts ci e p)).Admits (joinSegments share) := by
  obtain ⟨s, rest, rfl⟩ := List.exists_cons_of_ne_nil nonempty
  have first := admits s List.mem_cons_self
  rw [Path.joinSegments_cons, valueParts]
  cases repeatable : p.repeatable with
  | false =>
    have only : rest = [] := List.eq_nil_of_length_eq_zero (Nat.le_zero.mp
      (Nat.le_of_succ_le_succ (single repeatable)))
    rw [only, Path.spell_nil, List.append_nil]
    exact first
  | true =>
    have rounds : ∀ cs ∈ rest.map ('/' :: ·), (Expr.inSequence [slash ci, e]).Admits cs := by
      intro cs member
      obtain ⟨s, inRest, rfl⟩ := List.mem_map.mp member
      exact (admits_slash ci).cons (admits s (List.mem_cons_of_mem _ inRest)).single
    have others := Expr.admits_star (Expr.consuming_seq (Expr.consuming_set _) _) rounds
    rw [← List.flatMap_def] at others
    exact first.cons others.single

theorem admits_param (fits : Fits base (.param p) share) :
    (Expr.inSequence (paramPartsOf ci (base p) index p)).Admits (spell share) := by
  obtain ⟨⟨required, single⟩, admits⟩ := fits
  have captured : share ≠ [] →
      (Expr.inSequence [slash ci, .group index (.gathered (valueParts ci (base p) p))]).Admits
        (spell share) := by
    intro nonempty
    obtain ⟨s, rest, isShare⟩ := List.exists_cons_of_ne_nil nonempty
    have value := @admits_value ci _ _ _ nonempty single (admits p rfl)
    rw [isShare] at value ⊢
    rw [Path.spell_eq_cons]
    exact (admits_slash ci).cons (value.group index).single
  rw [paramPartsOf, slotParts]
  cases optional : p.optional with
  | false => exact captured (required optional)
  | true =>
    by_cases absent : share = []
    · rw [absent]
      exact (Expr.admits_passed _).single
    · exact (captured absent).optional.single

/-- The expressions for tokens admit the shares that fit the tokens. -/
theorem admits_parts (fits : List.Forall₂ (Fits base) tokens shares) :
    (Expr.inSequence (partsOf ci base index tokens)).Admits (spell shares.flatten) := by
  induction fits generalizing index with
  | nil => exact Expr.admits_nil
  | @cons token share tokens shares first _ ih =>
    rw [List.flatten_cons, Path.spell_append]
    cases token with
    | literal text =>
      obtain ⟨s, rfl, same⟩ := first.takes
      rw [← eq_of_beq same, Path.spell_cons, Path.spell_nil, List.append_nil]
      exact (admits_slash ci).cons ((admits_letters ci text.toList).append ih)
    | param p => exact (admits_param first).append ih

/-! ### Endings -/

theorem admits_ending {ending : Ending} {tail : List Char} (accepted : ending.accepts tail = true) :
    (Expr.inSequence (ending.parts ci)).Admits tail := by
  cases ending with
  | slash =>
    rw [of_decide_eq_true accepted]
    exact (admits_slash ci).single
  | nothing =>
    rw [of_decide_eq_true accepted]
    exact Expr.admits_nil
  | optional =>
    rw [Ending.accepts, Bool.or_eq_true, decide_eq_true_eq, decide_eq_true_eq] at accepted
    rcases accepted with rfl | rfl
    · exact (admits_slash ci).optional.single
    · exact (Expr.admits_passed _).single

/-- A text that the expressions admit and that ends as it may is found. -/
theorem isSome_search? {ending : Ending} {es : List Expr} {tail : List Char}
    (h : e = .inSequence ((if ci then [.empty] else []) ++ framed ci es ending))
    (admits : (Expr.inSequence es).Admits cs) (accepted : ending.accepts tail = true) :
    (e.search? (cs ++ tail)).isSome := by
  rw [← Option.isSome_map, search?_eq h]
  refine admits (Expr.fair_run fair_given _) (Point.in_start _) rfl ?_
  have place := (Point.in_start (cs ++ tail)).past rfl
  rw [Expr.run_inSequence_append fair_given place]
  refine @admits_ending ci _ _ accepted _ _ _ [] _ (Expr.fair_run fair_given _) place
    (List.append_nil tail).symm ?_
  have atEnd := place.past (List.append_nil tail).symm
  rw [Expr.run_singleton fair_given atEnd, run_textEnd, Point.past_rest, if_pos rfl]
  rfl

end Recognizer

/-! ### Paths -/

/-- The params have no constraints of their own; a bare asterisk is none. -/
def Pattern.Plain (tokens : List Token) : Prop :=
  ∀ p ∈ params tokens, p.constraint = none ∨ p = Param.catchAll

namespace Matcher

open Recognizer (Fits Stands plainBase ending Ending)

variable {pattern path : String} {options : PatternOptions} {m : Matcher} {params : Params}
  {base : Param → Expr} {shares : List (List (List Char))} {tail : List Char}

/-- The single slash is a path of the pattern if a slash may follow the segments: when the pattern
is not strict, ends with a slash or has no segments at all; or if a bare asterisk takes it. -/
def OwnsRoot (m : Matcher) : Prop :=
  (∃ pattern ci, ofPattern pattern ⟨ci, false⟩ = .ok m) ∨ m.trailingSlash = true ∨ m.tokens = [] ∨
    .param Param.catchAll ∈ m.tokens

/-- The expression of a pattern without constraints of its own. -/
theorem recognizer_expr_of_plain (compiled : ofPattern pattern options = .ok m)
    (plain : Pattern.Plain m.tokens) :
    m.recognizer.expr = .inSequence ((if options.caseInsensitive then [.empty] else []) ++
      Recognizer.framed options.caseInsensitive
        (Recognizer.partsOf options.caseInsensitive (plainBase options.caseInsensitive) 1 m.tokens)
        (ending m.tokens options.strict m.trailingSlash)) :=
  Recognizer.expr_of_stands (fun p member => Recognizer.stands_plainBase (plain p member))
    (ofPattern_eq_ok compiled).2.2

/-- A path that is spelled by shares that fit the tokens, with an ending, is recognized. -/
theorem isSome_of_fits (compiled : ofPattern pattern options = .ok m)
    (stands : ∀ p ∈ Pattern.params m.tokens, Stands options.caseInsensitive p (base p))
    (fits : List.Forall₂ (Fits base) m.tokens shares)
    (accepted : (ending m.tokens options.strict m.trailingSlash).accepts tail = true)
    (isPath : path.toList = spell shares.flatten ++ tail) : (m.recognize path).isSome := by
  have isExpr := Recognizer.expr_of_stands stands (ofPattern_eq_ok compiled).2.2
  rw [recognize, Option.isSome_map, Regex.find?, isPath]
  exact Recognizer.isSome_search? isExpr (Recognizer.admits_parts fits) accepted

/-- Where no token has a segment, the catch-all param may take the slash for an empty one. -/
theorem exists_fits_of_catchAll {tokens : List Token} (empty : (base Param.catchAll).Admits [])
    (member : .param Param.catchAll ∈ tokens) (fits : List.Forall₂ (Fits base) tokens shares)
    (nothing : shares.flatten = []) :
    ∃ others, List.Forall₂ (Fits base) tokens others ∧ spell others.flatten = ['/'] := by
  induction fits with
  | nil => exact absurd member List.not_mem_nil
  | @cons token share tokens shares first rest ih =>
    rw [List.flatten_cons, List.append_eq_nil_iff] at nothing
    obtain ⟨rfl, nothing⟩ := nothing
    by_cases here : token = .param Param.catchAll
    · subst here
      refine ⟨[[]] :: shares, .cons ⟨⟨by simp, by simp [Param.catchAll]⟩, ?_⟩ rest,
        by rw [List.flatten_cons, nothing]; rfl⟩
      rintro _ ⟨⟩ s inShare
      rw [List.mem_singleton.mp inShare]
      exact empty
    · obtain ⟨others, fits', spelled⟩ := ih ((List.mem_cons.mp member).resolve_left (Ne.symm here))
        nothing
      exact ⟨[] :: others, .cons first fits', spelled⟩

/-- A path without segments is a slash, and so is one with a single segment that is empty. -/
theorem toList_pathOf (m : Matcher) (parts : List (List Char)) :
    (m.pathOf parts).toList = if parts = [] then ['/'] else spell parts ++
      if m.trailingSlash = true ∧ parts ≠ [[]] then ['/'] else [] := by
  rw [pathOf]
  by_cases nothing : parts = []
  · have root : Path.ofSegments [] = "/" := rfl
    rw [if_pos nothing, nothing, root, if_neg (by simp)]
    rfl
  · have text := Path.toList_ofSegments nothing
    have isRoot : Path.ofSegments parts = "/" ↔ parts = [[]] := by
      obtain ⟨s, rest, rfl⟩ := List.exists_cons_of_ne_nil nothing
      rw [← String.toList_inj, text]
      cases s <;> cases rest <;> simp
    rw [if_neg nothing, ← text]
    by_cases alone : parts = [[]]
    · have root := isRoot.mpr alone
      rw [if_neg (by simp [root]), if_neg (by simp [alone]), List.append_nil]
    · have notRoot := mt isRoot.mp alone
      cases m.trailingSlash with
      | false => simp
      | true => simp [notRoot, alone]

/-- A slash at the end comes after whatever segments there are, unless the only one is empty. -/
theorem toList_pathOf_of_hollow {parts : List (List Char)}
    (hollow : parts = [[]] → m.trailingSlash = false) : (m.pathOf parts).toList =
      if parts = [] then ['/'] else spell parts ++ if m.trailingSlash then ['/'] else [] := by
  rw [toList_pathOf]
  by_cases alone : parts = [[]]
  · simp only [hollow alone, Bool.false_eq_true, false_and, if_false]
  · simp only [ne_eq, alone, not_false_eq_true, and_true]

theorem ne_hollow {parts : List (List Char)} (segments : ∀ s ∈ parts, IsSegment s) :
    parts ≠ [[]] := by
  rintro rfl
  exact (segments [] List.mem_cons_self).1 rfl

/-- Without constraints of its own, a pattern is written with segments. -/
theorem isSegment_of_build (compiled : ofPattern pattern options = .ok m)
    (plain : Pattern.Plain m.tokens) (built : m.build params = .ok path) :
    ∀ s ∈ (m.tokens.map (Token.share params)).flatten, IsSegment s :=
  Pattern.isSegment_of_given (build_eq_ok built).1
    (Pattern.isSegment_of_mem_readTokens (Pattern.tokenize_eq_ok (ofPattern_eq_ok compiled).1).1)
    (isEncoded_given_of_build compiled plain built)

/-- A path that was built is in canonical form, unless literal text holds a backslash. -/
theorem normalize_of_build (compiled : ofPattern pattern options = .ok m)
    (plain : Pattern.Plain m.tokens)
    (noBackslash : ∀ text, Token.literal text ∈ m.tokens → '\\' ∉ text.toList)
    (built : m.build params = .ok path) : Path.normalize path = path := by
  obtain ⟨takes, isPath⟩ := build_eq_ok built
  have segments := isSegment_of_build compiled plain built
  have text := @toList_pathOf_of_hollow m _ fun alone => absurd alone (ne_hollow segments)
  refine Path.normalize_of_isCanonical ?_
  rw [Path.isCanonical, isPath, text]
  split
  · rfl
  · rename_i nonempty
    refine Path.isCanonicalChars_spell nonempty segments (fun s member => ?_) ?_
    · rcases Pattern.literal_or_given takes member with ⟨text, inTokens, rfl⟩ | isGiven
      · exact noBackslash text inTokens
      · obtain ⟨text, -, rfl⟩ := isEncoded_given_of_build compiled plain built s isGiven
        exact Percent.not_mem_encode (by decide) text
    · cases m.trailingSlash <;> simp

/-- The ending of a pattern lets through the slash that paths are built with. -/
theorem accepts_trailing (compiled : ofPattern pattern options = .ok m) (some : m.tokens ≠ []) :
    (ending m.tokens options.strict m.trailingSlash).accepts
      (if m.trailingSlash then ['/'] else []) = true := by
  have strictly : m.trailingSlash = true → options.strict = true := by
    rw [(ofPattern_eq_ok compiled).2.1, Bool.and_eq_true, Bool.and_eq_true]
    exact fun all => all.1.1
  have nonempty : m.tokens.isEmpty = false := by simpa using some
  rw [ending, nonempty]
  cases m.trailingSlash <;> cases options.strict <;> simp_all [Ending.accepts]

/-- A slash may follow no segments, unless a strict pattern has some and does not end with one. -/
theorem accepts_slash {strict : Bool}
    (h : strict = false ∨ m.trailingSlash = true ∨ m.tokens = []) :
    (ending m.tokens strict m.trailingSlash).accepts ['/'] = true := by
  rw [ending]
  rcases h with lenient | trailing | none
  · rw [lenient]
    split <;> rfl
  · rw [trailing, Bool.or_true]
    rfl
  · rw [none]
    rfl

/-- What the params are written with is admitted where it is read: the expression that stands for
one segment of a param admits every segment that the param is written with.  If nothing is written
at all, a slash may follow no segments, or a bare asterisk takes it; and if nothing but an empty
segment is written, no slash has to follow it. -/
structure Readmits (m : Matcher) (options : PatternOptions) (params : Params) : Prop where
  compiled : ∃ pattern, ofPattern pattern options = .ok m
  admits : ∀ p ∈ Pattern.params m.tokens, ∃ e, Stands options.caseInsensitive p e ∧
    ∀ s ∈ p.share params, e.Admits s
  root : (∀ token ∈ m.tokens, token.share params = []) → options.strict = false ∨
    m.trailingSlash = true ∨ m.tokens = [] ∨ .param Param.catchAll ∈ m.tokens
  hollow : (m.tokens.map (Token.share params)).flatten = [[]] → m.trailingSlash = false

/-- What a param is written with stays on its line. -/
theorem newline_not_mem_share (built : m.build params = .ok path) :
    ∀ p ∈ Pattern.params m.tokens, ∀ s ∈ p.share params, '\n' ∉ s := by
  intro p member s inShare
  obtain ⟨segment, isParam⟩ := buildParam_of_build built member
  rcases (buildParam_eq_ok isParam).2.1 s inShare with ⟨text, -, rfl⟩ | ⟨rfl, -⟩
  · exact Percent.not_mem_encode (by decide) text
  · exact List.not_mem_nil

/-- The expressions that admit what is written, of which that for a bare asterisk also admits the
empty segment. -/
theorem Readmits.exists_base (h : m.Readmits options params) (built : m.build params = .ok path) :
    ∃ base : Param → Expr, ∀ p ∈ Pattern.params m.tokens,
      Stands options.caseInsensitive p (base p) ∧ (∀ s ∈ p.share params, (base p).Admits s) ∧
        (p = Param.catchAll → (base p).Admits []) := by
  have each : ∀ p ∈ Pattern.params m.tokens, ∃ e, Stands options.caseInsensitive p e ∧
      (∀ s ∈ p.share params, e.Admits s) ∧ (p = Param.catchAll → e.Admits []) := by
    intro p member
    by_cases catchAll : p = Param.catchAll
    · exact ⟨Recognizer.line, catchAll ▸ Recognizer.stands_line _,
        fun s inShare => Recognizer.admits_line (newline_not_mem_share built p member s inShare),
        fun _ => Recognizer.admits_line List.not_mem_nil⟩
    · obtain ⟨e, stands, admits⟩ := h.admits p member
      exact ⟨e, stands, admits, fun same => absurd same catchAll⟩
  have : Nonempty Expr := ⟨.empty⟩
  choose! base spec using each
  exact ⟨base, spec⟩

/-- The shares of a path that was built fit the tokens, if their segments are admitted. -/
theorem fits_of_build (built : m.build params = .ok path)
    (admits : ∀ p ∈ Pattern.params m.tokens, ∀ s ∈ p.share params, (base p).Admits s) :
    List.Forall₂ (Fits base) m.tokens (m.tokens.map (Token.share params)) := by
  have takes := (build_eq_ok built).1
  rw [List.forall₂_map_right_iff, List.forall₂_same] at takes ⊢
  intro token member
  refine ⟨takes token member, ?_⟩
  rintro p rfl
  exact admits p (Pattern.mem_params.mpr member)

/-- A path that was built is recognized, if what the params are written with is admitted. -/
theorem Readmits.isSome_recognize (h : m.Readmits options params)
    (built : m.build params = .ok path) : (m.recognize path).isSome := by
  obtain ⟨base, spec⟩ := h.exists_base built
  obtain ⟨pattern, compiled⟩ := h.compiled
  have stands := fun p member => (spec p member).1
  have fits := fits_of_build built fun p member => (spec p member).2.1
  have text := toList_pathOf_of_hollow h.hollow
  rw [← (build_eq_ok built).2] at text
  split at text
  · rename_i nothing
    -- a slash is the ending, if one may follow the segments
    have closed := fun accepted => @isSome_of_fits _ _ _ _ _ _ ['/'] compiled stands fits accepted
      (by rw [text, nothing]; rfl)
    have leftOut : ∀ token ∈ m.tokens, token.share params = [] := fun token member =>
      List.flatten_eq_nil_iff.mp nothing _ (List.mem_map_of_mem member)
    rcases h.root leftOut with lenient | trailing | none | catchAll
    · exact closed (accepts_slash (.inl lenient))
    · exact closed (accepts_slash (.inr (.inl trailing)))
    · exact closed (accepts_slash (.inr (.inr none)))
    · have empty := (spec _ (Pattern.mem_params.mpr catchAll)).2.2 rfl
      obtain ⟨others, fits', spelled⟩ := exists_fits_of_catchAll empty catchAll fits nothing
      cases isEnding : ending m.tokens options.strict m.trailingSlash with
      | slash => exact closed (by rw [isEnding]; rfl)
      | optional => exact closed (by rw [isEnding]; rfl)
      | nothing =>
        refine @isSome_of_fits _ _ _ _ _ _ [] compiled stands fits' (by rw [isEnding]; rfl) ?_
        rw [spelled, text]
        rfl
  · rename_i nonempty
    have some : m.tokens ≠ [] := fun none => nonempty (by rw [none]; rfl)
    exact isSome_of_fits compiled stands fits (accepts_trailing compiled some) text

/-- Without constraints of its own, a pattern admits whatever it is written with. -/
theorem readmits_of_plain (compiled : ofPattern pattern options = .ok m)
    (plain : Pattern.Plain m.tokens) (built : m.build params = .ok path)
    (root : path = "/" → options.strict = false ∨ m.trailingSlash = true ∨ m.tokens = [] ∨
      .param Param.catchAll ∈ m.tokens) : m.Readmits options params where
  compiled := ⟨pattern, compiled⟩
  admits := by
    intro p member
    refine ⟨_, Recognizer.stands_plainBase (plain p member), fun s inShare => ?_⟩
    have encoded := isEncoded_of_build compiled plain built p member s inShare
    exact Recognizer.admits_plainBase _ p encoded
  root := by
    intro nothing
    have none : (m.tokens.map (Token.share params)).flatten = [] := by simpa using nothing
    refine root ?_
    rw [(build_eq_ok built).2, ← String.toList_inj, toList_pathOf, if_pos none]
    rfl
  hollow := fun alone => absurd alone (ne_hollow (isSegment_of_build compiled plain built))

/-- A pattern with literal text admits what it is written with, if its constraints are just that,
quoted. -/
theorem readmits_of_quoted (compiled : ofPattern pattern options = .ok m)
    (quotes : ∀ p ∈ Pattern.params m.tokens, ∃ cs, p.constraint = some (String.ofList (quoted cs)) ∧
      ∀ s ∈ p.share params, s = cs)
    {text : String} (literal : .literal text ∈ m.tokens) : m.Readmits options params where
  compiled := ⟨pattern, compiled⟩
  admits := by
    intro p member
    obtain ⟨cs, isConstraint, same⟩ := quotes p member
    refine ⟨_, Recognizer.stands_quoted isConstraint, fun s inShare => ?_⟩
    rw [same s inShare]
    exact (Recognizer.admits_letters _ cs).gathered
  root := fun nothing => absurd (nothing _ literal) (List.cons_ne_nil _ _)
  hollow := fun alone => by
    have inShares : text.toList ∈ (m.tokens.map (Token.share params)).flatten :=
      List.mem_flatten_of_mem (List.mem_map_of_mem literal) List.mem_cons_self
    rw [alone] at inShares
    have nonempty := (Pattern.isSegment_of_mem_readTokens
      (Pattern.tokenize_eq_ok (ofPattern_eq_ok compiled).1).1 text literal).1
    exact absurd (List.mem_singleton.mp inShares) nonempty

/-- Under any options a path that was built is recognized. -/
theorem isSome_recognize_of_build (compiled : ofPattern pattern options = .ok m)
    (plain : Pattern.Plain m.tokens) (built : m.build params = .ok path)
    (root : path = "/" → m.OwnsRoot) : (m.recognize path).isSome := by
  by_cases lenient : ∃ pattern ci, ofPattern pattern ⟨ci, false⟩ = .ok m
  · obtain ⟨pattern, ci, compiled'⟩ := lenient
    have readmits := readmits_of_plain compiled' plain built fun _ => Or.inl rfl
    exact readmits.isSome_recognize built
  · have readmits := readmits_of_plain compiled plain built fun isRoot =>
      Or.inr ((root isRoot).resolve_left lenient)
    exact readmits.isSome_recognize built

/-! ### Paths that are not recognized -/

/-- Literal text with a backslash keeps a pattern from recognizing any canonical path. -/
theorem recognize_normalize_of_backslash {strict : Bool} {text : String}
    (compiled : ofPattern pattern ⟨false, strict⟩ = .ok m)
    (free : ∀ p ∈ Pattern.params m.tokens, p.constraint = none)
    (literal : .literal text ∈ m.tokens) (backslash : '\\' ∈ text.toList) (path : String) :
    m.recognize (Path.normalize path) = none := by
  rw [Option.eq_none_iff_forall_ne_some]
  intro params recognized
  obtain ⟨shares, divides, -⟩ := exists_of_recognize compiled free recognized
  obtain ⟨tail, -, spelled⟩ := divides.spelled
  have inShares : text.toList ∈ shares.flatten :=
    (Pattern.perm_of_takes divides.takes).mem_iff.mpr
      (List.mem_append_left _ (List.mem_filterMap.mpr ⟨_, literal, rfl⟩))
  have inPath : '\\' ∈ (Path.normalize path).toList := by
    rw [spelled]
    exact List.mem_append_left _
      (List.mem_flatMap.mpr ⟨_, inShares, List.mem_cons_of_mem _ backslash⟩)
  rw [Path.normalize, String.toList_ofList] at inPath
  exact Path.not_mem_normalizeChars _ inPath

/-- A strict pattern with segments and without a slash at its end does not recognize the single
slash, even if all of its segments may be missing. -/
theorem recognize_root_of_strict (compiled : ofPattern pattern ⟨false, true⟩ = .ok m)
    (free : ∀ p ∈ Pattern.params m.tokens, p.constraint = none) (some : m.tokens ≠ [])
    (noSlash : endsWithSlash pattern = false) : m.recognize "/" = none := by
  rw [Option.eq_none_iff_forall_ne_some]
  intro params recognized
  obtain ⟨shares, divides, -⟩ := exists_of_recognize compiled free recognized
  obtain ⟨tail, ends, spelled⟩ := divides.spelled
  rw [Pattern.endings, if_neg some, if_pos rfl, noSlash, if_neg (by simp),
    List.mem_singleton] at ends
  rw [ends, List.append_nil] at spelled
  have all := divides.all
  cases isShares : shares.flatten with
  | nil =>
    rw [isShares] at spelled
    exact absurd spelled (by simp)
  | cons s rest =>
    rw [isShares] at spelled all
    have nonempty := (all s List.mem_cons_self).1
    rw [Path.spell_cons] at spelled
    simp [nonempty] at spelled

end Matcher
end Waymark
