/-
Params that come back from their path.

Where only the last token may be left out or take several segments, no path is divided among
the tokens in two ways.  So a path is read into the params that it was built of, whatever
texts they hold.

* `LooseAtEnd.eq_of_takes` — the shares of the tokens follow from the segments of the path;
* `Suits.share_cases` — what a suitable value may be, and what is written for it;
* `build_of_suits` — suitable params build the path of their own shares;
* `recognize_build` — and they are what is recognized in it.
-/
import Waymark.Proofs.Matcher.Generation

namespace Waymark

open Waymark.Path (IsSegment Boundary nextSegment? spell)

variable {spells : List Char → List Char → Bool} {tokens : List Token} {p : Param}
  {params : Params}

/-! ### Divisions -/

namespace Pattern

/-- Only the last token may be left out or take several segments. -/
def LooseAtEnd (tokens : List Token) : Prop :=
  ∀ p ∈ Pattern.params tokens.dropLast, p.optional = false ∧ p.repeatable = false

theorem LooseAtEnd.tail {first second : Token} (h : LooseAtEnd (first :: second :: tokens)) :
    LooseAtEnd (second :: tokens) := by
  intro p member
  exact h p (mem_params.mpr (List.mem_cons_of_mem _ (mem_params.mp member)))

/-- A token that is not the last one takes a single segment. -/
theorem LooseAtEnd.exists_singleton {first second : Token} {share : List (List Char)}
    (h : LooseAtEnd (first :: second :: tokens)) (takes : first.Takes spells share) :
    ∃ s, share = [s] := by
  cases first with
  | literal text =>
    obtain ⟨s, isShare, -⟩ := takes
    exact ⟨s, isShare⟩
  | param p =>
    obtain ⟨required, single⟩ := h p List.mem_cons_self
    exact List.length_eq_one_iff.mp (Nat.le_antisymm (takes.2 single)
      (List.length_pos_iff.mpr (takes.1 required)))

/-- The shares of the tokens follow from their segments. -/
theorem LooseAtEnd.eq_of_takes {spells' : List Char → List Char → Bool}
    {shares others : List (List (List Char))} (h : LooseAtEnd tokens)
    (takes : List.Forall₂ (Token.Takes spells) tokens shares)
    (takes' : List.Forall₂ (Token.Takes spells') tokens others)
    (same : shares.flatten = others.flatten) : shares = others := by
  induction takes generalizing others with
  | nil =>
    cases takes'
    rfl
  | @cons first share tokens shares takesFirst rest ih =>
    obtain ⟨share', others, takesFirst', rest', rfl⟩ := List.forall₂_cons_left_iff.mp takes'
    cases tokens with
    | nil =>
      cases rest
      cases rest'
      rw [List.flatten_singleton, List.flatten_singleton] at same
      rw [same]
    | cons second tokens =>
      obtain ⟨s, rfl⟩ := h.exists_singleton takesFirst
      obtain ⟨s', rfl⟩ := h.exists_singleton takesFirst'
      obtain ⟨rfl, sameRest⟩ := List.cons.inj same
      rw [ih h.tail rest' sameRest]

end Pattern

/-! ### Suitable values -/

/-- A value as the marks of the param ask for it: a text, or a list of texts if it is repeatable,
none of them empty; or nothing if it is optional. -/
def Param.Suits (p : Param) : Option ParamValue → Prop
  | none => p.optional = true
  | some (.single text) => p.repeatable = false ∧ text ≠ ""
  | some (.list texts) => p.repeatable = true ∧ texts ≠ [] ∧ ∀ text ∈ texts, text ≠ ""

namespace Param

theorem decodedSegment_encode (text : String) :
    decodedSegment (Percent.encode text.toList) = text := by
  rw [decodedSegment, Percent.decode?_encode, Option.getD_some, String.ofList_toList]

/-- What a suitable value may be, and the segments that it is written with. -/
theorem Suits.share_cases (suits : p.Suits (params.get? p.name)) :
    (params.get? p.name = none ∧ p.optional = true ∧ p.share params = []) ∨
      (∃ text, params.get? p.name = some (.single text) ∧ p.repeatable = false ∧ text ≠ "" ∧
        p.share params = [Percent.encode text.toList]) ∨
      ∃ texts, params.get? p.name = some (.list texts) ∧ p.repeatable = true ∧ texts ≠ [] ∧
        (∀ text ∈ texts, text ≠ "") ∧
        p.share params = texts.map fun text => Percent.encode text.toList := by
  cases value : params.get? p.name with
  | none =>
    rw [value] at suits
    exact .inl ⟨rfl, suits, by rw [share, value]⟩
  | some value' =>
    rw [value] at suits
    cases value' with
    | single text =>
      obtain ⟨single, given⟩ := suits
      refine .inr (.inl ⟨text, rfl, single, given, ?_⟩)
      rw [share_of_filled value (by simpa [ParamValue.isEmpty] using given), ParamValue.share,
        if_neg (by simpa using given)]
    | list texts =>
      obtain ⟨repeatable, some, given⟩ := suits
      have all : texts.filter (!·.isEmpty) = texts :=
        List.filter_eq_self.mpr fun text member => by simpa using given text member
      have filled : (ParamValue.list texts).isEmpty = false := by
        rw [← Bool.not_eq_true, ← ParamValue.share_eq_nil_iff, ParamValue.share, all]
        exact mt List.map_eq_nil_iff.mp some
      refine .inr (.inr ⟨texts, rfl, repeatable, some, given, ?_⟩)
      rw [share_of_filled value filled, ParamValue.share, all]

variable (suits : p.Suits (params.get? p.name))

include suits

theorem takes_share : Token.Takes spells (.param p) (p.share params) := by
  obtain ⟨-, optional, share⟩ | ⟨text, -, -, -, share⟩ | ⟨texts, -, repeatable, some, -, share⟩ :=
    suits.share_cases
  · rw [share]
    exact ⟨fun required => absurd optional (by simp [required]), fun _ => Nat.zero_le _⟩
  · rw [share]
    exact ⟨fun _ => List.cons_ne_nil _ _, fun _ => Nat.le_refl _⟩
  · rw [share]
    exact ⟨fun _ => mt List.map_eq_nil_iff.mp some,
      fun single => absurd repeatable (by simp [single])⟩

theorem isEncoded_of_mem_share : ∀ s ∈ p.share params, IsEncoded s := by
  intro s member
  obtain ⟨-, -, share⟩ | ⟨text, -, -, given, share⟩ | ⟨texts, -, -, -, given, share⟩ :=
    suits.share_cases
  · rw [share] at member
    exact absurd member List.not_mem_nil
  · rw [share] at member
    rw [List.mem_singleton.mp member]
    exact isEncoded_encodeText (by simpa using given)
  · rw [share] at member
    obtain ⟨text, inTexts, rfl⟩ := List.mem_map.mp member
    exact isEncoded_encodeText (by simpa using given text inTexts)

/-- The value is what is read from its own share. -/
theorem get?_eq_valueOf : params.get? p.name =
    if p.share params = [] then none else some (p.valueOf (p.share params)) := by
  obtain ⟨value, -, share⟩ | ⟨text, value, single, -, share⟩ |
    ⟨texts, value, repeatable, some, -, share⟩ := suits.share_cases
  · rw [value, share, if_pos rfl]
  · rw [value, share, if_neg (List.cons_ne_nil _ _), valueOf, single, List.flatten_singleton,
      decodedSegment_encode]
    rfl
  · have same : (texts.map fun text => Percent.encode text.toList).map decodedSegment = texts := by
      rw [List.map_map]
      exact (List.map_congr_left fun text _ => decodedSegment_encode text).trans (List.map_id _)
    rw [value, share, if_neg (mt List.map_eq_nil_iff.mp some), valueOf, if_pos repeatable, same]

end Param

/-! ### Patterns -/

namespace Pattern

section

variable (suits : ∀ p ∈ Pattern.params tokens, p.Suits (params.get? p.name))

include suits

theorem takes_share (reads : ∀ cs, spells cs cs = true) :
    List.Forall₂ (Token.Takes spells) tokens (tokens.map (Token.share params)) := by
  rw [List.forall₂_map_right_iff, List.forall₂_same]
  intro token member
  cases token with
  | literal text => exact ⟨text.toList, rfl, reads _⟩
  | param p => exact Param.takes_share (suits p (mem_params.mpr member))

theorem isEncoded_of_mem_given :
    ∀ s ∈ given tokens (tokens.map (Token.share params)), IsEncoded s := by
  intro s member
  obtain ⟨p, inParams, inShare⟩ := mem_given_share member
  exact Param.isEncoded_of_mem_share (suits p inParams) s inShare

end

theorem zip_share (tokens : List Token) (params : Params) :
    tokens.zip (tokens.map (Token.share params)) =
      tokens.map fun token => (token, token.share params) := by
  have both := @List.zip_map' _ _ _ id (Token.share params) tokens
  rwa [List.map_id] at both

end Pattern

namespace Matcher

open Recognizer (ending)

variable {pattern path : String} {options : PatternOptions} {m : Matcher}

section

variable (suits : ∀ p ∈ Pattern.params m.tokens, p.Suits (params.get? p.name))

include suits

/-- Suitable params build the path of their own shares. -/
theorem build_of_suits :
    m.build params = .ok (m.pathOf (m.tokens.map (Token.share params)).flatten) := by
  have takes := Pattern.takes_share suits fun _ => beq_self_eq_true _
  have value : ∀ p share,
      (Token.param p, share) ∈ m.tokens.zip (m.tokens.map (Token.share params)) →
      params.get? p.name = if share = [] then none else some (p.valueOf share) := by
    intro p share member
    rw [Pattern.zip_share] at member
    obtain ⟨_, inTokens, same⟩ := List.mem_map.mp member
    obtain ⟨rfl, rfl⟩ := Prod.mk.inj same
    exact Param.get?_eq_valueOf (suits p (Pattern.mem_params.mpr inTokens))
  rw [build, buildSegments_of_get? takes (Pattern.isEncoded_of_mem_given suits) value, Except.map,
    path_written]
  rfl

/-- The values of the shares of params are the params. -/
theorem get?_values_share (distinct : ((Pattern.params m.tokens).map (·.name)).Nodup)
    {name : String} (exact : params.get? name ≠ none → m.declares name = true) :
    (Pattern.values m.tokens (m.tokens.map (Token.share params))).get? name = params.get? name := by
  by_cases known : name ∈ (Pattern.params m.tokens).map (·.name)
  · obtain ⟨p, inParams, rfl⟩ := List.mem_map.mp known
    have paired : (Token.param p, p.share params) ∈
        m.tokens.zip (m.tokens.map (Token.share params)) := by
      rw [Pattern.zip_share]
      exact List.mem_map.mpr ⟨.param p, Pattern.mem_params.mp inParams, rfl⟩
    rw [Pattern.get?_values (Pattern.takes_share suits fun _ => beq_self_eq_true _) distinct paired]
    exact (Param.get?_eq_valueOf (suits p inParams)).symm
  · rw [Pattern.get?_values_of_not_mem known]
    by_contra given
    have declared := exact (Ne.symm given)
    rw [declares, keys, List.any_map, List.any_eq_true] at declared
    obtain ⟨p, inParams, named⟩ := declared
    exact known (List.mem_map.mpr ⟨p, inParams, of_decide_eq_true named⟩)

/-- A list with a single text is written as the text is. -/
theorem build_insert_single {text : String} (value : params.get? p.name = some (.list [text])) :
    m.build (params.insert p.name (.single text)) = m.build params := by
  have alike : ∀ q ∈ Pattern.params m.tokens,
      m.buildParam (params.insert p.name (.single text)) q = m.buildParam params q := by
    intro q member
    rw [buildParam, buildParam]
    by_cases same : p.name = q.name
    · have suitsHere := suits q member
      rw [← same, value] at suitsHere
      obtain ⟨repeatable, -, given⟩ := suitsHere
      have given := given text List.mem_cons_self
      rw [← same, Dict.get?_insert_self, value]
      simp [ParamValue.isEmpty, given, repeatable]
    · rw [Dict.get?_insert_of_ne _ _ same]
  have segments : ∀ tokens, (∀ token ∈ tokens, token ∈ m.tokens) →
      m.buildSegments (params.insert p.name (.single text)) tokens =
        m.buildSegments params tokens := by
    intro tokens
    induction tokens with
    | nil => exact fun _ => rfl
    | cons token tokens ih =>
      intro among
      have others := ih fun t member => among t (List.mem_cons_of_mem _ member)
      have first : m.buildToken (params.insert p.name (.single text)) token =
          m.buildToken params token := by
        cases token with
        | literal text => rfl
        | param q => exact alike q (Pattern.mem_params.mpr (among _ List.mem_cons_self))
      rw [buildSegments, buildSegments, first, others]
  rw [build, build, segments m.tokens fun _ member => member]

end

section

variable (compiled : ofPattern pattern options = .ok m)
  (suits : ∀ p ∈ Pattern.params m.tokens, p.Suits (params.get? p.name))

include compiled suits

theorem isSegment_of_mem_share :
    ∀ s ∈ (m.tokens.map (Token.share params)).flatten, IsSegment s :=
  Pattern.isSegment_of_given (Pattern.takes_share suits fun _ => beq_self_eq_true _)
    (Pattern.isSegment_of_mem_readTokens (Pattern.tokenize_eq_ok (ofPattern_eq_ok compiled).1).1)
    (Pattern.isEncoded_of_mem_given suits)

/-- What follows the segments of the path that is built may follow them when it is read. -/
theorem exists_tail (strictly : options.strict = true →
      ∃ token ∈ m.tokens, ∀ p, token = .param p → p.optional = false) :
    ∃ tail, (m.pathOf (m.tokens.map (Token.share params)).flatten).toList =
        spell (m.tokens.map (Token.share params)).flatten ++ tail ∧
      (ending m.tokens options.strict m.trailingSlash).accepts tail = true ∧
      Boundary tail ∧ nextSegment? tail = none := by
  have slash : Boundary ['/'] ∧ nextSegment? ['/'] = none :=
    ⟨Path.boundary_slash _, rfl⟩
  have text := @toList_pathOf_of_hollow m _ fun alone =>
    absurd alone (ne_hollow (isSegment_of_mem_share compiled suits))
  split at text
  · rename_i nothing
    refine ⟨['/'], by rw [text, nothing]; rfl, accepts_slash (.inl ?_), slash⟩
    by_contra strict
    -- a token that cannot be left out has a segment
    obtain ⟨token, member, required⟩ := strictly (by simpa using strict)
    have none := List.flatten_eq_nil_iff.mp nothing _ (List.mem_map_of_mem member)
    cases token with
    | literal text => exact absurd none (List.cons_ne_nil _ _)
    | param p =>
      have takes := @Param.takes_share (· == ·) _ _ (suits p (Pattern.mem_params.mpr member))
      exact takes.1 (required p rfl) none
  · rename_i nonempty
    have some : m.tokens ≠ [] := fun none => nonempty (by rw [none]; rfl)
    refine ⟨_, text, accepts_trailing compiled some, ?_⟩
    cases m.trailingSlash
    · exact ⟨Path.boundary_nil, rfl⟩
    · exact slash

end

/-- The path that is built of suitable params is read into the same params, under any options.
The texts may hold anything.  A repeatable param whose list has a single text may be given the
text alone, and the path is the same. -/
theorem recognize_build (compiled : ofPattern pattern options = .ok m)
    (free : ∀ p ∈ Pattern.params m.tokens, p.constraint = none)
    (loose : Pattern.LooseAtEnd m.tokens)
    (strictly : options.strict = true →
      ∃ token ∈ m.tokens, ∀ p, token = .param p → p.optional = false)
    (suits : ∀ p ∈ Pattern.params m.tokens, p.Suits (params.get? p.name))
    (exact : ∀ name, params.get? name ≠ none → m.declares name = true) :
    ∃ path others, m.build params = .ok path ∧ m.recognize path = some others ∧
      (∀ name, others.get? name = params.get? name) ∧
      ∀ p ∈ Pattern.params m.tokens, ∀ text, params.get? p.name = some (.list [text]) →
        m.build (params.insert p.name (.single text)) = .ok path := by
  have built := build_of_suits suits
  obtain ⟨tail, isPath, accepted, either⟩ := exists_tail compiled suits strictly
  obtain ⟨tokenized, -, -⟩ := ofPattern_eq_ok compiled
  have segments := isSegment_of_mem_share compiled suits
  -- the shares can be given to the tokens, and in no other way
  have takes := Pattern.takes_share suits (Recognizer.spells_self options.caseInsensitive)
  obtain ⟨best, divided, -⟩ := Pattern.exists_divide takes
  obtain ⟨takesBest, flat⟩ := Pattern.forall₂_of_divide divided
  obtain rfl : m.tokens.map (Token.share params) = best :=
    loose.eq_of_takes takes takesBest flat.symm
  have recognized := recognize_divide compiled free segments either.1 either.2 isPath
  rw [if_pos accepted, divided, Option.map_some] at recognized
  refine ⟨_, _, built, recognized, fun name => ?_, fun p member text value => ?_⟩
  · exact get?_values_share suits (Pattern.names_nodup_of_tokenize tokenized) (exact name)
  · rw [build_insert_single suits value, built]

/-- A strict pattern, and texts with a slash, a percent sign, a backslash and a line break. -/
theorem recognize_build_strict : ∃ m path others,
    ofPattern "/a/:b/:c*/" ⟨false, true⟩ = .ok m ∧
      m.build [("b", .single "x/%\\\n"), ("c", .list ["é"])] = .ok path ∧
      m.recognize path = some others ∧ others.get? "b" = some (.single "x/%\\\n") ∧
      others.get? "c" = some (.list ["é"]) ∧
      m.build [("b", .single "x/%\\\n"), ("c", .single "é")] = .ok path := by
  obtain ⟨m, compiled, isTokens⟩ := @exists_ofPattern_of_accepted "/a/:b/:c*/"
    [.literal "a", .param ⟨"b", none, false, false⟩, .param ⟨"c", none, true, true⟩] ⟨false, true⟩
    (by cbv) (by decide) (show (Regex.ofSource?
      "^/a/((?:[^/]+))(?:/((?:[^/]+)(?:/(?:[^/]+))*))?/$").isSome = true by cbv)
  have isParams : Pattern.params m.tokens =
      [⟨"b", none, false, false⟩, ⟨"c", none, true, true⟩] := by rw [isTokens]; rfl
  obtain ⟨path, others, built, recognized, same, single⟩ :=
    @recognize_build [("b", .single "x/%\\\n"), ("c", .list ["é"])] _ _ _ compiled
      (by rw [isParams]; decide) (by rw [Pattern.LooseAtEnd, isTokens]; decide)
      (fun _ => ⟨.literal "a", by rw [isTokens]; simp, by simp⟩)
      (by rw [isParams]; simp [Param.Suits, Dict.get?])
      (fun name given => by
        rw [declares, keys, isParams]
        by_contra undeclared
        simp [Param.key] at undeclared
        simp [Dict.get?, undeclared] at given)
  exact ⟨m, path, others, compiled, built, recognized, same "b", same "c",
    single ⟨"c", none, true, true⟩ (by rw [isParams]; simp) "é" rfl⟩

end Matcher
end Waymark
