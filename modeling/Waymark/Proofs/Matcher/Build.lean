/-
Building paths.

A path that is built gives every token a share of its segments, as a path that is
recognized does: literal text its own segment, and a param the encoded texts of its
value.  Which share a param gets back when the path is read may differ, but not the
segments that all params get together, since literal text always takes the same ones.
So whatever a param gets was encoded for some param, and is encoded the same way again.

* `buildParam_eq_ok`, `build_eq_ok` — the shares of a path that is built;
* `build_values` — the values that are read from shares of encoded texts build the path of
  the shares again;
* `exists_recognize_of_build` — a path that is built is recognized, and its params build
  the path.
-/
import Waymark.Proofs.Matcher.Recognize
import Waymark.Proofs.Text.Percent

namespace Waymark

open Waymark.Path (IsSegment spell joinSegments)

/-! ### Encoded texts -/

/-- The segment is the encoded form of a text that is not empty. -/
def IsEncoded (s : List Char) : Prop := ∃ t, t ≠ [] ∧ s = Percent.encode t

theorem IsEncoded.isSegment {s : List Char} (h : IsEncoded s) : IsSegment s := by
  obtain ⟨t, given, rfl⟩ := h
  exact ⟨Percent.encode_ne_nil given, Percent.not_mem_encode (by decide) t⟩

/-- An encoded text that is read is a text that is not empty, and it is encoded as before. -/
theorem IsEncoded.decodedSegment {s : List Char} (h : IsEncoded s) :
    (decodedSegment s).isEmpty = false ∧
      Matcher.encodeText (decodedSegment s) = String.ofList s := by
  obtain ⟨t, given, rfl⟩ := h
  rw [Waymark.decodedSegment, Percent.decode?_encode, Option.getD_some, Matcher.encodeText,
    String.toList_ofList]
  refine ⟨?_, rfl⟩
  rw [← Bool.not_eq_true, String.isEmpty_iff, ← String.toList_inj, String.toList_ofList]
  exact given

theorem isEncoded_encodeText {text : String} (h : text.isEmpty = false) :
    IsEncoded (Percent.encode text.toList) := by
  refine ⟨text.toList, fun empty => ?_, rfl⟩
  rw [← Bool.not_eq_true, String.isEmpty_iff] at h
  exact h (String.toList_inj.mp empty)

/-! ### Shares of values -/

/-- The segments that a value is written with: its texts that are not empty, encoded. -/
def ParamValue.share : ParamValue → List (List Char)
  | .single text => if text.isEmpty then [] else [Percent.encode text.toList]
  | .list texts => (texts.filter (!·.isEmpty)).map fun text => Percent.encode text.toList

/-- The segments that a param is written with.  An empty value leaves an empty segment, if the param
may not be missing. -/
def Param.share (p : Param) (params : Params) : List (List Char) :=
  match params.get? p.name with
  | none => []
  | some value => if value.isEmpty && !p.optional then [[]] else value.share

/-- The segments that a token is written with. -/
def Token.share (params : Params) : Token → List (List Char)
  | .literal text => [text.toList]
  | .param p => p.share params

namespace ParamValue

variable {value : ParamValue}

theorem share_eq_nil_iff : value.share = [] ↔ value.isEmpty = true := by
  cases value with
  | single text => simp [share, isEmpty]
  | list texts => simp [share, isEmpty, List.filter_eq_nil_iff]

theorem isEncoded_of_mem_share : ∀ s ∈ value.share, IsEncoded s := by
  intro s member
  cases value with
  | single text =>
    rw [share] at member
    split at member
    · exact absurd member List.not_mem_nil
    · rename_i given
      rw [List.mem_singleton.mp member]
      exact isEncoded_encodeText (by simpa using given)
  | list texts =>
    obtain ⟨text, kept, rfl⟩ := List.mem_map.mp member
    exact isEncoded_encodeText (by simpa using (List.mem_filter.mp kept).2)

end ParamValue

theorem Param.share_of_filled {p : Param} {params : Params} {value : ParamValue}
    (isValue : params.get? p.name = some value) (filled : value.isEmpty = false) :
    p.share params = value.share := by
  simp only [share, isValue, filled, Bool.false_and, Bool.false_eq_true, if_false]

/-! ### The text of shares -/

/-- The canonical path with given segments. -/
def Path.ofSegments (parts : List (List Char)) : String := String.ofList ('/' :: joinSegments parts)

theorem Path.toList_ofSegments {parts : List (List Char)} (h : parts ≠ []) :
    (Path.ofSegments parts).toList = spell parts := by
  obtain ⟨s, rest, rfl⟩ := List.exists_cons_of_ne_nil h
  rw [Path.ofSegments, String.toList_ofList, Path.spell_eq_cons]

/-- The texts of the shares that are not empty. -/
def written (shares : List (List (List Char))) : List String :=
  shares.filterMap fun share =>
    if share = [] then none else some (String.ofList (joinSegments share))

theorem written_cons (share : List (List Char)) (shares : List (List (List Char))) :
    written (share :: shares) =
      (if share = [] then [] else [String.ofList (joinSegments share)]) ++ written shares := by
  rw [written, List.filterMap_cons]
  split <;> rename_i h <;> split at h <;> simp_all [written]

theorem joinSegments_append {parts others : List (List Char)} (h : parts ≠ []) (h' : others ≠ []) :
    joinSegments (parts ++ others) = joinSegments parts ++ '/' :: joinSegments others := by
  obtain ⟨s, rest, rfl⟩ := List.exists_cons_of_ne_nil h
  obtain ⟨t, rest', rfl⟩ := List.exists_cons_of_ne_nil h'
  rw [List.cons_append, Path.joinSegments_cons, Path.joinSegments_cons, Path.spell_append,
    ← Path.spell_eq_cons, List.append_assoc]

theorem written_eq_nil {shares : List (List (List Char))} :
    written shares = [] ↔ shares.flatten = [] := by
  rw [written, List.filterMap_eq_nil_iff, List.flatten_eq_nil_iff]
  refine forall_congr' fun share => imp_congr_right fun _ => ?_
  split <;> simp_all

/-- The path that is put together from the texts of shares has their segments. -/
theorem path_written (shares : List (List (List Char))) :
    "/" ++ "/".intercalate (written shares) = Path.ofSegments shares.flatten := by
  have joined : "/".intercalate (written shares) = String.ofList (joinSegments shares.flatten) := by
    induction shares with
    | nil => rfl
    | cons share shares ih =>
      rw [written_cons, List.flatten_cons]
      by_cases absent : share = []
      · rw [if_pos absent, absent, List.nil_append, List.nil_append, ih]
      · rw [if_neg absent, List.singleton_append]
        by_cases last : shares.flatten = []
        · rw [written_eq_nil.mpr last, last, List.append_nil, String.intercalate_singleton]
        · rw [String.intercalate_cons_of_ne_nil (mt written_eq_nil.mp last), ih,
            joinSegments_append absent last, String.ofList_append, String.append_assoc,
            Path.slash_append]
  rw [joined, Path.ofSegments, Path.slash_append]

/-! ### The segments of params -/

namespace Pattern

variable {tokens : List Token} {shares : List (List (List Char))}

/-- The literal texts of a pattern. -/
def literals (tokens : List Token) : List (List Char) :=
  tokens.filterMap fun
    | .literal text => some text.toList
    | .param _ => none

/-- The segments that all params get together. -/
def given : List Token → List (List (List Char)) → List (List Char)
  | .literal _ :: tokens, _ :: shares => given tokens shares
  | .param _ :: tokens, share :: shares => share ++ given tokens shares
  | _, _ => []

/-- Literal text takes its own segments, and the params take the others. -/
theorem perm_of_takes (takes : List.Forall₂ (Token.Takes (· == ·)) tokens shares) :
    shares.flatten.Perm (literals tokens ++ given tokens shares) := by
  induction takes with
  | nil => exact .refl _
  | @cons token share tokens shares first _ ih =>
    cases token with
    | literal text =>
      obtain ⟨s, rfl, same⟩ := first
      rw [← eq_of_beq same]
      exact ih.cons _
    | param p =>
      rw [List.flatten_cons]
      exact (ih.append_left share).trans (List.perm_append_comm_assoc _ _ _)

/-- Two divisions of the same segments give the params the same ones. -/
theorem given_perm {others : List (List (List Char))}
    (takes : List.Forall₂ (Token.Takes (· == ·)) tokens shares)
    (takes' : List.Forall₂ (Token.Takes (· == ·)) tokens others)
    (same : shares.flatten = others.flatten) :
    (given tokens shares).Perm (given tokens others) := by
  have whole := (perm_of_takes takes).symm.trans (same ▸ perm_of_takes takes')
  exact (List.perm_append_left_iff _).mp whole

/-- Every segment is literal text or was given to a param. -/
theorem literal_or_given (takes : List.Forall₂ (Token.Takes (· == ·)) tokens shares)
    {s : List Char} (member : s ∈ shares.flatten) :
    (∃ text, Token.literal text ∈ tokens ∧ s = text.toList) ∨ s ∈ given tokens shares := by
  rcases List.mem_append.mp ((perm_of_takes takes).mem_iff.mp member) with isLiteral | isGiven
  · obtain ⟨token, inTokens, isText⟩ := List.mem_filterMap.mp isLiteral
    cases token with
    | literal text => exact Or.inl ⟨text, inTokens, (Option.some.inj isText).symm⟩
    | param p => exact absurd isText (by simp)
  · exact Or.inr isGiven

/-- What params get of their own shares. -/
theorem mem_given_share {params : Params} {s : List Char}
    (member : s ∈ given tokens (tokens.map (Token.share params))) :
    ∃ p ∈ Pattern.params tokens, s ∈ p.share params := by
  induction tokens with
  | nil => exact absurd member List.not_mem_nil
  | cons token tokens ih =>
    cases token with
    | literal text => exact ih member
    | param p =>
      rcases List.mem_append.mp member with own | others
      · exact ⟨p, List.mem_cons_self, own⟩
      · obtain ⟨q, inParams, inShare⟩ := ih others
        exact ⟨q, List.mem_cons_of_mem _ inParams, inShare⟩

theorem isSegment_of_given (takes : List.Forall₂ (Token.Takes (· == ·)) tokens shares)
    (literal : ∀ text, Token.literal text ∈ tokens → IsSegment text.toList)
    (encoded : ∀ s ∈ given tokens shares, IsEncoded s) : ∀ s ∈ shares.flatten, IsSegment s := by
  intro s member
  rcases literal_or_given takes member with ⟨text, inTokens, rfl⟩ | isGiven
  · exact literal text inTokens
  · exact (encoded s isGiven).isSegment

end Pattern

/-! ### Building -/

/-- The param has no value, or an empty one. -/
def Param.Unfilled (params : Params) (p : Param) : Prop :=
  ∀ value, params.get? p.name = some value → value.isEmpty = true

namespace Matcher

variable {pattern path : String} {m : Matcher} {params : Params} {tokens : List Token} {p : Param}

/-- Without a value that is not empty, a param drops out, or it may be empty and writes nothing. -/
theorem buildParam_of_unfilled {segment : Option String} (unfilled : p.Unfilled params)
    (h : m.buildParam params p = .ok segment) :
    (p.optional = true ∧ p.share params = [] ∧ segment = none) ∨
      (p.optional = false ∧ p.name ∈ m.emptyCapable ∧ p.share params = [[]] ∧
        segment = some "") := by
  rw [buildParam] at h
  rw [Param.share]
  cases isValue : params.get? p.name with
  | none =>
    rw [isValue] at h
    simp only at h
    split at h
    · exact Or.inl ⟨‹_›, rfl, (Except.ok.inj h).symm⟩
    · exact absurd h (by simp)
  | some value =>
    have empty := unfilled value isValue
    simp only [isValue, empty, if_true] at h
    simp only [empty, Bool.true_and]
    split at h
    · rename_i optional
      refine Or.inl ⟨optional, ?_, (Except.ok.inj h).symm⟩
      rw [if_neg (by simp [optional])]
      exact ParamValue.share_eq_nil_iff.mpr empty
    · rename_i required
      split at h
      · rename_i capable
        exact Or.inr ⟨by simpa using required, List.contains_iff_mem.mp capable,
          if_pos (by simpa using required), (Except.ok.inj h).symm⟩
      · exact absurd h (by simp)

/-- A value that is not empty is written as the text of a share of encoded texts. -/
theorem buildParam_of_filled {segment : Option String} {value : ParamValue}
    (isValue : params.get? p.name = some value) (filled : value.isEmpty = false)
    (h : m.buildParam params p = .ok segment) :
    p.share params ≠ [] ∧ (∀ s ∈ p.share params, IsEncoded s) ∧
      (p.repeatable = false → (p.share params).length ≤ 1) ∧
      segment = some (String.ofList (joinSegments (p.share params))) := by
  simp only [buildParam, isValue, filled, Bool.false_eq_true, if_false] at h
  rw [Param.share_of_filled isValue filled]
  refine ⟨mt ParamValue.share_eq_nil_iff.mp (by simp [filled]),
    ParamValue.isEncoded_of_mem_share, ?_⟩
  cases value with
  | single text =>
    have given : text.isEmpty = false := filled
    rw [ParamValue.share, if_neg (by simp [given])]
    exact ⟨fun _ => Nat.le_refl _, (Except.ok.inj h).symm⟩
  | list texts =>
    simp only at h
    split at h
    · rename_i repeatable
      refine ⟨fun single => absurd single (by simp [repeatable]), ?_⟩
      rw [ParamValue.share, ← Path.intercalate_ofList, List.map_map]
      exact (Except.ok.inj h).symm
    · exact absurd h (by simp)

/-- What a param writes is the text of its share, and the texts of the share are encoded; but a
required param that may be empty can have an empty one. -/
theorem buildParam_eq_ok {segment : Option String} (h : m.buildParam params p = .ok segment) :
    Token.Takes (· == ·) (.param p) (p.share params) ∧
      (∀ s ∈ p.share params,
        IsEncoded s ∨ s = [] ∧ p.optional = false ∧ p.name ∈ m.emptyCapable) ∧
      segment = if p.share params = [] then none
        else some (String.ofList (joinSegments (p.share params))) := by
  by_cases unfilled : p.Unfilled params
  · rcases buildParam_of_unfilled unfilled h with
      ⟨optional, nothing, rfl⟩ | ⟨required, capable, hollow, rfl⟩
    · rw [nothing]
      exact ⟨⟨fun required => absurd required (by simp [optional]), fun _ => Nat.zero_le _⟩,
        by simp, rfl⟩
    · rw [hollow]
      refine ⟨⟨fun _ => List.cons_ne_nil _ _, fun _ => Nat.le_refl _⟩, fun s member => ?_, rfl⟩
      exact Or.inr ⟨List.mem_singleton.mp member, required, capable⟩
  · simp only [Param.Unfilled, not_forall, Bool.not_eq_true] at unfilled
    obtain ⟨value, isValue, filled⟩ := unfilled
    obtain ⟨nonempty, encoded, single, isText⟩ := buildParam_of_filled isValue filled h
    exact ⟨⟨fun _ => nonempty, single⟩, fun s member => Or.inl (encoded s member),
      by rw [if_neg nonempty, isText]⟩

/-- What a token writes is the text of its share. -/
theorem buildToken_eq_ok {token : Token} {segment : Option String}
    (h : m.buildToken params token = .ok segment) :
    Token.Takes (· == ·) token (token.share params) ∧
      segment = if token.share params = [] then none
        else some (String.ofList (joinSegments (token.share params))) := by
  cases token with
  | literal text =>
    refine ⟨⟨text.toList, rfl, beq_self_eq_true _⟩, ?_⟩
    rw [Token.share, if_neg (List.cons_ne_nil _ _), joinSegments, String.ofList_toList]
    exact (Except.ok.inj h).symm
  | param p =>
    obtain ⟨takes, -, isText⟩ := buildParam_eq_ok h
    exact ⟨takes, isText⟩

/-- What is written are the segments of the tokens one by one. -/
theorem buildSegments_eq_ok {segments : List String}
    (h : m.buildSegments params tokens = .ok segments) :
    (∀ token ∈ tokens, ∃ segment, m.buildToken params token = .ok segment) ∧
      segments = tokens.filterMap fun token => (m.buildToken params token).toOption.join := by
  induction tokens generalizing segments with
  | nil => exact ⟨fun _ member => absurd member List.not_mem_nil, (Except.ok.inj h).symm⟩
  | cons token tokens ih =>
    rw [buildSegments] at h
    cases isToken : m.buildToken params token with
    | error error =>
      rw [isToken] at h
      exact absurd h (by simp)
    | ok segment =>
      have all : ∀ {others}, m.buildSegments params tokens = .ok others →
          ∀ t ∈ token :: tokens, ∃ segment, m.buildToken params t = .ok segment := by
        intro others rest t member
        rcases List.mem_cons.mp member with rfl | later
        · exact ⟨segment, isToken⟩
        · exact (ih rest).1 t later
      rw [isToken] at h
      cases segment with
      | none =>
        refine ⟨all h, ?_⟩
        rw [List.filterMap_cons_none (by rw [isToken]; rfl)]
        exact (ih h).2
      | some segment =>
        obtain ⟨others, rest, rfl⟩ := Pattern.exists_of_map_eq_ok h
        refine ⟨all rest, ?_⟩
        rw [List.filterMap_cons_some (by rw [isToken]; rfl), ← (ih rest).2]

/-- What tokens write are the texts of their shares. -/
theorem buildSegments_eq_written {segments : List String}
    (h : m.buildSegments params tokens = .ok segments) :
    List.Forall₂ (Token.Takes (· == ·)) tokens (tokens.map (Token.share params)) ∧
      segments = written (tokens.map (Token.share params)) := by
  obtain ⟨each, rfl⟩ := buildSegments_eq_ok h
  constructor
  · rw [List.forall₂_map_right_iff, List.forall₂_same]
    intro token member
    obtain ⟨segment, isToken⟩ := each token member
    exact (buildToken_eq_ok isToken).1
  · rw [written, List.filterMap_map]
    refine List.filterMap_congr fun token member => ?_
    obtain ⟨segment, isToken⟩ := each token member
    rw [isToken, (buildToken_eq_ok isToken).2]
    rfl

/-- A value that is read from a share of encoded texts writes the text of the share. -/
theorem buildParam_of_get? {share : List (List Char)}
    (takes : Token.Takes (· == ·) (.param p) share) (encoded : ∀ s ∈ share, IsEncoded s)
    (value : params.get? p.name = if share = [] then none else some (p.valueOf share)) :
    m.buildParam params p =
      .ok (if share = [] then none else some (String.ofList (joinSegments share))) := by
  obtain ⟨required, single⟩ := takes
  rw [buildParam, value]
  by_cases absent : share = []
  · rw [if_pos absent, if_pos absent]
    have optional : p.optional = true := by
      by_contra isRequired
      exact required (by simpa using isRequired) absent
    simp only [optional, if_true]
  · rw [if_neg absent, if_neg absent]
    obtain ⟨s, rest, isShare⟩ := List.exists_cons_of_ne_nil absent
    have first := (encoded s (isShare ▸ List.mem_cons_self)).decodedSegment
    rw [Param.valueOf]
    cases repeatable : p.repeatable with
    | true =>
      have present : ∀ t ∈ share.map decodedSegment, (!t.isEmpty) = true := by
        intro t member
        obtain ⟨s, inShare, rfl⟩ := List.mem_map.mp member
        rw [(encoded s inShare).decodedSegment.1]
        rfl
      have notEmpty : (ParamValue.list (share.map decodedSegment)).isEmpty = false := by
        rw [ParamValue.isEmpty, isShare, List.map_cons, List.all_cons, first.1, Bool.false_and]
      have same : (share.map decodedSegment).map encodeText = share.map String.ofList := by
        rw [List.map_map]
        exact List.map_congr_left fun s inShare => (encoded s inShare).decodedSegment.2
      simp only [if_true, notEmpty, Bool.false_eq_true, if_false, List.filter_eq_self.mpr present,
        same, Path.intercalate_ofList]
    | false =>
      have only : rest = [] := by
        have := single repeatable
        rw [isShare, List.length_cons] at this
        exact List.eq_nil_of_length_eq_zero (by omega)
      have notEmpty : (ParamValue.single (decodedSegment s)).isEmpty = false := first.1
      simp only [isShare, only, List.flatten_singleton, Bool.false_eq_true, if_false, notEmpty,
        first.2, joinSegments]

/-- If params have the values of shares of encoded texts, the tokens write the shares. -/
theorem buildSegments_of_get? {shares : List (List (List Char))}
    (takes : List.Forall₂ (Token.Takes (· == ·)) tokens shares)
    (encoded : ∀ s ∈ Pattern.given tokens shares, IsEncoded s)
    (value : ∀ p share, (Token.param p, share) ∈ tokens.zip shares →
      params.get? p.name = if share = [] then none else some (p.valueOf share)) :
    m.buildSegments params tokens = .ok (written shares) := by
  induction takes with
  | nil => rfl
  | @cons token share tokens shares first _ ih =>
    have others := fun q share member => value q share (List.mem_cons_of_mem _ member)
    rw [buildSegments, written_cons]
    cases token with
    | literal text =>
      obtain ⟨s, rfl, same⟩ := first
      rw [buildToken, ih encoded others, if_neg (by simp), joinSegments, ← eq_of_beq same,
        String.ofList_toList]
      rfl
    | param p =>
      have wrote := @buildParam_of_get? m _ _ _ first
        (fun s member => encoded s (List.mem_append_left _ member))
        (value p share List.mem_cons_self)
      rw [buildToken, wrote, ih (fun s member => encoded s (List.mem_append_right _ member)) others]
      by_cases absent : share = []
      · rw [if_pos absent, if_pos absent]
        rfl
      · rw [if_neg absent, if_neg absent]
        rfl

end Matcher

/-! ### Values by name -/

namespace Pattern

variable {tokens : List Token} {shares : List (List (List Char))}

theorem get?_values_of_not_mem {name : String}
    (unknown : name ∉ (params tokens).map (·.name)) : (values tokens shares).get? name = none := by
  fun_induction values tokens shares with
  | case1 text tokens share shares ih => exact ih unknown
  | case2 p tokens shares ih =>
    exact ih fun member => unknown (List.mem_cons_of_mem _ member)
  | case3 p tokens share shares absent ih =>
    rw [Dict.get?, if_neg fun same => unknown (by rw [← same]; exact List.mem_cons_self)]
    exact ih fun member => unknown (List.mem_cons_of_mem _ member)
  | case4 => rfl

/-- Each param has the value of its share. -/
theorem get?_values (takes : List.Forall₂ (Token.Takes (· == ·)) tokens shares)
    (distinct : ((params tokens).map (·.name)).Nodup) {p : Param} {share : List (List Char)}
    (member : (Token.param p, share) ∈ tokens.zip shares) :
    (values tokens shares).get? p.name = if share = [] then none else some (p.valueOf share) := by
  induction takes with
  | nil => exact absurd member (by simp)
  | @cons token own tokens shares _ _ ih =>
    rw [List.zip_cons_cons, List.mem_cons] at member
    cases token with
    | literal text =>
      rcases member with isFirst | member
      · exact absurd isFirst (by simp)
      · exact ih distinct member
    | param q =>
      obtain ⟨unique, distinct⟩ := List.nodup_cons.mp distinct
      rw [values]
      rcases member with isFirst | member
      · simp only [Prod.mk.injEq, Token.param.injEq] at isFirst
        obtain ⟨rfl, rfl⟩ := isFirst
        split
        · exact get?_values_of_not_mem unique
        · rw [Dict.get?, if_pos rfl]
      · have differ : q.name ≠ p.name := by
          intro same
          have inParams : p ∈ params tokens :=
            List.mem_filterMap.mpr ⟨_, (List.of_mem_zip member).1, rfl⟩
          exact unique (List.mem_map.mpr ⟨p, inParams, same.symm⟩)
        split
        · exact ih distinct member
        · rw [Dict.get?, if_neg differ]
          exact ih distinct member

end Pattern

namespace Matcher

variable {pattern path : String} {m : Matcher} {params : Params}

theorem probeAll_of_ofPattern {options : PatternOptions} (h : ofPattern pattern options = .ok m) :
    probeAll (Pattern.params m.tokens) = .ok m.emptyCapable := by
  rw [ofPattern] at h
  split at h
  · exact absurd h (by simp)
  · obtain ⟨rfl, -, probed, -⟩ := ofTokens_eq_ok.mp h
    exact probed

/-- All params have been tested, and the names are those of the params that may be empty. -/
theorem forall_probe_of_probeAll {params : List Param} {names : List String}
    (h : probeAll params = .ok names) :
    (∀ p ∈ params, ∃ capable, probe p = .ok capable) ∧
      ∀ name, name ∈ names ↔ ∃ p ∈ params, p.name = name ∧ probe p = .ok true := by
  induction params generalizing names with
  | nil =>
    obtain rfl := Except.ok.inj h
    simp
  | cons p rest ih =>
    rw [probeAll] at h
    split at h
    · exact absurd h (by simp)
    · rename_i capable probed
      obtain ⟨others, probedRest, rfl⟩ := Pattern.exists_of_map_eq_ok h
      obtain ⟨tested, noted⟩ := ih probedRest
      refine ⟨List.forall_mem_cons.mpr ⟨⟨capable, probed⟩, tested⟩, fun name => ?_⟩
      rw [List.exists_mem_cons_iff, ← noted, probed]
      cases capable <;> simp [eq_comm]

/-- Only params with a constraint may be empty. -/
theorem constraint_ne_none_of_probe {p : Param} (probed : probe p = .ok true) :
    p.constraint ≠ none := by
  intro none
  rw [probe, none] at probed
  exact absurd (Except.ok.inj probed) (by simp)

/-- The test of a constraint reads it as an expression without groups, and asks whether this
matches the empty text. -/
theorem exists_of_probe {p : Param} {constraint : String} {capable : Bool}
    (isConstraint : p.constraint = some constraint) (probed : probe p = .ok capable) :
    ∃ r, Regex.ofSource? (Recognizer.probe constraint) = some r ∧ capable = r.isMatch "" := by
  rw [probe, isConstraint] at probed
  simp only at probed
  split at probed
  · exact absurd probed (by simp)
  · rename_i r isRegex
    split at probed
    · exact absurd probed (by simp)
    · exact ⟨r, isRegex, (Except.ok.inj probed).symm⟩

/-- Without constraints of its own, a pattern has no required params that may be empty. -/
theorem optional_of_mem_emptyCapable {options : PatternOptions}
    (h : ofPattern pattern options = .ok m)
    (plain : ∀ p ∈ Pattern.params m.tokens, p.constraint = none ∨ p = Param.catchAll) :
    ∀ p ∈ Pattern.params m.tokens, p.name ∈ m.emptyCapable → p.optional = true := by
  intro p member capable
  obtain ⟨q, memberQ, same, probed⟩ :=
    ((forall_probe_of_probeAll (probeAll_of_ofPattern h)).2 p.name).mp capable
  have distinct := Pattern.names_nodup_of_tokenize (ofPattern_eq_ok h).1
  obtain rfl := List.inj_on_of_nodup_map distinct memberQ member same
  rw [(plain q member).resolve_left (constraint_ne_none_of_probe probed)]
  rfl

/-- The path that is put together of segments. -/
def pathOf (m : Matcher) (parts : List (List Char)) : String :=
  if m.trailingSlash && Path.ofSegments parts ≠ "/" then Path.ofSegments parts ++ "/"
  else Path.ofSegments parts

/-- A path that is built is put together of the shares of the tokens. -/
theorem build_eq_ok (built : m.build params = .ok path) :
    List.Forall₂ (Token.Takes (· == ·)) m.tokens (m.tokens.map (Token.share params)) ∧
      path = m.pathOf (m.tokens.map (Token.share params)).flatten := by
  obtain ⟨segments, wrote, rfl⟩ := Pattern.exists_of_map_eq_ok built
  obtain ⟨takes, rfl⟩ := buildSegments_eq_written wrote
  exact ⟨takes, by rw [path_written]; rfl⟩

theorem buildParam_of_build (built : m.build params = .ok path) {p : Param}
    (member : p ∈ Pattern.params m.tokens) : ∃ segment, m.buildParam params p = .ok segment := by
  obtain ⟨segments, wrote, -⟩ := Pattern.exists_of_map_eq_ok built
  exact (buildSegments_eq_ok wrote).1 _ (Pattern.mem_params.mp member)

section

variable {options : PatternOptions} (compiled : ofPattern pattern options = .ok m)
  (plain : ∀ p ∈ Pattern.params m.tokens, p.constraint = none ∨ p = Param.catchAll)
  (built : m.build params = .ok path)

include compiled plain built

/-- Without constraints of its own, a pattern is written with encoded texts. -/
theorem isEncoded_of_build : ∀ p ∈ Pattern.params m.tokens, ∀ s ∈ p.share params, IsEncoded s := by
  intro p member s inShare
  obtain ⟨segment, isParam⟩ := buildParam_of_build built member
  rcases (buildParam_eq_ok isParam).2.1 s inShare with encoded | ⟨-, required, capable⟩
  · exact encoded
  · have optional := optional_of_mem_emptyCapable compiled plain p member capable
    exact absurd optional (by simp [required])

theorem isEncoded_given_of_build :
    ∀ s ∈ Pattern.given m.tokens (m.tokens.map (Token.share params)), IsEncoded s := by
  intro s member
  obtain ⟨p, inParams, inShare⟩ := Pattern.mem_given_share member
  exact isEncoded_of_build compiled plain built p inParams s inShare

end

/-- Values that are read from shares of encoded texts build the path of the shares. -/
theorem build_values {shares : List (List (List Char))} (noSlash : m.trailingSlash = false)
    (distinct : ((Pattern.params m.tokens).map (·.name)).Nodup)
    (takes : List.Forall₂ (Token.Takes (· == ·)) m.tokens shares)
    (encoded : ∀ s ∈ Pattern.given m.tokens shares, IsEncoded s) :
    m.build (Pattern.values m.tokens shares) = .ok (Path.ofSegments shares.flatten) := by
  rw [build, buildSegments_of_get? takes encoded fun p share => Pattern.get?_values takes distinct]
  simp only [Except.map, noSlash, Bool.false_and, Bool.false_eq_true, if_false, path_written]

/-- Without strictness, a path that is built is divided into the shares that it was built of. -/
theorem divides_ofSegments (compiled : ofPattern pattern ⟨false, false⟩ = .ok m)
    {shares : List (List (List Char))}
    (takes : List.Forall₂ (Token.Takes (· == ·)) m.tokens shares)
    (encoded : ∀ s ∈ Pattern.given m.tokens shares, IsEncoded s) :
    Pattern.Divides pattern false m.tokens (Path.ofSegments shares.flatten) shares where
  takes := takes
  segments := fun _ inShares s inShare => Pattern.isSegment_of_given takes
    (Pattern.isSegment_of_mem_readTokens (Pattern.tokenize_eq_ok (ofPattern_eq_ok compiled).1).1)
    encoded s (List.mem_flatten_of_mem inShares inShare)
  spelled := by
    by_cases empty : shares.flatten = []
    · refine ⟨['/'], ?_, ?_⟩
      · rw [Pattern.endings]
        split <;> simp
      · rw [empty, Path.ofSegments, String.toList_ofList]
        rfl
    · refine ⟨[], ?_, by rw [Path.toList_ofSegments empty, List.append_nil]⟩
      have some : m.tokens ≠ [] := by
        intro none
        rw [none, List.forall₂_nil_left_iff] at takes
        exact empty (by rw [takes, List.flatten_nil])
      rw [Pattern.endings, if_neg some]
      simp

/-- A path that was built is recognized, and the params that are read build the path again.  They
need not be the params that it was built of. -/
theorem exists_recognize_of_build (compiled : ofPattern pattern ⟨false, false⟩ = .ok m)
    (free : ∀ p ∈ Pattern.params m.tokens, p.constraint = none)
    (built : m.build params = .ok path) :
    ∃ others, m.recognize path = some others ∧ m.build others = .ok path := by
  obtain ⟨tokenized, trailing, -⟩ := ofPattern_eq_ok compiled
  have noSlash : m.trailingSlash = false := trailing
  obtain ⟨takes, isPath⟩ := build_eq_ok built
  have encoded := isEncoded_given_of_build compiled (fun p member => Or.inl (free p member)) built
  rw [pathOf, noSlash, Bool.false_and, if_neg (by simp)] at isPath
  subst isPath
  have divides := divides_ofSegments compiled takes encoded
  obtain ⟨others, recognized⟩ :=
    Option.isSome_iff_exists.mp (isSome_of_divides compiled free divides)
  obtain ⟨shares', divides', rfl, -⟩ := exists_of_recognize compiled free recognized
  -- what the params get now, they got together when the path was built
  have same := flatten_eq_of_divides divides divides'
  have again := Pattern.given_perm divides.takes divides'.takes same
  refine ⟨_, recognized, ?_⟩
  rw [build_values noSlash (Pattern.names_nodup_of_tokenize tokenized) divides'.takes
    fun s member => encoded s (again.mem_iff.mpr member), same]

theorem recognize_built_optional : ∃ m others, ofPattern "/:a?/x/:b?" ⟨false, false⟩ = .ok m ∧
    (∀ p ∈ Pattern.params m.tokens, p.constraint = none) ∧
    m.build [("b", .single "x")] = .ok "/x/x" ∧
    m.recognize "/x/x" = some others ∧ m.build others = .ok "/x/x" := by
  obtain ⟨m, compiled, isTokens⟩ := @exists_ofPattern "/:a?/x/:b?"
    [.param ⟨"a", none, true, false⟩, .literal "x", .param ⟨"b", none, true, false⟩]
    (by cbv) (by decide) (show (Regex.ofSource?
      "^(?:/((?:[^/]+)))?/x(?:/((?:[^/]+)))?/?$").isSome = true by cbv)
  have free : ∀ p ∈ Pattern.params m.tokens, p.constraint = none := by
    rw [isTokens]
    decide
  have built : m.build [("b", .single "x")] = .ok "/x/x" := by
    have noSlash : m.trailingSlash = false := (ofPattern_eq_ok compiled).2.1
    rw [build, isTokens, noSlash]
    rfl
  obtain ⟨others, recognized, again⟩ := exists_recognize_of_build compiled free built
  exact ⟨m, others, compiled, free, built, recognized, again⟩

end Matcher
end Waymark
