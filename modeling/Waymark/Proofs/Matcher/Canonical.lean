/-
When a built path is canonical.

A path is built of literal texts and of encoded values, and none of these begins or ends
with a slash.  A required param whose constraint lets the empty text through writes the
empty text, though, and then the slash in front of it stands next to whatever slash comes
after: that of a later segment, or the one that a strict pattern puts at the end.  Only
where nothing else is written does that last slash stay away.

* `hasDoubleSlash_spell_iff` — texts with a slash in front of each;
* `buildToken_cases` — what a single token writes;
* `hasDoubleSlash_build` — the texts of all tokens together;
* `isCanonical_build_iff` — which params build a path in canonical form.
-/
import Waymark.Proofs.Matcher.Build
import Waymark.Proofs.Matcher.Generation

namespace Waymark

namespace Path

variable {s : List Char} {texts : List (List Char)}

/-- Segments without backslashes, with a slash between each two. -/
def Solid (s : List Char) : Prop :=
  ∃ parts, parts ≠ [] ∧ (∀ t ∈ parts, IsSegment t ∧ '\\' ∉ t) ∧ s = joinSegments parts

theorem Solid.exists_spell (h : Solid s) :
    ∃ parts, (∀ t ∈ parts, IsSegment t ∧ '\\' ∉ t) ∧ '/' :: s = spell parts := by
  obtain ⟨parts, nonempty, all, rfl⟩ := h
  obtain ⟨t, rest, rfl⟩ := List.exists_cons_of_ne_nil nonempty
  exact ⟨t :: rest, all, (spell_eq_cons t rest).symm⟩

theorem Solid.ne_nil (h : Solid s) : s ≠ [] := by
  obtain ⟨parts, nonempty, all, rfl⟩ := h
  obtain ⟨t, rest, rfl⟩ := List.exists_cons_of_ne_nil nonempty
  rw [joinSegments_cons]
  simp [(all t List.mem_cons_self).1.1]

/-- Of texts with a slash in front of each, two slashes come together where something follows an
empty one. -/
theorem hasDoubleSlash_spell_iff (all : ∀ s ∈ texts, s = [] ∨ Solid s) :
    hasDoubleSlash (spell texts) = false ↔ texts.Pairwise fun s _ => s ≠ [] := by
  induction texts with
  | nil => exact iff_of_true rfl .nil
  | cons s rest ih =>
    have others := ih fun t member => all t (List.mem_cons_of_mem _ member)
    rw [List.pairwise_cons, ← others]
    rcases all s List.mem_cons_self with rfl | solid
    · cases rest with
      | nil => exact iff_of_true rfl ⟨fun _ member => absurd member List.not_mem_nil, rfl⟩
      | cons t rest =>
        refine iff_of_false (fun single => ?_) fun apart => apart.1 t List.mem_cons_self rfl
        exact absurd single (by simp [hasDoubleSlash])
    · obtain ⟨parts, segments, spelled⟩ := solid.exists_spell
      rw [spell_cons, ← List.cons_append, spelled,
        hasDoubleSlash_spell fun t member => (segments t member).1]
      exact (and_iff_right fun _ _ => solid.ne_nil).symm

theorem not_mem_spell_of_solid (all : ∀ s ∈ texts, s = [] ∨ Solid s) : '\\' ∉ spell texts := by
  intro member
  obtain ⟨s, inTexts, inText⟩ := mem_of_mem_spell (by decide) member
  rcases all s inTexts with rfl | solid
  · exact absurd inText List.not_mem_nil
  · obtain ⟨parts, segments, spelled⟩ := solid.exists_spell
    obtain ⟨t, inParts, inside⟩ :=
      mem_of_mem_spell (by decide) (spelled ▸ List.mem_cons_of_mem _ inText)
    exact (segments t inParts).2 inside

theorem normalize_eq_self_iff {path : String} :
    normalize path = path ↔ isCanonical path = true := by
  refine ⟨fun same => ?_, normalize_of_isCanonical⟩
  have canonical := isCanonical_normalize path
  rwa [same] at canonical

end Path

namespace Token

/-- The token writes nothing: its param may be missing, and has no value or an empty one. -/
def LeftOut (params : Params) : Token → Prop
  | literal _ => False
  | param p => p.optional = true ∧ p.Unfilled params

/-- The token writes an empty text: its param has no value or an empty one, but may not be
missing. -/
def Hollow (params : Params) : Token → Prop
  | literal _ => False
  | param p => p.optional = false ∧ p.Unfilled params

end Token

namespace Matcher

open Waymark.Path (IsSegment Solid spell hasDoubleSlash)

variable {pattern path : String} {options : PatternOptions} {m : Matcher} {params : Params}
  {token : Token} {tokens : List Token}

/-! ### Tokens -/

/-- What a token writes, if it writes something. -/
def text? (m : Matcher) (params : Params) (token : Token) : Option (List Char) :=
  (m.buildToken params token).toOption.join.map String.toList

/-- A token is left out, or hollow, or it writes segments. -/
theorem buildToken_cases {segment : Option String}
    (literal : ∀ text, token = .literal text → IsSegment text.toList ∧ '\\' ∉ text.toList)
    (h : m.buildToken params token = .ok segment) :
    (token.LeftOut params ∧ ¬ token.Hollow params ∧ m.text? params token = none) ∨
      (token.Hollow params ∧ ¬ token.LeftOut params ∧ m.text? params token = some []) ∨
      (¬ token.LeftOut params ∧ ¬ token.Hollow params ∧
        ∃ s, Solid s ∧ m.text? params token = some s) := by
  rw [text?, h]
  cases token with
  | literal text =>
    obtain rfl := Except.ok.inj h
    refine Or.inr (Or.inr ⟨id, id, text.toList, ⟨[text.toList], by simp, ?_, rfl⟩, rfl⟩)
    intro t member
    rw [List.mem_singleton.mp member]
    exact literal text rfl
  | param p =>
    by_cases unfilled : p.Unfilled params
    · rcases buildParam_of_unfilled unfilled h with ⟨optional, -, rfl⟩ | ⟨required, -, -, rfl⟩
      · exact Or.inl ⟨⟨optional, unfilled⟩, by simp [Token.Hollow, optional], rfl⟩
      · exact Or.inr (Or.inl ⟨⟨required, unfilled⟩, by simp [Token.LeftOut, required], rfl⟩)
    · refine Or.inr (Or.inr ⟨fun out => unfilled out.2, fun hollow => unfilled hollow.2, ?_⟩)
      simp only [Param.Unfilled, not_forall, Bool.not_eq_true] at unfilled
      obtain ⟨value, isValue, filled⟩ := unfilled
      obtain ⟨nonempty, encoded, -, rfl⟩ := buildParam_of_filled isValue filled h
      refine ⟨_, ⟨p.share params, nonempty, fun s member => ?_, rfl⟩,
        congrArg some String.toList_ofList⟩
      have isEncoded := encoded s member
      refine ⟨isEncoded.isSegment, ?_⟩
      obtain ⟨text, -, rfl⟩ := isEncoded
      exact Percent.not_mem_encode (by decide) text

section

variable {segment : Option String}
  (literal : ∀ text, token = .literal text → IsSegment text.toList ∧ '\\' ∉ text.toList)
  (h : m.buildToken params token = .ok segment)

include literal h

theorem text?_eq_none_iff : m.text? params token = none ↔ token.LeftOut params := by
  rcases buildToken_cases literal h with ⟨out, -, isText⟩ | ⟨-, notOut, isText⟩ |
    ⟨notOut, -, s, -, isText⟩
  · exact iff_of_true isText out
  · exact iff_of_false (by simp [isText]) notOut
  · exact iff_of_false (by simp [isText]) notOut

theorem text?_eq_nil_iff : m.text? params token = some [] ↔ token.Hollow params := by
  rcases buildToken_cases literal h with ⟨-, notHollow, isText⟩ | ⟨hollow, -, isText⟩ |
    ⟨-, notHollow, s, solid, isText⟩
  · exact iff_of_false (by simp [isText]) notHollow
  · exact iff_of_true isText hollow
  · exact iff_of_false (by simp [isText, solid.ne_nil]) notHollow

theorem eq_nil_or_solid {s : List Char} (isText : m.text? params token = some s) :
    s = [] ∨ Solid s := by
  rcases buildToken_cases literal h with ⟨-, -, none⟩ | ⟨-, -, hollow⟩ | ⟨-, -, t, solid, isT⟩
  · exact absurd (none.symm.trans isText) (by simp)
  · exact Or.inl (Option.some.inj (isText.symm.trans hollow))
  · exact Or.inr (Option.some.inj (isT.symm.trans isText) ▸ solid)

end

/-! ### Paths -/

/-- The texts that the tokens write. -/
def texts (m : Matcher) (params : Params) : List (List Char) :=
  m.tokens.filterMap (m.text? params)

/-- A built path has the texts one after the other; a slash at the end comes after them, unless
there is nothing but the slash of an empty one. -/
theorem toList_build (built : m.build params = .ok path) :
    path.toList = if m.texts params = [] then ['/'] else spell (m.texts params) ++
      if m.trailingSlash = true ∧ m.texts params ≠ [[]] then ['/'] else [] := by
  obtain ⟨segments, wrote, rfl⟩ := Pattern.exists_of_map_eq_ok built
  have isTexts : segments = (m.texts params).map String.ofList := by
    rw [(buildSegments_eq_ok wrote).2, texts, List.map_filterMap]
    congr 1
    funext token
    rw [text?, Option.map_map]
    cases (m.buildToken params token).toOption.join <;> simp
  have joined : "/" ++ "/".intercalate segments = Path.ofSegments (m.texts params) := by
    rw [isTexts, Path.intercalate_ofList, Path.slash_append, Path.ofSegments]
  simp only [joined]
  exact toList_pathOf m (m.texts params)

/-- Two slashes come together where something follows an empty text, or where an empty text that
is not the only one comes before the slash at the end. -/
theorem hasDoubleSlash_build (all : ∀ s ∈ m.texts params, s = [] ∨ Solid s)
    (built : m.build params = .ok path) : hasDoubleSlash path.toList = false ↔
      (m.texts params).Pairwise fun s t => s ≠ [] ∧ (m.trailingSlash = true → t ≠ []) := by
  rw [toList_build built]
  generalize m.texts params = texts at all
  by_cases nothing : texts = []
  · rw [if_pos nothing, nothing]
    exact iff_of_true rfl .nil
  rw [if_neg nothing]
  by_cases alone : texts = [[]]
  · rw [if_neg (by simp [alone]), alone]
    exact iff_of_true rfl (List.pairwise_singleton _ _)
  cases m.trailingSlash with
  | false =>
    rw [if_neg (by simp), List.append_nil, Path.hasDoubleSlash_spell_iff all]
    simp
  | true =>
    -- the slash at the end is that of one more text, which is empty
    have last : spell texts ++ ['/'] = spell (texts ++ [[]]) := (Path.spell_append texts [[]]).symm
    have allLast : ∀ s ∈ texts ++ [[]], s = [] ∨ Solid s := by
      intro s member
      rcases List.mem_append.mp member with member | isLast
      · exact all s member
      · exact Or.inl (List.mem_singleton.mp isLast)
    rw [if_pos ⟨rfl, alone⟩, last, Path.hasDoubleSlash_spell_iff allLast, List.pairwise_append]
    constructor
    · rintro ⟨-, -, nonempty⟩
      have filled : ∀ s ∈ texts, s ≠ [] := fun s member => nonempty s member [] List.mem_cons_self
      exact List.pairwise_of_forall_mem_list fun s member t member' =>
        ⟨filled s member, fun _ => filled t member'⟩
    · intro apart
      refine ⟨apart.imp And.left, List.pairwise_singleton _ _, fun s member _ _ => ?_⟩
      obtain ⟨t, rest, rfl⟩ := List.exists_cons_of_ne_nil nothing
      obtain ⟨first, -⟩ := List.pairwise_cons.mp apart
      rcases List.mem_cons.mp member with rfl | later
      · cases rest with
        | nil => exact fun empty => alone (by rw [empty])
        | cons u rest => exact (first u List.mem_cons_self).1
      · exact (first s later).2 rfl

/-- A path that is built of texts without backslashes begins with a slash, holds no backslash, and
stays as it is when it is normalized just if it is canonical.  It is canonical just if whatever
comes after a hollow token is left out; and, where the pattern ends with a slash, whatever comes
before one. -/
theorem isCanonical_build_iff (compiled : ofPattern pattern options = .ok m)
    (noBackslash : ∀ text, Token.literal text ∈ m.tokens → '\\' ∉ text.toList)
    (built : m.build params = .ok path) :
    path.toList.head? = some '/' ∧ '\\' ∉ path.toList ∧
      (Path.normalize path = path ↔ Path.isCanonical path = true) ∧
      (Path.isCanonical path = true ↔ m.tokens.Pairwise fun t u =>
        (t.Hollow params → u.LeftOut params) ∧
          (m.trailingSlash = true → u.Hollow params → t.LeftOut params)) := by
  have literals := Pattern.isSegment_of_mem_readTokens
    (Pattern.tokenize_eq_ok (ofPattern_eq_ok compiled).1).1
  have literal : ∀ token ∈ m.tokens, ∀ text, token = .literal text →
      IsSegment text.toList ∧ '\\' ∉ text.toList := by
    rintro _ member text rfl
    exact ⟨literals text member, noBackslash text member⟩
  obtain ⟨segments, wrote, -⟩ := Pattern.exists_of_map_eq_ok built
  have each := (buildSegments_eq_ok wrote).1
  have all : ∀ s ∈ m.texts params, s = [] ∨ Solid s := by
    intro s member
    obtain ⟨token, inTokens, isText⟩ := List.mem_filterMap.mp member
    obtain ⟨segment, isToken⟩ := each token inTokens
    exact eq_nil_or_solid (literal token inTokens) isToken isText
  have isPath := toList_build built
  have head : path.toList.head? = some '/' := by
    rw [isPath]
    split
    · rfl
    · rename_i nonempty
      obtain ⟨s, rest, split⟩ := List.exists_cons_of_ne_nil nonempty
      rw [split]
      rfl
  have plain : '\\' ∉ path.toList := by
    rw [isPath]
    have inTexts := Path.not_mem_spell_of_solid all
    split
    · decide
    · rw [List.mem_append, not_or]
      refine ⟨inTexts, ?_⟩
      split <;> decide
  refine ⟨head, plain, Path.normalize_eq_self_iff, ?_⟩
  have canonical : Path.isCanonical path = true ↔ hasDoubleSlash path.toList = false := by
    simp [Path.isCanonical, Path.isCanonicalChars_iff, head, plain]
  rw [canonical, hasDoubleSlash_build all built, texts, List.pairwise_filterMap]
  -- two tokens that both write something
  refine List.Pairwise.iff_of_mem fun {t u} memberT memberU => ?_
  obtain ⟨_, isT⟩ := each t memberT
  obtain ⟨_, isU⟩ := each u memberU
  rw [← text?_eq_none_iff (literal t memberT) isT, ← text?_eq_none_iff (literal u memberU) isU,
    ← text?_eq_nil_iff (literal t memberT) isT, ← text?_eq_nil_iff (literal u memberU) isU]
  cases m.text? params t <;> cases m.text? params u <;> simp

/-- The last param is empty, so the path ends with the slash in front of it. -/
theorem isCanonical_build_hollow : ∃ m params, params = [("b", .single "x"), ("a", .single "")] ∧
    ofPattern "/:b/:a(.*)" ⟨false, false⟩ = .ok m ∧
    (∀ text, Token.literal text ∈ m.tokens → '\\' ∉ text.toList) ∧
    m.build params = .ok "/x/" ∧ (∃ t ∈ m.tokens, t.Hollow params) ∧
    Path.normalize "/x/" = "/x/" := by
  obtain ⟨params, isParams⟩ : ∃ params : Params,
      params = [("b", .single "x"), ("a", .single "")] := ⟨_, rfl⟩
  have evaluated : (ofPattern "/:b/:a(.*)" ⟨false, false⟩).map (fun m =>
      (m.tokens, m.trailingSlash, m.build params)) =
      .ok ([.param ⟨"b", none, false, false⟩, .param ⟨"a", some ".*", false, false⟩], false,
        .ok "/x/") := by
    rw [isParams]
    cbv
  obtain ⟨m, compiled, same⟩ := Pattern.exists_of_map_eq_ok evaluated
  simp only [Prod.mk.injEq] at same
  obtain ⟨isTokens, noSlash, built⟩ := same
  have noText : ∀ text, Token.literal text ∉ m.tokens := by simp [← isTokens]
  have filled : ¬ Token.Hollow params (.param ⟨"b", none, false, false⟩) := by
    simp [Token.Hollow, Param.Unfilled, isParams, Dict.get?, ParamValue.isEmpty]
  have hollow : Token.Hollow params (.param ⟨"a", some ".*", false, false⟩) := by
    simp [Token.Hollow, Param.Unfilled, isParams, Dict.get?, ParamValue.isEmpty]
  obtain ⟨-, -, stays, canonical⟩ := isCanonical_build_iff compiled
    (fun text member => absurd member (noText text)) built.symm
  refine ⟨m, params, isParams, compiled, fun text member => absurd member (noText text),
    built.symm, ⟨_, by rw [← isTokens]; exact List.mem_cons_of_mem _ List.mem_cons_self, hollow⟩,
    stays.mpr (canonical.mpr ?_)⟩
  rw [← isTokens, ← noSlash, List.pairwise_pair]
  exact ⟨fun isHollow => absurd isHollow filled, fun isTrue => absurd isTrue (by simp)⟩

/-- The first param is empty, and another one comes after it. -/
theorem exists_not_isCanonical : ∃ m, ofPattern "/:a(.*)/:b" ⟨false, false⟩ = .ok m ∧
    (∀ text, Token.literal text ∉ m.tokens) ∧
    m.build [("a", .single ""), ("b", .single "x")] = .ok "//x" ∧
    Path.isCanonical "//x" = false ∧ Path.normalize "//x" = "/x" := by
  have evaluated : (ofPattern "/:a(.*)/:b" ⟨false, false⟩).map (fun m =>
      (m.tokens, m.build [("a", .single ""), ("b", .single "x")])) =
      .ok ([.param ⟨"a", some ".*", false, false⟩, .param ⟨"b", none, false, false⟩],
        .ok "//x") := by
    cbv
  obtain ⟨m, compiled, same⟩ := Pattern.exists_of_map_eq_ok evaluated
  obtain ⟨isTokens, built⟩ := Prod.mk.inj same
  exact ⟨m, compiled, by simp [← isTokens], built.symm, by decide, by cbv⟩

end Matcher
end Waymark
