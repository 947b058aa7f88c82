/-
Paths are built again from what was recognized.

A param that is read from a path is given a value that it can be built from, unless it is
required and its value is empty (`ParamKey.Given`).  An empty value is only captured where
the constraint lets the empty text through, and that is when building accepts it too.

* `given_of_recognize` — what the params of a recognized path are given;
* `exists_build_of_given` — a path can be built from such params;
* `exists_build_iff_allowsEmpty` — when another matcher with the same keys can build one.
-/
import Waymark.Proofs.Matcher.Captures

namespace Waymark

open Waymark.Path Regex

/-! ### Values that are read -/

/-- A value as it is read for a param with the key: only an optional param may have none, and a
required one has an empty value only if it may be empty. -/
def ParamKey.Given (key : ParamKey) (mayBeEmpty : Prop) : Option ParamValue → Prop
  | none => key.optional = true
  | some value => (∃ raw, value = Matcher.readValue key.repeatable raw) ∧
      (value.isEmpty = true → key.optional = true ∨ mayBeEmpty)

theorem ParamKey.Given.imp {key : ParamKey} {P Q : Prop} {value : Option ParamValue}
    (h : key.Given P value) (weaker : P → Q) : key.Given Q value := by
  cases value with
  | none => exact h
  | some value => exact ⟨h.1, fun empty => (h.2 empty).imp_right weaker⟩

namespace Matcher

open Recognizer

variable {pattern path : String} {options : PatternOptions} {m : Matcher} {params present : Params}
  {hit : Point} {index : Nat} {keys : List ParamKey} {tokens : List Token} {base : Param → Expr}

theorem eq_nil_of_isEmpty_decode {cs : List Char}
    (h : (String.ofList (Percent.decode cs)).isEmpty = true) : cs = [] := by
  rw [String.isEmpty_iff, String.ofList_eq_empty_iff] at h
  by_contra some
  exact Percent.decode_ne_nil some h

/-- The value of a text is empty if the text is, or for several segments if there are none. -/
theorem isEmpty_readValue_iff {repeatable : Bool} {raw : List Char} :
    (readValue repeatable raw).isEmpty = true ↔
      if repeatable then ∀ c ∈ raw, c = '/' else raw = [] := by
  cases repeatable with
  | false =>
    refine ⟨eq_nil_of_isEmpty_decode, ?_⟩
    rintro rfl
    cbv
  | true =>
    rw [if_pos rfl, ← segments_eq_nil_iff, readValue, if_pos rfl, ParamValue.isEmpty, List.all_map,
      List.all_eq_true, List.eq_nil_iff_forall_not_mem]
    refine forall_congr' fun s => ⟨fun empty listed => ?_, fun none listed => absurd listed none⟩
    exact (isSegment_of_mem_segments listed).1 (eq_nil_of_isEmpty_decode (empty listed))

/-- Text that does not begin with a slash has an empty value only if it is empty. -/
theorem eq_nil_of_isEmpty_readValue {repeatable : Bool} {raw : List Char}
    (noSlash : raw.head? ≠ some '/') (h : (readValue repeatable raw).isEmpty = true) :
    raw = [] := by
  rw [isEmpty_readValue_iff] at h
  cases raw with
  | nil => rfl
  | cons c cs =>
    split at h
    · exact absurd (by rw [h c List.mem_cons_self]; rfl) noSlash
    · exact h

/-- Params of other names are not read. -/
theorem get?_readParams {name : String} (other : name ∉ keys.map (·.name)) :
    (readParams hit index keys params).get? name = params.get? name := by
  induction keys generalizing index params with
  | nil => rfl
  | cons key keys ih =>
    rw [List.map_cons, List.mem_cons, not_or] at other
    rw [readParams]
    split
    · exact ih other.2
    · split
      · exact ih other.2
      · rw [ih other.2, Dict.get?_insert_of_ne _ _ (Ne.symm other.1)]

/-- The value that is read for a key from what its group captured. -/
def valueOf? (key : ParamKey) : Option (List Char) → Option ParamValue
  | none => none
  | some raw =>
    if raw.isEmpty && key.optional then none else some (readValue key.repeatable raw)

/-- Each param is read from the group with its number. -/
theorem get?_readParams_of_getElem? (distinct : (keys.map (·.name)).Nodup) {i : Nat} {key : ParamKey}
    (isKey : keys[i]? = some key) (fresh : params.get? key.name = none) :
    (readParams hit index keys params).get? key.name = valueOf? key (hit.group? (index + i)) := by
  induction keys generalizing index params i with
  | nil => exact absurd isKey (by simp)
  | cons first keys ih =>
    obtain ⟨unique, distinct⟩ := List.nodup_cons.mp distinct
    rw [readParams]
    cases i with
    | zero =>
      obtain rfl : first = key := Option.some.inj isKey
      rw [Nat.add_zero]
      cases hit.group? index with
      | none => exact (get?_readParams unique).trans fresh
      | some raw =>
        simp only [valueOf?]
        split
        · exact (get?_readParams unique).trans fresh
        · rw [get?_readParams unique, Dict.get?_insert_self]
    | succ i =>
      rw [List.getElem?_cons_succ] at isKey
      have others : ∀ params : Params, params.get? key.name = none →
          (readParams hit (index + 1) keys params).get? key.name =
            valueOf? key (hit.group? (index + (i + 1))) := by
        intro params fresh
        rw [Nat.add_comm i 1, ← Nat.add_assoc]
        exact ih distinct isKey fresh
      have differ : first.name ≠ key.name := fun same =>
        unique (List.mem_map.mpr ⟨key, List.mem_of_getElem? isKey, same.symm⟩)
      split
      · exact others params fresh
      · split
        · exact others params fresh
        · exact others _ ((Dict.get?_insert_of_ne _ _ differ).trans fresh)

/-- Only params with the keys are read. -/
theorem mem_keys_of_mem_readParams {pair : String × ParamValue}
    (h : pair ∈ readParams hit index keys params) :
    pair.1 ∈ params.keys ∨ pair.1 ∈ keys.map (·.name) := by
  induction keys generalizing index params with
  | nil => exact Or.inl (List.mem_map.mpr ⟨pair, h, rfl⟩)
  | cons key keys ih =>
    rw [List.map_cons, List.mem_cons]
    rw [readParams] at h
    split at h
    · exact (ih h).imp_right Or.inr
    · split at h
      · exact (ih h).imp_right Or.inr
      · rcases ih h with before | later
        · rcases Dict.mem_keys_insert before with old | new
          · exact Or.inl old
          · exact Or.inr (Or.inl new)
        · exact Or.inr (Or.inr later)

/-- The params of tokens are given what was captured for them. -/
theorem given_readParams (accounted : Accounted base hit.group? index tokens)
    (distinct : ((Pattern.params tokens).map (·.name)).Nodup)
    (fresh : ∀ p ∈ Pattern.params tokens, params.get? p.name = none) :
    ∀ p ∈ Pattern.params tokens, p.key.Given ((base p).idle (·.holds (.start [])) = true)
      ((readParams hit index ((Pattern.params tokens).map Param.key) params).get? p.name) := by
  intro p member
  obtain ⟨i, isParam⟩ := List.mem_iff_getElem?.mp member
  have isKey : ((Pattern.params tokens).map Param.key)[i]? = some p.key := by
    rw [List.getElem?_map, isParam, Option.map_some]
  have names : (((Pattern.params tokens).map Param.key).map (·.name)).Nodup := by
    rw [List.map_map]
    exact distinct
  have required := accounted.of_getElem? isParam
  rw [show p.name = p.key.name from rfl, get?_readParams_of_getElem? names isKey (fresh p member)]
  cases captured : hit.group? (index + i) with
  | none =>
    show p.optional = true
    by_contra isRequired
    obtain ⟨raw, some, -⟩ := required (Bool.not_eq_true _ ▸ isRequired)
    rw [captured] at some
    exact absurd some (by simp)
  | some raw =>
    rw [valueOf?]
    split
    · rename_i dropped
      exact (Bool.and_eq_true_iff.mp dropped).2
    · refine ⟨⟨raw, rfl⟩, fun empty => ?_⟩
      by_cases optional : p.optional = true
      · exact Or.inl optional
      · obtain ⟨raw', captured', noSlash, idle⟩ := required (Bool.not_eq_true _ ▸ optional)
        obtain rfl := Option.some.inj (captured.symm.trans captured')
        exact Or.inr (idle (eq_nil_of_isEmpty_readValue noSlash empty))

/-- The params of a recognized path are given values that it can be built from. -/
theorem given_of_recognize (compiled : ofPattern pattern options = .ok m)
    (enclosed : ∀ p ∈ Pattern.params m.tokens, p.Enclosed)
    (single : hasDoubleSlash path.toList = false) (h : m.recognize path = some params) :
    ∀ p ∈ Pattern.params m.tokens, p.key.Given (p.name ∈ m.emptyCapable) (params.get? p.name) := by
  obtain ⟨base, hit, accounted, rfl, capable⟩ :=
    exists_accounted_of_recognize compiled enclosed single h
  have distinct := Pattern.names_nodup_of_tokenize (ofPattern_eq_ok compiled).1
  intro p member
  exact (given_readParams accounted distinct (fun _ _ => rfl) p member).imp (capable p member)

/-- What is read for a path are params of its matcher. -/
theorem declares_of_mem_recognize (h : m.recognize path = some params) {pair : String × ParamValue}
    (member : pair ∈ params) : m.declares pair.1 = true := by
  obtain ⟨hit, -, rfl⟩ := Option.map_eq_some_iff.mp h
  rcases mem_keys_of_mem_readParams member with nothing | isKey
  · exact absurd nothing List.not_mem_nil
  · obtain ⟨key, inKeys, same⟩ := List.mem_map.mp isKey
    exact List.any_eq_true.mpr ⟨key, inKeys, decide_eq_true same⟩

/-! ### Building -/

theorem exists_buildParam {p : Param}
    (h : p.key.Given (p.name ∈ m.emptyCapable) (params.get? p.name)) :
    ∃ segment, m.buildParam params p = .ok segment := by
  rw [buildParam]
  cases isValue : params.get? p.name with
  | none =>
    rw [isValue] at h
    exact ⟨none, if_pos h⟩
  | some value =>
    rw [isValue] at h
    obtain ⟨⟨raw, isRead⟩, empty⟩ := h
    simp only
    split
    · rename_i nothing
      split
      · exact ⟨none, rfl⟩
      · rename_i required
        rw [if_pos (List.contains_iff_mem.mpr ((empty nothing).resolve_left required))]
        exact ⟨_, rfl⟩
    · cases value with
      | single text => exact ⟨_, rfl⟩
      | list texts =>
        have repeatable : p.repeatable = true := by
          by_contra single
          rw [readValue, show p.key.repeatable = p.repeatable from rfl, if_neg single] at isRead
          exact absurd isRead (by simp)
        exact ⟨_, if_pos repeatable⟩

theorem exists_buildSegments (h : ∀ p ∈ Pattern.params tokens,
    p.key.Given (p.name ∈ m.emptyCapable) (params.get? p.name)) :
    ∃ segments, m.buildSegments params tokens = .ok segments := by
  induction tokens with
  | nil => exact ⟨[], rfl⟩
  | cons token tokens ih =>
    have others : (∀ p ∈ Pattern.params tokens,
        p.key.Given (p.name ∈ m.emptyCapable) (params.get? p.name)) →
        ∀ {segment}, m.buildToken params token = .ok segment →
        ∃ segments, m.buildSegments params (token :: tokens) = .ok segments := by
      intro given segment isToken
      obtain ⟨segments, isRest⟩ := ih given
      rw [buildSegments, isToken, isRest]
      cases segment with
      | none => exact ⟨segments, rfl⟩
      | some segment => exact ⟨segment :: segments, rfl⟩
    cases token with
    | literal text => exact others h rfl
    | param p =>
      obtain ⟨segment, isParam⟩ := exists_buildParam (h p List.mem_cons_self)
      exact others (fun q member => h q (List.mem_cons_of_mem _ member)) isParam

/-- A path can be built from params as they are read. -/
theorem exists_build_of_given (h : ∀ p ∈ Pattern.params m.tokens,
    p.key.Given (p.name ∈ m.emptyCapable) (params.get? p.name)) :
    ∃ path, m.build params = .ok path := by
  obtain ⟨segments, isSegments⟩ := exists_buildSegments h
  exact ⟨_, by rw [build, isSegments]; rfl⟩

/-- No required param that must not be empty has an empty value. -/
def AllowsEmpty (m : Matcher) (params : Params) : Prop :=
  ∀ p ∈ Pattern.params m.tokens, p.optional = false → ∀ value, params.get? p.name = some value →
    value.isEmpty = true → p.name ∈ m.emptyCapable

theorem allowsEmpty_of_build (built : m.build params = .ok path) : m.AllowsEmpty params := by
  intro p member required value isValue empty
  obtain ⟨segment, isParam⟩ := buildParam_of_build built member
  have unfilled : p.Unfilled params := by
    intro value' isValue'
    rwa [Option.some.inj (isValue'.symm.trans isValue)]
  rcases buildParam_of_unfilled unfilled isParam with ⟨optional, -⟩ | ⟨-, capable, -, -⟩
  · exact absurd optional (by simp [required])
  · exact capable

/-- From the params that were read for a matcher with the same keys, a path can be built just if
those that are empty may be. -/
theorem exists_build_iff_allowsEmpty {o : Matcher} (keys : ∀ key ∈ o.keys, key ∈ m.keys)
    (given : ∀ p ∈ Pattern.params m.tokens,
      p.key.Given (p.name ∈ m.emptyCapable) (params.get? p.name)) :
    (∃ path, o.build params = .ok path) ↔ o.AllowsEmpty params := by
  refine ⟨fun ⟨path, built⟩ => allowsEmpty_of_build built, fun allowed => ?_⟩
  refine exists_build_of_given fun q member => ?_
  obtain ⟨p, inTokens, same⟩ := List.mem_map.mp (keys _ (List.mem_map_of_mem member))
  have hasGiven := given p inTokens
  rw [same, show p.name = q.name from congrArg ParamKey.name same] at hasGiven
  cases isValue : params.get? q.name with
  | none =>
    rw [isValue] at hasGiven
    exact hasGiven
  | some value =>
    rw [isValue] at hasGiven
    refine ⟨hasGiven.1, fun empty => ?_⟩
    cases optional : q.optional with
    | true => exact Or.inl optional
    | false => exact Or.inr (allowed q member optional value isValue empty)

end Matcher
end Waymark
