/-
The form of the params that are read from a path.

A required param should have a value, an optional one a value that is not empty or none, and a
repeatable one a list of texts that are not empty (`Matcher.Conforms`).  The form of the values is
always right.  But whether a capture is empty is asked before it is cut at its slashes, and so an
optional param that captured slashes only is given an empty list.  In a path without two slashes in
a row this does not happen, because another slash stands in front of each capture.

* `shaped_readValue` — the form of a value;
* `conforms_iff` — which captures make params in the right form;
* `recognize_conforms` — the params of a path that is recognized.
-/
import Waymark.Proofs.Matcher.Groups
import Waymark.Proofs.Matcher.Rebuild

namespace Waymark

open Regex Recognizer Waymark.Path

/-- The value has the form that repeatable params have, or other ones. -/
def ParamValue.Shaped (repeatable : Bool) : ParamValue → Prop
  | single _ => repeatable = false
  | list texts => repeatable = true ∧ ∀ text ∈ texts, text ≠ ""

/-- What was captured for the key makes a value that it may have: nothing only if it is optional, and
for an optional and repeatable one no slashes without other text. -/
def ParamKey.Allows (key : ParamKey) : Option (List Char) → Prop
  | none => key.optional = true
  | some raw => key.optional = true → key.repeatable = true → raw = [] ∨ ∃ c ∈ raw, c ≠ '/'

namespace Matcher

/-- The params are in the form that the keys of the matcher ask for. -/
structure Conforms (m : Matcher) (params : Params) : Prop where
  required : ∀ key ∈ m.keys, key.optional = false → (params.get? key.name).isSome = true
  filled : ∀ key ∈ m.keys, key.optional = true →
    ∀ value, params.get? key.name = some value → value.isEmpty = false
  shaped : ∀ key ∈ m.keys, ∀ value, params.get? key.name = some value →
    value.Shaped key.repeatable
  declared : ∀ pair ∈ params, m.declares pair.1 = true

variable {pattern path : String} {options : PatternOptions} {m : Matcher} {params : Params}
  {hit : Point} {key : ParamKey} {raw : List Char}

theorem shaped_readValue (repeatable : Bool) (raw : List Char) :
    (readValue repeatable raw).Shaped repeatable := by
  cases repeatable with
  | false => rfl
  | true =>
    refine ⟨rfl, fun text member => ?_⟩
    obtain ⟨s, listed, rfl⟩ := List.mem_map.mp member
    exact fun empty => (isSegment_of_mem_segments listed).1
      (eq_nil_of_isEmpty_decode (String.isEmpty_iff.mpr empty))

theorem shaped_of_valueOf? {captured : Option (List Char)} {value : ParamValue}
    (h : valueOf? key captured = some value) : value.Shaped key.repeatable := by
  cases captured with
  | none => exact absurd h (by simp [valueOf?])
  | some raw =>
    rw [valueOf?] at h
    split at h
    · exact absurd h (by simp)
    · rw [← Option.some.inj h]
      exact shaped_readValue key.repeatable raw

/-- A capture is right if it makes a value where one is required, and no empty one elsewhere. -/
theorem allows_iff {captured : Option (List Char)} : key.Allows captured ↔
    (key.optional = false → (valueOf? key captured).isSome = true) ∧
    (key.optional = true → ∀ value, valueOf? key captured = some value → value.isEmpty = false) := by
  cases captured with
  | none => cases isOptional : key.optional <;> simp [ParamKey.Allows, valueOf?, isOptional]
  | some raw =>
    cases isOptional : key.optional with
    | false => simp [ParamKey.Allows, valueOf?, isOptional]
    | true =>
      by_cases nothing : raw = []
      · simp [ParamKey.Allows, valueOf?, isOptional, nothing]
      · have isValue : valueOf? key (some raw) = some (readValue key.repeatable raw) := by
          simp [valueOf?, nothing]
        have filled : (readValue key.repeatable raw).isEmpty = false ↔
            (key.repeatable = true → ∃ c ∈ raw, c ≠ '/') := by
          rw [← Bool.not_eq_true, isEmpty_readValue_iff]
          cases key.repeatable <;> simp [nothing]
        simp [ParamKey.Allows, isOptional, isValue, nothing, filled]

/-- The values of the params, each read from the group with its number. -/
theorem get?_of_recognize (compiled : ofPattern pattern options = .ok m)
    (found : m.recognizer.find? path = some hit) (recognized : m.recognize path = some params)
    {i : Nat} (isKey : m.keys[i]? = some key) :
    params.get? key.name = valueOf? key (hit.group? (i + 1)) := by
  have distinct := Pattern.names_nodup_of_tokenize (ofPattern_eq_ok compiled).1
  have names : (m.keys.map (·.name)).Nodup := by
    rw [keys, List.map_map]
    exact distinct
  rw [recognize, found, Option.map_some, Option.some.injEq] at recognized
  rw [← recognized, get?_readParams_of_getElem? names isKey rfl, Nat.add_comm]

/-- The params are in the right form if the captures are right. -/
theorem conforms_iff (compiled : ofPattern pattern options = .ok m)
    (found : m.recognizer.find? path = some hit) (recognized : m.recognize path = some params) :
    m.Conforms params ↔
      ∀ (i : Nat) (key : ParamKey), m.keys[i]? = some key → key.Allows (hit.group? (i + 1)) := by
  have values := fun {i : Nat} {key : ParamKey} (isKey : m.keys[i]? = some key) =>
    get?_of_recognize compiled found recognized isKey
  constructor
  · intro conforms i key isKey
    have member := List.mem_of_getElem? isKey
    rw [allows_iff, ← values isKey]
    exact ⟨conforms.required key member, conforms.filled key member⟩
  · intro allowed
    have at_ : ∀ key ∈ m.keys, ∃ i, params.get? key.name = valueOf? key (hit.group? (i + 1)) ∧
        key.Allows (hit.group? (i + 1)) := by
      intro key member
      obtain ⟨i, isKey⟩ := List.mem_iff_getElem?.mp member
      exact ⟨i, values isKey, allowed i key isKey⟩
    refine ⟨fun key member => ?_, fun key member => ?_, fun key member value isValue => ?_,
      fun pair member => declares_of_mem_recognize recognized member⟩
    · obtain ⟨i, isRead, allows⟩ := at_ key member
      exact isRead ▸ (allows_iff.mp allows).1
    · obtain ⟨i, isRead, allows⟩ := at_ key member
      exact isRead ▸ (allows_iff.mp allows).2
    · obtain ⟨i, isRead, -⟩ := at_ key member
      exact shaped_of_valueOf? (isRead ▸ isValue)

/-- What a contained param captured, where no two slashes stand in a row. -/
theorem allows_of_placed {p : Param} {cs : List Char} (single : hasDoubleSlash cs = false)
    {captured : Option (List Char)} (placed : Placed p cs captured) : p.key.Allows captured := by
  cases captured with
  | none => exact placed
  | some raw =>
    intro _ _
    obtain ⟨front, rest, rfl⟩ := placed
    have behind := (hasDoubleSlash_of_append single).2
    cases raw with
    | nil => exact Or.inl rfl
    | cons c raw =>
      refine Or.inr ⟨c, List.mem_cons_self, ?_⟩
      -- with the slash in front of it another one would make two
      rintro rfl
      exact absurd behind (by simp [hasDoubleSlash])

/-- The values that are read from a path are lists of texts that are not empty or single texts, as
the keys say, and there are none for other names.  The params are in the right form just if every
required param has captured something and no optional one slashes only.  If the params of the
pattern are contained, the required ones always have, and the others do if the path has no two
slashes in a row. -/
theorem recognize_conforms (compiled : ofPattern pattern options = .ok m)
    (recognized : m.recognize path = some params) :
    (∀ key ∈ m.keys, ∀ value, params.get? key.name = some value → value.Shaped key.repeatable) ∧
    (∀ pair ∈ params, m.declares pair.1 = true) ∧
    (∃ hit, m.recognizer.find? path = some hit ∧ (m.Conforms params ↔
      ∀ (i : Nat) (key : ParamKey), m.keys[i]? = some key → key.Allows (hit.group? (i + 1)))) ∧
    ((∀ p ∈ Pattern.params m.tokens, p.Contained) →
      (∀ key ∈ m.keys, key.optional = false → (params.get? key.name).isSome = true) ∧
      (hasDoubleSlash path.toList = false → m.Conforms params)) := by
  obtain ⟨hit, found, -⟩ := Option.map_eq_some_iff.mp recognized
  have values := fun {i : Nat} {key : ParamKey} (isKey : m.keys[i]? = some key) =>
    get?_of_recognize compiled found recognized isKey
  have iff := conforms_iff compiled found recognized
  refine ⟨fun key member value isValue => ?_,
    fun pair member => declares_of_mem_recognize recognized member, ⟨hit, found, iff⟩,
    fun contained => ?_⟩
  · obtain ⟨i, isKey⟩ := List.mem_iff_getElem?.mp member
    exact shaped_of_valueOf? (values isKey ▸ isValue)
  · obtain ⟨tail, tiles, -⟩ := exists_tiles_of_find? (ofPattern_eq_ok compiled).2.2 contained found
    have placed : ∀ (i : Nat) (key : ParamKey), m.keys[i]? = some key →
        ∃ p, key = p.key ∧ Placed p path.toList (hit.group? (i + 1)) := by
      intro i key isKey
      rw [keys, List.getElem?_map, Option.map_eq_some_iff] at isKey
      obtain ⟨p, isParam, rfl⟩ := isKey
      exact ⟨p, rfl, Nat.add_comm 1 i ▸ tiles.placed isParam⟩
    refine ⟨fun key member required => ?_, fun single => iff.mpr fun i key isKey => ?_⟩
    · obtain ⟨i, isKey⟩ := List.mem_iff_getElem?.mp member
      obtain ⟨p, rfl, isPlaced⟩ := placed i key isKey
      rw [values isKey]
      cases captured : hit.group? (i + 1) with
      | none =>
        rw [captured] at isPlaced
        have optional : p.key.optional = true := isPlaced
        exact absurd optional (by simp [required])
      | some raw => simp [valueOf?, required]
    · obtain ⟨p, rfl, isPlaced⟩ := placed i key isKey
      exact allows_of_placed single isPlaced

/-- One required param, and one that takes the rest of the path. -/
theorem recognize_conforms_rest : ∃ m params, ofPattern "/:a/*" ⟨false, false⟩ = .ok m ∧
    m.recognize "/x/y" = some params ∧ (∀ p ∈ Pattern.params m.tokens, p.Contained) ∧
    hasDoubleSlash "/x/y".toList = false ∧ m.Conforms params := by
  have evaluated : (ofPattern "/:a/*" ⟨false, false⟩).map (fun m =>
      (m.tokens, m.recognize "/x/y")) =
      .ok ([.param ⟨"a", none, false, false⟩, .param ⟨"pathMatch", some ".*", true, true⟩],
        some [("a", .single "x"), ("pathMatch", .list ["y"])]) := by
    cbv
  obtain ⟨m, compiled, same⟩ := Pattern.exists_of_map_eq_ok evaluated
  obtain ⟨isTokens, recognized⟩ := Prod.mk.inj same
  have rest : Param.Contained ⟨"pathMatch", some ".*", true, true⟩ := by
    have read : readAll {} "((?:.*)(?:/(?:.*))*)".toList = some (.group (some 1) [] (.concat
        [.group none [] (.repetition 0 none true .dot), .repetition 0 none true
          (.group none [] (.concat [.literal ⟨'/', false⟩,
            .group none [] (.repetition 0 none true .dot)]))])) := by cbv
    exact ⟨_, ⟨read, rfl⟩, rfl⟩
  have contained : ∀ p ∈ Pattern.params m.tokens, p.Contained := by
    rw [← isTokens]
    intro p member
    rcases List.mem_cons.mp member with rfl | member
    · exact contained_of_free rfl
    · rw [List.mem_singleton.mp member]
      exact rest
  obtain ⟨-, -, -, conforms⟩ := recognize_conforms compiled recognized.symm
  exact ⟨m, _, compiled, recognized.symm, contained, by decide, (conforms contained).2 (by decide)⟩

/-- A param that captured one slash has a list of no texts. -/
theorem exists_not_conforms : ∃ m, ofPattern "/*" ⟨false, false⟩ = .ok m ∧
    m.recognize "//" = some [("pathMatch", .list [])] ∧
    ¬ m.Conforms [("pathMatch", .list [])] := by
  have evaluated : (ofPattern "/*" ⟨false, false⟩).map (fun m => (m.keys, m.recognize "//")) =
      .ok ([⟨"pathMatch", true, true⟩], some [("pathMatch", .list [])]) := by
    cbv
  obtain ⟨m, compiled, same⟩ := Pattern.exists_of_map_eq_ok evaluated
  obtain ⟨isKeys, recognized⟩ := Prod.mk.inj same
  refine ⟨m, compiled, recognized.symm, fun conforms => ?_⟩
  have filled := conforms.filled ⟨"pathMatch", true, true⟩ (by simp [← isKeys]) rfl (.list []) rfl
  exact absurd filled (by decide)

end Matcher
end Waymark
