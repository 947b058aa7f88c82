/-
The values that params are read with.

`Pattern.values` gives each param of a pattern the value of its share of the segments, and
leaves out the params whose share is empty.

* `readParams_captured` — these are the values that are read from what the groups of the
  params captured.
-/
import Waymark.Proofs.Matcher.Backtrack

namespace Waymark

open Waymark.Path (IsSegment)
open Recognizer (captured)

/-- A segment with its octets decoded, or as it is if they are not UTF-8. -/
def decodedSegment (s : List Char) : String := String.ofList ((Percent.decode? s).getD s)

/-- The value of a share of the segments, each of which is decoded on its own. -/
def Param.valueOf (p : Param) (share : List (List Char)) : ParamValue :=
  if p.repeatable then .list (share.map decodedSegment) else .single (decodedSegment share.flatten)

/-- The values of the params that were given some segments. -/
def Pattern.values : List Token → List (List (List Char)) → Params
  | .literal _ :: tokens, _ :: shares => values tokens shares
  | .param p :: tokens, share :: shares =>
    if share = [] then values tokens shares else (p.name, p.valueOf share) :: values tokens shares
  | _, _ => []

theorem Dict.insert_of_not_mem {κ α : Type} [DecidableEq κ] {d : Dict κ α} {key : κ}
    (h : key ∉ d.keys) (value : α) : d.insert key value = d ++ [(key, value)] := by
  induction d with
  | nil => rfl
  | cons pair rest ih =>
    obtain ⟨k, v⟩ := pair
    rw [Dict.keys, List.map_cons, List.mem_cons, not_or] at h
    rw [Dict.insert, if_neg (Ne.symm h.1), ih h.2]
    rfl

variable {spells : List Char → List Char → Bool} {tokens : List Token}
  {share : List (List Char)} {shares : List (List (List Char))} {index : Nat}
  {groups : List (Nat × List Char)}

theorem readValue_joinSegments {p : Param} (all : ∀ s ∈ share, IsSegment s) (some : share ≠ [])
    (single : p.repeatable = false → share.length ≤ 1) :
    Matcher.readValue p.repeatable (Path.joinSegments share) = p.valueOf share := by
  rw [Matcher.readValue, Param.valueOf]
  cases isRepeatable : p.repeatable with
  | true =>
    rw [if_pos rfl, if_pos rfl, Path.segments_joinSegments all]
    rfl
  | false =>
    rw [if_neg (by simp), if_neg (by simp)]
    obtain ⟨s, rfl⟩ : ∃ s, share = [s] := List.length_eq_one_iff.mp
      (Nat.le_antisymm (single isRepeatable) (List.length_pos_iff.mpr some))
    rw [List.flatten_singleton]
    rfl

theorem lookup_cons_of_ne {i j : Nat} (h : i ≠ j) (raw : List Char) :
    ((j, raw) :: groups).lookup i = groups.lookup i := by
  have differ : (i == j) = false := beq_eq_false_iff_ne.mpr h
  rw [List.lookup_cons, differ]

/-- Groups with larger numbers do not hide what a group captured. -/
theorem lookup_captured {i : Nat} (earlier : i < index) :
    (captured index tokens shares groups).lookup i = groups.lookup i := by
  fun_induction captured index tokens shares groups with
  | case1 index text tokens share shares groups ih => exact ih earlier
  | case2 index p tokens share shares groups ih =>
    rw [ih (Nat.lt_succ_of_lt earlier)]
    split
    · rfl
    · exact lookup_cons_of_ne (Nat.ne_of_lt earlier) _
  | case3 => rfl

theorem isEmpty_joinSegments (all : ∀ s ∈ share, IsSegment s) (given : share ≠ []) :
    (Path.joinSegments share).isEmpty = false := by
  obtain ⟨s, rest, rfl⟩ := List.exists_cons_of_ne_nil given
  rw [Path.joinSegments_cons, List.isEmpty_eq_false_iff]
  exact List.append_ne_nil_of_left_ne_nil (all s List.mem_cons_self).1 _

/-- Nothing captured, nothing read. -/
theorem readParams_cons_of_none {hit : Regex.Point} {p : Param} (h : hit.group? index = none)
    (keys : List ParamKey) (params : Params) :
    Matcher.readParams hit index (p.key :: keys) params =
      Matcher.readParams hit (index + 1) keys params := by
  rw [Matcher.readParams, h]

theorem readParams_cons_of_some {hit : Regex.Point} {p : Param} {params : Params}
    (all : ∀ s ∈ share, IsSegment s) (given : share ≠ [])
    (single : p.repeatable = false → share.length ≤ 1) (fresh : p.name ∉ params.keys)
    (h : hit.group? index = some (Path.joinSegments share)) (keys : List ParamKey) :
    Matcher.readParams hit index (p.key :: keys) params =
      Matcher.readParams hit (index + 1) keys (params ++ [(p.name, p.valueOf share)]) := by
  rw [Matcher.readParams, h]
  simp only [isEmpty_joinSegments all given, Bool.false_and, Bool.false_eq_true, if_false]
  show Matcher.readParams hit (index + 1) keys (params.insert p.name
    (Matcher.readValue p.repeatable _)) = _
  rw [readValue_joinSegments all given single, Dict.insert_of_not_mem fresh]

/-- The values that are read are those of the shares. -/
theorem readParams_captured {hit : Regex.Point} {params : Params}
    (takes : List.Forall₂ (Token.Takes spells) tokens shares)
    (all : ∀ share ∈ shares, ∀ s ∈ share, IsSegment s)
    (isHit : hit.groups = captured index tokens shares groups)
    (later : ∀ i, index ≤ i → groups.lookup i = none)
    (distinct : ((Pattern.params tokens).map (·.name)).Nodup)
    (apart : ∀ p ∈ Pattern.params tokens, p.name ∉ params.keys) :
    Matcher.readParams hit index ((Pattern.params tokens).map Param.key) params =
      params ++ Pattern.values tokens shares := by
  induction takes generalizing index groups params with
  | nil => exact (List.append_nil params).symm
  | @cons token share tokens shares first _ ih =>
    have others := fun share member => all share (List.mem_cons_of_mem _ member)
    cases token with
    | literal text => exact ih others isHit later distinct apart
    | param p =>
      obtain ⟨required, single⟩ := first
      obtain ⟨unique, distinct⟩ := List.nodup_cons.mp distinct
      have apartOthers : ∀ q ∈ Pattern.params tokens, q.name ∉ params.keys := fun q member =>
        apart q (List.mem_cons_of_mem _ member)
      -- the later groups have larger numbers, so this one holds what the param was given
      have group : hit.group? index = (if share = [] then groups
          else (index, Path.joinSegments share) :: groups).lookup index := by
        rw [Regex.Point.group?, isHit, captured, lookup_captured (Nat.lt_succ_self index)]
      rw [captured] at isHit
      show Matcher.readParams hit index (p.key :: (Pattern.params tokens).map Param.key) params = _
      rw [Pattern.values]
      by_cases absent : share = []
      · rw [if_pos absent] at group isHit
        rw [readParams_cons_of_none (group.trans (later index (Nat.le_refl _))), if_pos absent]
        exact ih others isHit (fun i le => later i (Nat.le_of_succ_le le)) distinct apartOthers
      · rw [if_neg absent] at group isHit
        rw [List.lookup_cons_self] at group
        have laterOthers : ∀ i, index + 1 ≤ i →
            ((index, Path.joinSegments share) :: groups).lookup i = none := by
          intro i le
          rw [lookup_cons_of_ne (Nat.ne_of_gt le)]
          exact later i (Nat.le_of_succ_le le)
        -- no other param has the name, so the value is added at the end
        have added : ∀ q ∈ Pattern.params tokens,
            q.name ∉ Dict.keys (params ++ [(p.name, p.valueOf share)]) := by
          intro q member
          rw [Dict.keys, List.map_append, List.mem_append, not_or]
          refine ⟨apartOthers q member, fun same => unique ?_⟩
          rw [List.map_singleton, List.mem_singleton] at same
          exact List.mem_map.mpr ⟨q, member, same⟩
        rw [readParams_cons_of_some (all share List.mem_cons_self) absent single
          (apart p List.mem_cons_self) group, if_neg absent,
          ih others isHit laterOthers distinct added, List.append_assoc]
        rfl

end Waymark
