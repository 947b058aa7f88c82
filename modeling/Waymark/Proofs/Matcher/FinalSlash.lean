/-
A slash at the end of a path.

For a pattern that is not strict a slash at the end of a path makes no difference, not even to
the params.  The ending lets it through; and if a bare asterisk at the end of the pattern takes it,
it is dropped when the segments of the value are told apart.

* `readParams_congr`, `readParams_append` — the params are read one by one;
* `map_allot_congr` — what is read does not change if it does not behind the last token;
* `recognize_append_slash` — a path with a slash at its end and without.
-/
import Waymark.Proofs.Matcher.CatchAll

namespace Waymark

open Waymark.Path

/-- The params have no constraints, but the last segment may be a bare asterisk. -/
def Pattern.Open (tokens : List Token) : Prop :=
  ∃ front, (tokens = front ∨ tokens = front ++ [.param Param.catchAll]) ∧
    ∀ p ∈ params front, p.constraint = none

/-! ### Params -/

namespace Matcher

variable {hit hit' : Regex.Point} {index : Nat} {keys others : List ParamKey} {params : Params}
  {groups : List (Nat × List Char)} {m : Matcher} {front : List Token}

/-- The params depend on what their own groups captured only. -/
theorem readParams_congr (same : ∀ j, index ≤ j → j < index + keys.length →
    hit.group? j = hit'.group? j) :
    readParams hit index keys params = readParams hit' index keys params := by
  induction keys generalizing index params with
  | nil => rfl
  | cons key keys ih =>
    rw [List.length_cons] at same
    have here := same index (Nat.le_refl _) (by omega)
    have others := fun params => @ih (index + 1) params fun j above below =>
      same j (by omega) (by omega)
    rw [readParams, readParams, here, others]
    cases hit'.group? index with
    | none => rfl
    | some raw =>
      simp only
      rw [others]

theorem readParams_append : readParams hit index (keys ++ others) params =
    readParams hit (index + keys.length) others (readParams hit index keys params) := by
  induction keys generalizing index params with
  | nil => rfl
  | cons key keys ih =>
    have next : index + (key :: keys).length = index + 1 + keys.length := by
      rw [List.length_cons]
      omega
    rw [List.cons_append, readParams, next, readParams]
    split
    · exact ih
    · split <;> exact ih

/-- The end of a match of which only the captures matter. -/
def hitOf (groups : List (Nat × List Char)) : Regex.Point := ⟨none, 0, [], groups⟩

/-- The params that are read from what the groups captured. -/
def readGroups (m : Matcher) (groups : List (Nat × List Char)) : Params :=
  readParams (hitOf groups) 1 m.keys []

theorem recognize_eq (m : Matcher) (path : String) :
    m.recognize path =
      ((m.recognizer.expr.search? path.toList).map (·.groups)).map m.readGroups := by
  rw [recognize, Regex.find?, Option.map_map]
  refine congrArg (Option.map · _) (funext fun hit => ?_)
  exact readParams_congr fun _ _ _ => rfl

theorem readValue_append_slash (raw : List Char) :
    readValue true (raw ++ ['/']) = readValue true raw := by
  rw [readValue, readValue, if_pos rfl, if_pos rfl, segments_append_slash]

/-- What the bare asterisk took is read last, if it is not empty. -/
theorem readGroups_cons (isTokens : m.tokens = front ++ [.param Param.catchAll])
    (fresh : groups.lookup (Pattern.nextGroup front) = none) (raw : List Char) :
    m.readGroups ((Pattern.nextGroup front, raw) :: groups) =
      if raw = [] then m.readGroups groups
      else (m.readGroups groups).insert Param.catchAllName (readValue true raw) := by
  have isKeys : m.keys = (Pattern.params front).map Param.key ++ [Param.catchAll.key] := by
    rw [keys, isTokens, Pattern.params, List.filterMap_append, List.map_append]
    rfl
  have last : 1 + ((Pattern.params front).map Param.key).length = Pattern.nextGroup front := by
    rw [List.length_map, Pattern.nextGroup]
  -- the groups of the params in front have smaller numbers
  have before : readParams (hitOf ((Pattern.nextGroup front, raw) :: groups)) 1
      ((Pattern.params front).map Param.key) [] =
        readParams (hitOf groups) 1 ((Pattern.params front).map Param.key) [] :=
    readParams_congr fun j _ below => lookup_cons_of_ne (Nat.ne_of_lt (last ▸ below)) raw
  have skipped : ∀ params, readParams (hitOf groups) (Pattern.nextGroup front)
      [Param.catchAll.key] params = params := by
    intro params
    rw [readParams, Regex.Point.group?, hitOf, fresh]
    rfl
  rw [readGroups, readGroups, isKeys, readParams_append, readParams_append, before, last, skipped,
    readParams, Regex.Point.group?, hitOf, List.lookup_cons_self]
  cases raw <;> rfl

end Matcher

/-! ### Shares and what is read from them -/

namespace Recognizer

variable {α β : Type} {f : α → β} {spells : List Char → List Char → Bool} {index : Nat}
  {tokens : List Token} {parts : List (List Char)} {groups : List (Nat × List Char)}
  {after after' : List (List Char) → List (Nat × List Char) → Option α}

/-- What is read does not change if it does not at the end, where the groups of all tokens have been
passed. -/
theorem map_allot_congr
    (same : ∀ parts groups, (∀ s ∈ parts, IsSegment s) →
      groups.lookup (index + (Pattern.params tokens).length) = none →
        (after parts groups).map f = (after' parts groups).map f)
    (all : ∀ s ∈ parts, IsSegment s) (later : ∀ i, index ≤ i → groups.lookup i = none) :
    (allot spells after index tokens parts groups).map f =
      (allot spells after' index tokens parts groups).map f := by
  induction tokens generalizing index parts groups with
  | nil => exact same parts groups all (later _ (Nat.le_refl _))
  | cons token tokens ih =>
    cases token with
    | literal text =>
      cases parts with
      | nil => rw [allot, allot]
      | cons s parts =>
        rw [allot, allot]
        split
        · exact ih same (fun t member => all t (List.mem_cons_of_mem _ member)) later
        · rfl
    | param p =>
      rw [allot, allot, List.map_findSome?, List.map_findSome?]
      refine Regex.findSome?_congr fun n _ => ih (fun parts groups segments fresh => ?_) ?_ ?_
      · refine same parts groups segments ?_
        rwa [Nat.add_assoc, Nat.add_comm 1] at fresh
      · exact fun s member => all s (List.mem_of_mem_drop member)
      · intro i above
        split
        · exact later i (by omega)
        · rw [lookup_cons_of_ne (by omega)]
          exact later i (by omega)

/-- The slash at the end is dropped from what the bare asterisk takes. -/
theorem map_swallow_append_slash {m : Matcher} {front : List Token}
    (isTokens : m.tokens = front ++ [.param Param.catchAll]) (all : ∀ s ∈ parts, IsSegment s)
    (fresh : groups.lookup (Pattern.nextGroup front) = none) :
    (swallow (Pattern.nextGroup front) (spell parts ++ ['/']) groups).map m.readGroups =
      (swallow (Pattern.nextGroup front) (spell parts ++ []) groups).map m.readGroups := by
  have read := Matcher.readGroups_cons isTokens fresh
  cases parts with
  | nil =>
    show some (m.readGroups _) = some (m.readGroups groups)
    rw [read, if_pos rfl]
  | cons s parts =>
    have nonempty : joinSegments (s :: parts) ≠ [] := by
      have := isEmpty_joinSegments all (List.cons_ne_nil s parts)
      rwa [List.isEmpty_eq_false_iff] at this
    have newline : '\n' ∈ joinSegments (s :: parts) ++ ['/'] ↔
        '\n' ∈ joinSegments (s :: parts) := by simp
    rw [List.append_nil, spell_eq_cons, List.cons_append, swallow, swallow]
    simp only [newline]
    split
    · rfl
    · rw [Option.map_some, Option.map_some, read, read, if_neg (by simp), if_neg nonempty,
        Matcher.readValue_append_slash]

end Recognizer

/-! ### Paths -/

namespace Matcher

open Recognizer (allot swallow)

variable {pattern path : String} {ci : Bool} {m : Matcher} {front : List Token}
  {parts : List (List Char)}

/-- A path may end with a slash or without, if the pattern is not strict and has segments. -/
theorem ending_of_lenient (compiled : ofPattern pattern ⟨ci, false⟩ = .ok m)
    (some : m.tokens ≠ []) : Recognizer.ending m.tokens false m.trailingSlash = .optional := by
  have notRoot : m.tokens.isEmpty = false := by simpa using some
  rw [Recognizer.ending, notRoot, (ofPattern_eq_ok compiled).2.1]
  rfl

/-- The slash is let through by the ending. -/
theorem recognize_append_slash_of_free (compiled : ofPattern pattern ⟨ci, false⟩ = .ok m)
    (free : ∀ p ∈ Pattern.params m.tokens, p.constraint = none) (nonempty : parts ≠ [])
    (all : ∀ s ∈ parts, IsSegment s) (isPath : path.toList = spell parts) :
    m.recognize (path ++ "/") = m.recognize path := by
  have isPath' := toList_append_slash isPath
  rw [recognize_divide compiled free all (boundary_slash []) rfl isPath',
    recognize_divide compiled free all boundary_nil rfl (isPath.trans (List.append_nil _).symm)]
  by_cases root : m.tokens = []
  · -- the pattern has no segments, but the path has some
    obtain ⟨s, rest, rfl⟩ := List.exists_cons_of_ne_nil nonempty
    rw [root, Pattern.divide, Option.map_none, ite_self, ite_self]
  · rw [ending_of_lenient compiled root]
    rfl

/-- The params of a path for a pattern that ends with a bare asterisk. -/
theorem recognize_swallow (compiled : ofPattern pattern ⟨ci, false⟩ = .ok m)
    (isTokens : m.tokens = front ++ [.param Param.catchAll])
    (free : ∀ p ∈ Pattern.params front, p.constraint = none) {tail : List Char}
    (all : ∀ s ∈ parts, IsSegment s) (boundary : Boundary tail) (last : nextSegment? tail = none)
    (isPath : path.toList = spell parts ++ tail) :
    m.recognize path =
      (allot (Recognizer.spells ci)
        (fun parts => swallow (Pattern.nextGroup front) (spell parts ++ tail)) 1 front parts
        []).map m.readGroups := by
  have tokenized := (ofPattern_eq_ok compiled).1
  have plain : Pattern.Plain m.tokens := by
    intro p member
    rw [isTokens, Pattern.params, List.filterMap_append, List.mem_append] at member
    rcases member with inFront | isLast
    · exact Or.inl (free p inFront)
    · exact Or.inr (List.mem_singleton.mp isLast)
  have isExpr := recognizer_expr_of_plain compiled plain
  have literals := Pattern.isSegment_of_mem_readTokens (Pattern.tokenize_eq_ok tokenized).1
  rw [ending_of_lenient compiled (by simp [isTokens]), isTokens] at isExpr
  rw [recognize_eq, isPath, Recognizer.search?_swallow (Recognizer.splits ci) isExpr free
    (fun t member => literals t (isTokens ▸ List.mem_append_left _ member)) all boundary last]

/-- A pattern that is not strict does not tell whether a path ends with a slash. -/
theorem recognize_append_slash (compiled : ofPattern pattern ⟨ci, false⟩ = .ok m)
    (h : Pattern.Open m.tokens) (nonempty : parts ≠ []) (all : ∀ s ∈ parts, IsSegment s)
    (isPath : path.toList = spell parts) : m.recognize (path ++ "/") = m.recognize path := by
  obtain ⟨front, isFront | isTokens, free⟩ := h
  · exact recognize_append_slash_of_free compiled (isFront ▸ free) nonempty all isPath
  · have isPath' := toList_append_slash isPath
    rw [recognize_swallow compiled isTokens free all (boundary_slash []) rfl
        isPath',
      recognize_swallow compiled isTokens free all boundary_nil rfl
        (isPath.trans (List.append_nil _).symm)]
    exact Recognizer.map_allot_congr
      (fun _ _ segments fresh => Recognizer.map_swallow_append_slash isTokens segments fresh) all
      fun _ _ => rfl

end Matcher
end Waymark
