/-
Texts made of segments.

`Path.spell` writes segments one after the other, each with a slash in front.  Any text
that begins with a slash is a spelled list of segments and a rest in which no further
segment begins, in exactly one way.

* `segments_joinSegments` — joined segments are told apart again;
* `exists_spell`, `spell_append_inj` — the segments of a text, and their uniqueness;
* `isCanonicalChars_spell` — spelled segments are a canonical path;
* `isCanonicalChars_normalizeChars` — and so is the canonical form of any text;
* `mem_normalizeChars_iff` — which has the same characters, slashes apart;
* `exists_spell_of_isCanonical` — the segments of a canonical path without a slash at its end.
-/
import Mathlib.Data.List.TakeWhile
import Waymark.Text.Path

namespace Waymark.Path

variable {s cs tail : List Char} {parts : List (List Char)}

/-- A text that may stand between slashes. -/
def IsSegment (s : List Char) : Prop := s ≠ [] ∧ '/' ∉ s

/-- Segments one after the other, each with a slash in front. -/
def spell (parts : List (List Char)) : List Char := parts.flatMap ('/' :: ·)

@[simp] theorem spell_nil : spell [] = [] := rfl

@[simp] theorem spell_cons (s : List Char) (parts : List (List Char)) :
    spell (s :: parts) = '/' :: (s ++ spell parts) := rfl

theorem spell_append (parts others : List (List Char)) :
    spell (parts ++ others) = spell parts ++ spell others := List.flatMap_append

theorem spell_eq_cons (s : List Char) (parts : List (List Char)) :
    spell (s :: parts) = '/' :: joinSegments (s :: parts) := by
  induction parts generalizing s with
  | nil => rw [spell_cons, spell_nil, List.append_nil, joinSegments]
  | cons t rest ih =>
    rw [spell_cons, ih]
    rfl

theorem joinSegments_cons (s : List Char) (parts : List (List Char)) :
    joinSegments (s :: parts) = s ++ spell parts :=
  (List.cons.inj (spell_eq_cons s parts)).2.symm

/-! ### Joined segments -/

theorem slash_append (cs : List Char) : "/" ++ String.ofList cs = String.ofList ('/' :: cs) := by
  rw [← String.toList_inj]
  simp

theorem intercalate_ofList (parts : List (List Char)) :
    "/".intercalate (parts.map String.ofList) = String.ofList (joinSegments parts) := by
  induction parts with
  | nil => rfl
  | cons s rest ih =>
    cases rest with
    | nil => rw [List.map_singleton, String.intercalate_singleton, joinSegments]
    | cons t rest =>
      rw [List.map_cons, String.intercalate_cons_of_ne_nil (by simp), ih, String.append_assoc,
        slash_append, ← String.ofList_append]
      rfl

theorem pieces_of_noSlash (h : '/' ∉ s) : pieces s = [s] := by
  induction s with
  | nil => rfl
  | cons c rest ih =>
    rw [List.mem_cons, not_or] at h
    rw [pieces, if_neg (Ne.symm h.1), ih h.2]

theorem pieces_append (h : '/' ∉ s) (cs : List Char) :
    pieces (s ++ '/' :: cs) = s :: pieces cs := by
  induction s with
  | nil => rw [List.nil_append, pieces, if_pos rfl]
  | cons c rest ih =>
    rw [List.mem_cons, not_or] at h
    rw [List.cons_append, pieces, if_neg (Ne.symm h.1), ih h.2]

/-- Joined segments are told apart again. -/
theorem segments_joinSegments (all : ∀ s ∈ parts, IsSegment s) :
    segments (joinSegments parts) = parts := by
  have whole : ∀ s rest, (∀ t ∈ s :: rest, IsSegment t) →
      pieces (joinSegments (s :: rest)) = s :: rest := by
    intro s rest
    induction rest generalizing s with
    | nil =>
      intro all
      rw [joinSegments, pieces_of_noSlash (all s List.mem_cons_self).2]
    | cons t rest ih =>
      intro all
      have others := ih t fun x member => all x (List.mem_cons_of_mem _ member)
      rw [joinSegments, pieces_append (all s List.mem_cons_self).2, others]
      simp
  cases parts with
  | nil => rfl
  | cons s rest =>
    rw [segments, whole s rest all, List.filter_eq_self]
    intro t member
    rw [Bool.not_eq_true', List.isEmpty_eq_false_iff]
    exact (all t member).1

theorem pieces_ne_nil (cs : List Char) : pieces cs ≠ [] := by
  cases cs with
  | nil => simp [pieces]
  | cons c cs =>
    rw [pieces]
    split
    · simp
    · split <;> simp

theorem pieces_append_slash (cs : List Char) : pieces (cs ++ ['/']) = pieces cs ++ [[]] := by
  induction cs with
  | nil => rfl
  | cons c cs ih =>
    obtain ⟨piece, rest, isPieces⟩ := List.exists_cons_of_ne_nil (pieces_ne_nil cs)
    rw [List.cons_append, pieces, pieces, ih, isPieces]
    split <;> rfl

/-- A slash at the end is no segment. -/
theorem segments_append_slash (cs : List Char) : segments (cs ++ ['/']) = segments cs := by
  rw [segments, pieces_append_slash, List.filter_append]
  exact List.append_nil _

/-- A slash in front is none either. -/
theorem segments_cons_slash (cs : List Char) : segments ('/' :: cs) = segments cs := by
  rw [segments, pieces, if_pos rfl]
  rfl

theorem segments_spell (all : ∀ s ∈ parts, IsSegment s) : segments (spell parts) = parts := by
  cases parts with
  | nil => rfl
  | cons s rest => rw [spell_eq_cons, segments_cons_slash, segments_joinSegments all]

/-! ### The segments of a text -/

/-- A place where a segment may begin or end: a slash follows, or nothing. -/
def Boundary (cs : List Char) : Prop := ∀ c, cs.head? = some c → c = '/'

/-- The segment that begins here, and what follows it. -/
def nextSegment? (cs : List Char) : Option (List Char × List Char) :=
  match cs with
  | [] => none
  | c :: rest =>
    if c = '/' ∧ rest.takeWhile (· ≠ '/') ≠ [] then
      some (rest.takeWhile (· ≠ '/'), rest.dropWhile (· ≠ '/'))
    else none

theorem boundary_nil : Boundary [] := fun _ h => absurd h (by simp)

theorem boundary_slash (cs : List Char) : Boundary ('/' :: cs) :=
  fun _ head => (Option.some.inj head).symm

theorem boundary_append {ds : List Char} (first : Boundary cs) (second : Boundary ds) :
    Boundary (cs ++ ds) := by
  cases cs with
  | nil => exact second
  | cons c cs => exact first

theorem boundary_spell (h : Boundary tail) : Boundary (spell parts ++ tail) := by
  cases parts with
  | nil => exact h
  | cons s rest => exact boundary_slash _

/-- What is left from the next slash on. -/
theorem boundary_dropWhile (cs : List Char) : Boundary (cs.dropWhile (· ≠ '/')) := by
  intro c head
  have stops := List.head?_dropWhile_not (fun x => decide (x ≠ '/')) cs
  rw [head] at stops
  simpa using stops

theorem takeWhile_append (noSlash : '/' ∉ s) (h : Boundary tail) :
    (s ++ tail).takeWhile (· ≠ '/') = s ∧ (s ++ tail).dropWhile (· ≠ '/') = tail := by
  induction s with
  | nil =>
    cases tail with
    | nil => exact ⟨rfl, rfl⟩
    | cons c rest =>
      obtain rfl := h c rfl
      exact ⟨rfl, rfl⟩
  | cons c rest ih =>
    rw [List.mem_cons, not_or] at noSlash
    obtain ⟨take, drop⟩ := ih noSlash.2
    have keep : c ≠ '/' := Ne.symm noSlash.1
    rw [List.cons_append, List.takeWhile_cons_of_pos (by simpa using keep),
      List.dropWhile_cons_of_pos (by simpa using keep), take, drop]
    exact ⟨rfl, rfl⟩

theorem nextSegment?_append (segment : IsSegment s) (h : Boundary tail) :
    nextSegment? ('/' :: (s ++ tail)) = some (s, tail) := by
  obtain ⟨take, drop⟩ := takeWhile_append segment.2 h
  rw [nextSegment?, take, drop, if_pos ⟨rfl, segment.1⟩]

theorem nextSegment?_spell (segment : IsSegment s) (h : Boundary tail) :
    nextSegment? (spell (s :: parts) ++ tail) = some (s, spell parts ++ tail) := by
  rw [spell_cons, List.cons_append, List.append_assoc,
    nextSegment?_append segment (boundary_spell h)]

theorem nextSegment?_eq_some {rest : List Char} (h : nextSegment? cs = some (s, rest)) :
    cs = '/' :: (s ++ rest) ∧ IsSegment s ∧ Boundary rest := by
  unfold nextSegment? at h
  split at h
  · exact absurd h (by simp)
  · rename_i c after
    split at h
    · rename_i begins
      simp only [Option.some.injEq, Prod.mk.injEq] at h
      obtain ⟨rfl, rfl⟩ := h
      refine ⟨?_, ⟨begins.2, ?_⟩, boundary_dropWhile after⟩
      · rw [List.takeWhile_append_dropWhile, begins.1]
      · intro member
        simpa using List.mem_takeWhile_imp member
    · exact absurd h (by simp)

theorem boundary_of_nextSegment?_eq_none {rest : List Char}
    (h : nextSegment? ('/' :: rest) = none) : Boundary rest := by
  intro c head
  by_contra different
  cases rest with
  | nil => exact absurd head (by simp)
  | cons d rest =>
    obtain rfl := Option.some.inj head
    have begins : (d :: rest).takeWhile (· ≠ '/') ≠ [] := by
      rw [List.takeWhile_cons_of_pos (by simpa using different)]
      simp
    rw [nextSegment?, if_pos ⟨rfl, begins⟩] at h
    exact absurd h (by simp)

/-- Every text that begins with a slash is spelled by segments, up to a rest without any. -/
theorem exists_spell (h : Boundary cs) : ∃ parts tail, cs = spell parts ++ tail ∧
    (∀ s ∈ parts, IsSegment s) ∧ Boundary tail ∧ nextSegment? tail = none := by
  induction len : cs.length using Nat.strong_induction_on generalizing cs with
  | _ n ih =>
    cases next : nextSegment? cs with
    | none => exact ⟨[], cs, rfl, by simp, h, next⟩
    | some pair =>
      obtain ⟨s, rest⟩ := pair
      obtain ⟨rfl, segment, boundary⟩ := nextSegment?_eq_some next
      have shorter : rest.length < n := by
        rw [← len, List.length_cons, List.length_append]
        omega
      obtain ⟨parts, tail, rfl, all, others⟩ := ih rest.length shorter boundary rfl
      refine ⟨s :: parts, tail, by simp, ?_, others⟩
      intro t member
      rcases List.mem_cons.mp member with rfl | member
      · exact segment
      · exact all t member

/-- There is only one way to spell a text. -/
theorem spell_append_inj {others : List (List Char)} {tail' : List Char}
    (all : ∀ s ∈ parts, IsSegment s) (all' : ∀ s ∈ others, IsSegment s) (h : Boundary tail)
    (h' : Boundary tail') (last : nextSegment? tail = none) (last' : nextSegment? tail' = none)
    (same : spell parts ++ tail = spell others ++ tail') : parts = others ∧ tail = tail' := by
  induction parts generalizing others with
  | nil =>
    cases others with
    | nil => exact ⟨rfl, same⟩
    | cons t rest =>
      have next := @nextSegment?_spell _ _ rest (all' t List.mem_cons_self) h'
      rw [← same, spell_nil, List.nil_append, last] at next
      exact absurd next (by simp)
  -- both spellings begin with the segment that begins the text
  | cons s parts ih =>
    have next := @nextSegment?_spell _ _ parts (all s List.mem_cons_self) h
    rw [same] at next
    cases others with
    | nil =>
      rw [spell_nil, List.nil_append, last'] at next
      exact absurd next (by simp)
    | cons t rest =>
      rw [nextSegment?_spell (all' t List.mem_cons_self) h'] at next
      simp only [Option.some.injEq, Prod.mk.injEq] at next
      obtain ⟨rfl, sameRest⟩ := next
      obtain ⟨rfl, sameTail⟩ := ih (fun x member => all x (List.mem_cons_of_mem _ member))
        (fun x member => all' x (List.mem_cons_of_mem _ member)) sameRest.symm
      exact ⟨rfl, sameTail⟩

/-! ### Canonical paths -/

theorem hasDoubleSlash_append (noSlash : '/' ∉ s) (cs : List Char) :
    hasDoubleSlash (s ++ cs) = hasDoubleSlash cs := by
  induction s with
  | nil => rfl
  | cons c rest ih =>
    rw [List.mem_cons, not_or] at noSlash
    rw [List.cons_append, ← ih noSlash.2, hasDoubleSlash]
    rintro rest' rfl
    exact absurd rfl noSlash.1

theorem hasDoubleSlash_spell (all : ∀ s ∈ parts, IsSegment s) (cs : List Char) :
    hasDoubleSlash (spell parts ++ cs) = hasDoubleSlash cs := by
  induction parts with
  | nil => rfl
  | cons s parts ih =>
    have isSegment := all s List.mem_cons_self
    obtain ⟨c, rest, isText⟩ := List.exists_cons_of_ne_nil isSegment.1
    have inside : c ≠ '/' := fun same => isSegment.2 (by simp [isText, same])
    rw [spell_cons, List.cons_append, List.append_assoc, hasDoubleSlash,
      hasDoubleSlash_append isSegment.2]
    · exact ih fun t member => all t (List.mem_cons_of_mem _ member)
    · rintro after -
      rw [isText, List.cons_append, List.cons.injEq]
      exact fun both => inside both.1

theorem mem_of_mem_spell {c : Char} (other : c ≠ '/') (member : c ∈ spell parts) :
    ∃ s ∈ parts, c ∈ s := by
  obtain ⟨s, inParts, inText⟩ := List.mem_flatMap.mp member
  exact ⟨s, inParts, (List.mem_cons.mp inText).resolve_left other⟩

theorem isCanonicalChars_iff : isCanonicalChars cs = true ↔
    cs.head? = some '/' ∧ hasDoubleSlash cs = false ∧ '\\' ∉ cs := by
  simp only [isCanonicalChars, Bool.and_eq_true, beq_iff_eq, Bool.not_eq_true',
    List.contains_eq_mem, decide_eq_false_iff_not, and_assoc]

/-- Segments without backslashes spell a canonical path, with or without a slash at the end. -/
theorem isCanonicalChars_spell (nonempty : parts ≠ []) (all : ∀ s ∈ parts, IsSegment s)
    (plain : ∀ s ∈ parts, '\\' ∉ s) (h : tail = [] ∨ tail = ['/']) :
    isCanonicalChars (spell parts ++ tail) = true := by
  have head : (spell parts ++ tail).head? = some '/' := by
    obtain ⟨s, rest, rfl⟩ := List.exists_cons_of_ne_nil nonempty
    rfl
  have noDouble : hasDoubleSlash (spell parts ++ tail) = false := by
    rw [hasDoubleSlash_spell all]
    rcases h with rfl | rfl <;> rfl
  have noBackslash : '\\' ∉ spell parts ++ tail := by
    intro member
    rcases List.mem_append.mp member with inSpell | inTail
    · obtain ⟨s, inParts, inSegment⟩ := mem_of_mem_spell (by decide) inSpell
      exact plain s inParts inSegment
    · rcases h with rfl | rfl
      · exact absurd inTail List.not_mem_nil
      · exact absurd inTail (by decide)
  exact isCanonicalChars_iff.mpr ⟨head, noDouble, noBackslash⟩

theorem mem_of_mem_pieces {c : Char} (h : s ∈ pieces cs) (member : c ∈ s) : c ∈ cs := by
  induction cs generalizing s with
  | nil =>
    rw [pieces, List.mem_singleton] at h
    exact h ▸ member
  | cons d rest ih =>
    rw [pieces] at h
    split at h
    · rcases List.mem_cons.mp h with rfl | h
      · exact absurd member List.not_mem_nil
      · exact List.mem_cons_of_mem _ (ih h member)
    · split at h
      · rename_i first others isPieces
        rw [isPieces] at ih
        rcases List.mem_cons.mp h with rfl | h
        · rcases List.mem_cons.mp member with rfl | member
          · exact List.mem_cons_self
          · exact List.mem_cons_of_mem _ (ih List.mem_cons_self member)
        · exact List.mem_cons_of_mem _ (ih (List.mem_cons_of_mem _ h) member)
      · rw [List.mem_singleton.mp h, List.mem_singleton] at member
        exact member ▸ List.mem_cons_self

theorem exists_mem_pieces {c : Char} (other : c ≠ '/') (member : c ∈ cs) : ∃ s ∈ pieces cs, c ∈ s := by
  induction cs with
  | nil => exact absurd member List.not_mem_nil
  | cons d rest ih =>
    obtain ⟨piece, others, isPieces⟩ := List.exists_cons_of_ne_nil (pieces_ne_nil rest)
    rw [isPieces] at ih
    rw [pieces, isPieces]
    rcases List.mem_cons.mp member with rfl | member
    · rw [if_neg other]
      exact ⟨c :: piece, List.mem_cons_self, List.mem_cons_self⟩
    · obtain ⟨s, inPieces, inside⟩ := ih member
      split
      · exact ⟨s, List.mem_cons_of_mem _ inPieces, inside⟩
      · rcases List.mem_cons.mp inPieces with rfl | inPieces
        · exact ⟨d :: s, List.mem_cons_self, List.mem_cons_of_mem _ inside⟩
        · exact ⟨s, List.mem_cons_of_mem _ inPieces, inside⟩

theorem not_mem_of_mem_pieces (h : s ∈ pieces cs) : '/' ∉ s := by
  induction cs generalizing s with
  | nil =>
    rw [pieces, List.mem_singleton] at h
    exact h ▸ List.not_mem_nil
  | cons d rest ih =>
    rw [pieces] at h
    split at h
    · rcases List.mem_cons.mp h with rfl | h
      · exact List.not_mem_nil
      · exact ih h
    · rename_i inside
      split at h
      · rename_i first others isPieces
        rw [isPieces] at ih
        rcases List.mem_cons.mp h with rfl | h
        · rw [List.mem_cons, not_or]
          exact ⟨Ne.symm inside, ih List.mem_cons_self⟩
        · exact ih (List.mem_cons_of_mem _ h)
      · rw [List.mem_singleton.mp h, List.mem_singleton]
        exact Ne.symm inside

theorem isSegment_of_mem_segments (h : s ∈ segments cs) : IsSegment s := by
  obtain ⟨inPieces, nonempty⟩ := List.mem_filter.mp h
  exact ⟨by simpa using nonempty, not_mem_of_mem_pieces inPieces⟩

/-- Text without segments is made of slashes only. -/
theorem segments_eq_nil_iff : segments cs = [] ↔ ∀ c ∈ cs, c = '/' := by
  constructor
  · intro nothing c member
    by_contra other
    obtain ⟨s, inPieces, inside⟩ := exists_mem_pieces other member
    have listed : s ∈ segments cs :=
      List.mem_filter.mpr ⟨inPieces, by simpa using List.ne_nil_of_mem inside⟩
    rw [nothing] at listed
    exact absurd listed List.not_mem_nil
  · intro all
    rw [List.eq_nil_iff_forall_not_mem]
    intro s listed
    obtain ⟨nonempty, noSlash⟩ := isSegment_of_mem_segments listed
    obtain ⟨c, rest, rfl⟩ := List.exists_cons_of_ne_nil nonempty
    have inText := mem_of_mem_pieces (List.mem_filter.mp listed).1 List.mem_cons_self
    exact noSlash (all c inText ▸ List.mem_cons_self)

theorem not_mem_unifySlashes (cs : List Char) : '\\' ∉ unifySlashes cs := by
  intro member
  obtain ⟨c, -, isBackslash⟩ := List.mem_map.mp member
  split at isBackslash
  · exact absurd isBackslash (by decide)
  · rename_i other
    exact other isBackslash

/-- Other characters than slashes are kept. -/
theorem mem_rebuild_iff {c : Char} (other : c ≠ '/') : c ∈ rebuild cs ↔ c ∈ cs := by
  have inSegments : c ∈ cs ↔ ∃ s ∈ segments cs, c ∈ s := by
    refine ⟨fun member => ?_, fun ⟨s, inText, inside⟩ =>
      mem_of_mem_pieces (List.mem_filter.mp inText).1 inside⟩
    obtain ⟨s, inPieces, inside⟩ := exists_mem_pieces other member
    refine ⟨s, List.mem_filter.mpr ⟨inPieces, ?_⟩, inside⟩
    simpa using List.ne_nil_of_mem inside
  rw [inSegments, rebuild]
  split
  · rename_i nothing
    simp [nothing, other]
  · rename_i nonempty
    obtain ⟨s, rest, isSegments⟩ := List.exists_cons_of_ne_nil nonempty
    have ending : c ∉ if cs.getLast? = some '/' then ['/'] else [] := by split <;> simp [other]
    rw [isSegments, ← spell_eq_cons, ← isSegments, List.mem_append, or_iff_left ending]
    refine ⟨mem_of_mem_spell other, fun ⟨s, inText, inside⟩ => ?_⟩
    exact List.mem_flatMap.mpr ⟨s, inText, List.mem_cons_of_mem _ inside⟩

theorem mem_unifySlashes_iff {c : Char} (other : c ≠ '/') (plain : c ≠ '\\') :
    c ∈ unifySlashes cs ↔ c ∈ cs := by
  rw [unifySlashes, List.mem_map]
  constructor
  · rintro ⟨d, member, same⟩
    split at same
    · exact absurd same.symm other
    · exact same ▸ member
  · exact fun member => ⟨c, member, if_neg plain⟩

/-- A path has the characters of its canonical form, slashes and backslashes apart. -/
theorem mem_normalizeChars_iff {c : Char} (other : c ≠ '/') (plain : c ≠ '\\') :
    c ∈ normalizeChars cs ↔ c ∈ cs := by
  rw [normalizeChars]
  split
  · exact Iff.rfl
  · rw [mem_rebuild_iff other, mem_unifySlashes_iff other plain]

/-- The canonical form of a path is canonical. -/
theorem isCanonicalChars_normalizeChars (cs : List Char) :
    isCanonicalChars (normalizeChars cs) = true := by
  rw [normalizeChars]
  split
  · assumption
  · rw [rebuild]
    split
    · decide
    · rename_i nonempty
      obtain ⟨s, rest, isSegments⟩ := List.exists_cons_of_ne_nil nonempty
      rw [isSegments, ← spell_eq_cons, ← isSegments]
      refine isCanonicalChars_spell nonempty (fun _ member => isSegment_of_mem_segments member)
        (fun s member backslash => ?_) ?_
      · have inText := mem_of_mem_pieces (List.mem_filter.mp member).1 backslash
        exact not_mem_unifySlashes cs inText
      · split
        · exact Or.inr rfl
        · exact Or.inl rfl

/-- No backslash is left in a canonical form. -/
theorem not_mem_normalizeChars (cs : List Char) : '\\' ∉ normalizeChars cs :=
  (isCanonicalChars_iff.mp (isCanonicalChars_normalizeChars cs)).2.2

theorem hasDoubleSlash_normalize (path : String) :
    hasDoubleSlash (normalize path).toList = false := by
  rw [normalize, String.toList_ofList]
  exact (isCanonicalChars_iff.mp (isCanonicalChars_normalizeChars path.toList)).2.1

theorem boundary_of_isCanonicalChars (h : isCanonicalChars cs = true) : Boundary cs := by
  intro c first
  rw [(isCanonicalChars_iff.mp h).1] at first
  exact (Option.some.inj first).symm

theorem normalize_of_isCanonical {path : String} (h : isCanonical path = true) :
    normalize path = path := by
  rw [isCanonical] at h
  rw [normalize, normalizeChars, if_pos h, String.ofList_toList]

/-- A canonical text is spelled by segments, up to a slash at its end. -/
theorem exists_spell_of_isCanonicalChars (canonical : isCanonicalChars cs = true) :
    ∃ parts tail, cs = spell parts ++ tail ∧ (∀ s ∈ parts, IsSegment s) ∧
      (tail = [] ∨ tail = ['/']) := by
  have single := (isCanonicalChars_iff.mp canonical).2.1
  obtain ⟨parts, tail, isText, all, boundary, stops⟩ :=
    exists_spell (boundary_of_isCanonicalChars canonical)
  refine ⟨parts, tail, isText, all, ?_⟩
  cases tail with
  | nil => exact Or.inl rfl
  | cons c rest =>
    obtain rfl := boundary c rfl
    -- behind the slash there is no segment, and there is no other slash either
    cases rest with
    | nil => exact Or.inr rfl
    | cons d rest =>
      obtain rfl := boundary_of_nextSegment?_eq_none stops d rfl
      rw [isText, hasDoubleSlash_spell all] at single
      exact absurd single (by simp [hasDoubleSlash])

/-- A canonical path without a slash at its end is spelled by segments. -/
theorem exists_spell_of_isCanonical (canonical : isCanonical path = true)
    (last : path.toList.getLast? ≠ some '/') : ∃ parts, parts ≠ [] ∧ (∀ s ∈ parts, IsSegment s) ∧
      (∀ s ∈ parts, '\\' ∉ s) ∧ path.toList = spell parts := by
  obtain ⟨head, -, noBackslash⟩ := isCanonicalChars_iff.mp canonical
  obtain ⟨parts, tail, isPath, all, rfl | rfl⟩ := exists_spell_of_isCanonicalChars canonical
  · rw [List.append_nil] at isPath
    refine ⟨parts, ?_, all, fun s member inside => noBackslash ?_, isPath⟩
    · rintro rfl
      rw [isPath] at head
      exact absurd head (by simp)
    · rw [isPath]
      exact List.mem_flatMap.mpr ⟨s, member, List.mem_cons_of_mem _ inside⟩
  · exact absurd (by rw [isPath, List.getLast?_append]; rfl) last

theorem toList_append_slash {path : String} {cs : List Char} (isPath : path.toList = cs) :
    (path ++ "/").toList = cs ++ ['/'] := by
  rw [String.toList_append, isPath]
  rfl

theorem isCanonical_normalize (path : String) : isCanonical (normalize path) = true := by
  rw [isCanonical, normalize, String.toList_ofList]
  exact isCanonicalChars_normalizeChars path.toList

theorem normalize_normalize (path : String) : normalize (normalize path) = normalize path :=
  normalize_of_isCanonical (isCanonical_normalize path)

/-! ### Collapsed texts -/

theorem hasDoubleSlash_cons (c : Char) (cs : List Char) :
    hasDoubleSlash (c :: cs) = (decide (c = '/' ∧ cs.head? = some '/') || hasDoubleSlash cs) := by
  by_cases both : c = '/' ∧ cs.head? = some '/'
  · obtain ⟨rfl, head⟩ := both
    obtain ⟨rest, rfl⟩ := List.head?_eq_some_iff.mp head
    simp [hasDoubleSlash]
  · rw [decide_eq_false both, Bool.false_or, hasDoubleSlash]
    rintro rest rfl rfl
    exact both ⟨rfl, rfl⟩

theorem hasDoubleSlash_of_append (h : hasDoubleSlash (s ++ cs) = false) :
    hasDoubleSlash s = false ∧ hasDoubleSlash cs = false := by
  induction s with
  | nil => exact ⟨rfl, h⟩
  | cons c s ih =>
    rw [List.cons_append, hasDoubleSlash_cons, Bool.or_eq_false_iff, decide_eq_false_iff_not] at h
    obtain ⟨single, rest⟩ := ih h.2
    refine ⟨?_, rest⟩
    rw [hasDoubleSlash_cons, single, Bool.or_false, decide_eq_false_iff_not]
    rintro ⟨isSlash, head⟩
    exact h.1 ⟨isSlash, by rw [List.head?_append, head]; rfl⟩

theorem hasDoubleSlash_collapseFrom (afterSlash : Bool) (cs : List Char) :
    hasDoubleSlash (collapseFrom afterSlash cs) = false ∧
      (afterSlash = true → (collapseFrom afterSlash cs).head? ≠ some '/') := by
  induction cs generalizing afterSlash with
  | nil => exact ⟨rfl, fun _ => by simp [collapseFrom]⟩
  | cons c cs ih =>
    rw [collapseFrom]
    split
    · exact ⟨(ih true).1, fun _ => (ih true).2 rfl⟩
    · rename_i kept
      obtain ⟨single, apart⟩ := ih (decide (c = '/'))
      refine ⟨?_, fun after head => kept (by simpa [after] using Option.some.inj head)⟩
      rw [hasDoubleSlash_cons, single, Bool.or_false, decide_eq_false_iff_not]
      exact fun both => apart (decide_eq_true both.1) both.2

theorem mem_of_mem_collapseFrom {afterSlash : Bool} {c : Char} (h : c ∈ collapseFrom afterSlash cs) :
    c ∈ cs := by
  induction cs generalizing afterSlash with
  | nil => exact h
  | cons d cs ih =>
    rw [collapseFrom] at h
    split at h
    · exact List.mem_cons_of_mem _ (ih h)
    · rcases List.mem_cons.mp h with rfl | inside
      · exact List.mem_cons_self
      · exact List.mem_cons_of_mem _ (ih inside)

/-- A collapsed text has no two slashes in a row. -/
theorem hasDoubleSlash_collapse (path : String) :
    hasDoubleSlash (collapse path).toList = false := by
  rw [collapse, String.toList_ofList, collapseChars]
  split
  · exact (hasDoubleSlash_collapseFrom false _).1
  · rename_i relative
    have whole := (hasDoubleSlash_collapseFrom false path.toList).1
    rw [hasDoubleSlash_cons, whole, Bool.or_false, decide_eq_false_iff_not]
    rintro ⟨-, head⟩
    cases isText : path.toList with
    | nil => simp [isText, collapseFrom] at head
    | cons c cs => simp_all [collapseFrom]

/-- A text that slashes may stand around with no two of them in a row. -/
def Compact (s : List Char) : Prop :=
  s ≠ [] ∧ s.head? ≠ some '/' ∧ s.getLast? ≠ some '/' ∧ hasDoubleSlash s = false

theorem IsSegment.compact (h : IsSegment s) : Compact s := by
  refine ⟨h.1, fun head => h.2 (List.mem_of_head? head), fun last => h.2 (List.mem_of_getLast? last),
    ?_⟩
  have single := hasDoubleSlash_append h.2 []
  rwa [List.append_nil] at single

/-- Nothing is left out of a text without two slashes in a row. -/
theorem collapseFrom_append {afterSlash : Bool} (nonempty : s ≠ [])
    (front : afterSlash = true → s.head? ≠ some '/') (last : s.getLast? ≠ some '/')
    (single : hasDoubleSlash s = false) (cs : List Char) :
    collapseFrom afterSlash (s ++ cs) = s ++ collapseFrom false cs := by
  induction s generalizing afterSlash with
  | nil => exact absurd rfl nonempty
  | cons c s ih =>
    have kept : ¬ (decide (c = '/') && afterSlash) = true := by
      rw [Bool.and_eq_true, decide_eq_true_iff]
      rintro ⟨rfl, after⟩
      exact front after rfl
    rw [List.cons_append, collapseFrom, if_neg kept, List.cons_append]
    cases s with
    | nil =>
      have notSlash : c ≠ '/' := fun same => last (by rw [same]; rfl)
      rw [decide_eq_false notSlash, List.nil_append, List.nil_append]
    | cons d s =>
      rw [hasDoubleSlash_cons, Bool.or_eq_false_iff, decide_eq_false_iff_not] at single
      rw [ih (by simp) (fun after head => single.1 ⟨of_decide_eq_true after, head⟩)
        (by rwa [List.getLast?_cons_cons] at last) single.2]

theorem collapseFrom_spell (all : ∀ s ∈ parts, Compact s) (cs : List Char) :
    collapseFrom false (spell parts ++ cs) = spell parts ++ collapseFrom false cs := by
  induction parts with
  | nil => rfl
  | cons s parts ih =>
    obtain ⟨nonempty, head, last, single⟩ := all s List.mem_cons_self
    rw [spell_cons, List.cons_append, List.append_assoc, collapseFrom, if_neg (by simp),
      collapseFrom_append nonempty (fun _ => head) last single,
      ih fun t member => all t (List.mem_cons_of_mem _ member), List.cons_append, List.append_assoc]

theorem getLast?_spell (all : ∀ s ∈ parts, s ≠ [] ∧ s.getLast? ≠ some '/') :
    (spell parts).getLast? ≠ some '/' := by
  rcases List.eq_nil_or_concat parts with rfl | ⟨front, s, rfl⟩
  · simp
  · obtain ⟨nonempty, last⟩ := all s (by simp)
    rw [List.concat_eq_append, spell_append, spell_cons, spell_nil, List.append_nil,
      List.getLast?_append, List.getLast?_cons_of_ne_nil nonempty,
      List.getLast?_eq_some_getLast nonempty]
    rwa [List.getLast?_eq_some_getLast nonempty] at last

/-- Slashes at the end are trimmed, and nothing else. -/
theorem trimEnd_spell (all : ∀ s ∈ parts, Compact s) (slashes : ∀ c ∈ tail, c = '/') :
    trimEnd (spell parts ++ tail) = spell parts := by
  have stops := getLast?_spell fun s member => ⟨(all s member).1, (all s member).2.2.1⟩
  rw [trimEnd, List.reverse_append, List.dropWhile_append_of_pos (by simpa using slashes)]
  rw [← List.head?_reverse] at stops
  cases isText : (spell parts).reverse with
  | nil => rw [← List.reverse_reverse (spell parts), isText]; rfl
  | cons c cs =>
    rw [isText] at stops
    rw [List.dropWhile_cons_of_neg (by simpa using stops), ← isText, List.reverse_reverse]

end Waymark.Path
