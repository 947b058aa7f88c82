/-
Sets of code points.

A set is a list of closed ranges, in any order and possibly overlapping: a code
point belongs to the set when some range covers it.  Each operation comes with the
lemma that says what belongs to its result.  Tables write a set as a text of
run lengths, which `CodeSet.ofRuns` reads.
-/

namespace Waymark.Unicode

/-- A set of code points, as the ranges `(low, high)` that make it up. -/
structure CodeSet where
  ranges : List (Nat × Nat)
  deriving Repr, DecidableEq

namespace CodeSet

/-- The largest code point. -/
def top : Nat := 0x10FFFF

/-- Whether the range holds the code point. -/
def covers (n : Nat) (r : Nat × Nat) : Bool := r.1 ≤ n && n ≤ r.2

/-- Whether the code point belongs to the set. -/
def contains (s : CodeSet) (n : Nat) : Bool := s.ranges.any (covers n)

/-- Whether the character belongs to the set. -/
def has (s : CodeSet) (c : Char) : Bool := s.contains c.toNat

/-- The set without members. -/
def empty : CodeSet := ⟨[]⟩

/-- The code points from `low` to `high`. -/
def range (low high : Nat) : CodeSet := ⟨[(low, high)]⟩

/-- One code point. -/
def single (n : Nat) : CodeSet := range n n

/-- One character. -/
def ofChar (c : Char) : CodeSet := single c.toNat

/-- The characters of a list. -/
def ofChars (cs : List Char) : CodeSet := ⟨cs.map fun c => (c.toNat, c.toNat)⟩

/-- Every code point. -/
def all : CodeSet := range 0 top

/-- What belongs to either set. -/
def union (s t : CodeSet) : CodeSet := ⟨s.ranges ++ t.ranges⟩

/-- What belongs to some set of the list. -/
def unions (sets : List CodeSet) : CodeSet := ⟨sets.flatMap (·.ranges)⟩

/-- The parts of a range that lie below and above another one. -/
def outside (cut r : Nat × Nat) : List (Nat × Nat) :=
  (if r.1 < cut.1 then [(r.1, min r.2 (cut.1 - 1))] else []) ++
    (if cut.2 < r.2 then [(max r.1 (cut.2 + 1), r.2)] else [])

/-- A range that ends before it begins covers nothing and has nothing to cut away. -/
def removeRange (s : CodeSet) (cut : Nat × Nat) : CodeSet :=
  if cut.1 ≤ cut.2 then ⟨s.ranges.flatMap (outside cut)⟩ else s

/-- What belongs to the first set only. -/
def difference (s t : CodeSet) : CodeSet := t.ranges.foldl removeRange s

/-- What does not belong to the set. -/
def complement (s : CodeSet) : CodeSet := all.difference s

/-- What belongs to both sets. -/
def inter (s t : CodeSet) : CodeSet :=
  ⟨s.ranges.flatMap fun a => t.ranges.filterMap fun b =>
    if max a.1 b.1 ≤ min a.2 b.2 then some (max a.1 b.1, min a.2 b.2) else none⟩

/-- What belongs to exactly one of the sets. -/
def symmetricDifference (s t : CodeSet) : CodeSet :=
  (s.difference t).union (t.difference s)

/-- Whether every member is an ASCII character. -/
def isAscii (s : CodeSet) : Bool := s.ranges.all fun r => r.2 ≤ 0x7F || r.2 < r.1

theorem contains_empty (n : Nat) : empty.contains n = false := rfl

theorem contains_range (low high n : Nat) :
    (range low high).contains n = (decide (low ≤ n) && decide (n ≤ high)) := by
  simp [contains, range, covers]

theorem contains_single (m n : Nat) : (single m).contains n = decide (m = n) := by
  rw [single, contains_range, ← Bool.decide_and]
  exact decide_eq_decide.2 ⟨fun h => by omega, fun h => by omega⟩

theorem contains_union (s t : CodeSet) (n : Nat) :
    (s.union t).contains n = (s.contains n || t.contains n) := by
  simp [contains, union]

theorem contains_all {n : Nat} (h : n ≤ top) : all.contains n = true := by
  simp [all, contains_range, h]

theorem any_covers_outside (cut r : Nat × Nat) (h : cut.1 ≤ cut.2) (n : Nat) :
    (outside cut r).any (covers n) = (covers n r && !covers n cut) := by
  rw [Bool.eq_iff_iff]
  simp only [outside, covers, List.any_append, Bool.or_eq_true, Bool.and_eq_true,
    Bool.not_eq_true', Bool.and_eq_false_iff, decide_eq_true_eq, decide_eq_false_iff_not]
  split <;> split <;> simp only [covers, List.any_cons, List.any_nil, Bool.or_false,
    Bool.and_eq_true, decide_eq_true_eq, Bool.false_eq_true, or_false, false_or, false_iff] <;>
    omega

theorem contains_removeRange (s : CodeSet) (cut : Nat × Nat) (n : Nat) :
    (s.removeRange cut).contains n = (s.contains n && !covers n cut) := by
  unfold removeRange
  split
  · rename_i h
    simp only [contains, List.any_flatMap]
    induction s.ranges with
    | nil => rfl
    | cons r rest ih =>
      simp only [List.any_cons, any_covers_outside cut r h n, ih]
      cases covers n r <;> cases covers n cut <;> simp
  · rename_i h
    have : covers n cut = false := by
      simp only [covers, Bool.and_eq_false_iff, decide_eq_false_iff_not]
      omega
    simp [this]

theorem contains_difference (s t : CodeSet) (n : Nat) :
    (s.difference t).contains n = (s.contains n && !t.contains n) := by
  unfold difference
  have step : ∀ (cuts : List (Nat × Nat)) (s : CodeSet),
      (cuts.foldl removeRange s).contains n = (s.contains n && !cuts.any (covers n)) := by
    intro cuts
    induction cuts with
    | nil => intro s; simp
    | cons cut rest ih =>
      intro s
      rw [List.foldl_cons, ih, contains_removeRange]
      simp only [List.any_cons, Bool.not_or, Bool.and_assoc]
  exact step t.ranges s

theorem contains_complement (s : CodeSet) {n : Nat} (h : n ≤ top) :
    s.complement.contains n = !s.contains n := by
  rw [complement, contains_difference, contains_all h, Bool.true_and]

theorem contains_inter (s t : CodeSet) (n : Nat) :
    (s.inter t).contains n = (s.contains n && t.contains n) := by
  rw [Bool.eq_iff_iff, Bool.and_eq_true]
  simp only [contains, inter, covers, List.any_eq_true, List.mem_flatMap, List.mem_filterMap,
    Bool.and_eq_true, decide_eq_true_eq]
  constructor
  · rintro ⟨r, ⟨a, inS, b, inT, isRange⟩, within⟩
    split at isRange
    · rw [← Option.some.inj isRange] at within
      exact ⟨⟨a, inS, by omega⟩, ⟨b, inT, by omega⟩⟩
    · exact absurd isRange (by simp)
  · rintro ⟨⟨a, inS, within⟩, b, inT, within'⟩
    refine ⟨(max a.1 b.1, min a.2 b.2), ⟨a, inS, b, inT, if_pos (by omega)⟩, ?_⟩
    simp only
    omega

/-- The number that a digit of a run text stands for; thirty-two and more means that the
number goes on with the next digit. -/
def runDigit (c : Char) : Nat :=
  if c.isDigit then c.toNat - '0'.toNat
  else if c.isUpper then c.toNat - 'A'.toNat + 10
  else if c.isLower then c.toNat - 'a'.toNat + 36
  else if c = '+' then 62
  else 63

/-- The numbers of a run text, read with the digits before `cs` amounting to `high`. -/
def runNumbers : Nat → List Char → List Nat
  | _, [] => []
  | high, c :: cs =>
    if runDigit c < 32 then (high * 32 + runDigit c) :: runNumbers 0 cs
    else runNumbers (high * 32 + (runDigit c - 32)) cs

/-- The ranges given by pairs of a gap and a length less one, from `start` on. -/
def rangesOfRuns : Nat → List Nat → List (Nat × Nat)
  | start, gap :: extra :: rest =>
    (start + gap, start + gap + extra) :: rangesOfRuns (start + gap + extra + 1) rest
  | _, _ => []

/-- The set that a run text describes. -/
def ofRuns (text : String) : CodeSet := ⟨rangesOfRuns 0 (runNumbers 0 text.toList)⟩

theorem head?_runNumbers_append {high number : Nat} {cs : List Char}
    (h : (runNumbers high cs).head? = some number) (ds : List Char) :
    (runNumbers high (cs ++ ds)).head? = some number := by
  induction cs generalizing high with
  | nil => exact absurd h (by simp [runNumbers])
  | cons c cs ih =>
    rw [runNumbers] at h
    rw [List.cons_append, runNumbers]
    split
    · rename_i last
      rwa [if_pos last] at h
    · rename_i more
      rw [if_neg more] at h
      exact ih h

theorem contains_rangesOfRuns {start n : Nat} {numbers : List Nat} (h : n < start) :
    contains ⟨rangesOfRuns start numbers⟩ n = false := by
  fun_induction rangesOfRuns start numbers with
  | case1 start gap extra rest ih =>
    have later := ih (by omega)
    simp only [contains, List.any_cons, Bool.or_eq_false_iff, covers] at later ⊢
    exact ⟨by simp; omega, later⟩
  | case2 => rfl

/-- A set begins with the first number of its run text. -/
theorem contains_ofRuns {text : String} {n first : Nat}
    (h : (runNumbers 0 text.toList).head? = some first) (below : n < first) :
    (ofRuns text).contains n = false := by
  rw [ofRuns]
  generalize runNumbers 0 text.toList = numbers at h
  match numbers with
  | [] => rfl
  | [_] => rfl
  | gap :: extra :: rest =>
    obtain rfl := Option.some.inj h
    have later := @contains_rangesOfRuns (0 + gap + extra + 1) n rest (by omega)
    simp only [contains, rangesOfRuns, List.any_cons, Bool.or_eq_false_iff, covers] at later ⊢
    exact ⟨by simp; omega, later⟩

theorem contains_unions (sets : List CodeSet) (n : Nat) :
    (unions sets).contains n = sets.any (·.contains n) := by
  simp only [contains, unions, List.any_flatMap]

end CodeSet

/-- A set with the loose names it goes by and the lines of its run text. -/
structure NamedSet where
  names : List String
  runs : List String

namespace NamedSet

/-- Whether the set goes by the name. -/
def hasName (s : NamedSet) (name : String) : Bool := s.names.contains name

/-- The code points of the set. -/
def codes (s : NamedSet) : CodeSet := CodeSet.ofRuns (String.join s.runs)

end NamedSet

/-- A set of a table begins with the first number of its first line. -/
theorem contains_tabled {table : List NamedSet} {name : String} {line : List Char} {n first : Nat}
    (h : (table.find? (·.hasName name)).bind (·.runs.head?) = some (String.ofList line))
    (isFirst : (CodeSet.runNumbers 0 line).head? = some first) (below : n < first) :
    (((table.find? (·.hasName name)).map (·.codes)).getD CodeSet.empty).contains n = false := by
  obtain ⟨s, found, isLine⟩ := Option.bind_eq_some_iff.mp h
  obtain ⟨lines, isLines⟩ := List.head?_eq_some_iff.mp isLine
  rw [found]
  refine @CodeSet.contains_ofRuns _ _ first ?_ below
  rw [isLines, String.join_cons, String.toList_append, String.toList_ofList]
  exact CodeSet.head?_runNumbers_append isFirst _

end Waymark.Unicode
