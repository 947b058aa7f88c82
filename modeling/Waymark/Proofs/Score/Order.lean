/-
The comparison of scores.

Any two scores are ordered one way or the other, and only equal ones compare as equal
(`compare_swap`, `eq_of_compare_eq`).  But the comparison is not transitive: a pattern
outranks the pattern with one more segment that scores below zero, and that one may
outrank a longer pattern still, which then outranks the first.  `Circle` describes
three such scores.

* `Circle.outranks` — each of the three scores outranks the next one;
* `exists_circle` — wherever transitivity fails, the three scores form a circle.
-/
import Mathlib.Order.Basic
import Waymark.Score

namespace Waymark
namespace Score

/-! ### Two scores -/

theorem compareEntries_swap (as bs : List Int) :
    (compareEntries as bs).swap = compareEntries bs as := by
  fun_induction compareEntries as bs with
  | case1 => rfl
  | case2 b negative => simp [compareEntries, negative]
  | case3 b positive => simp [compareEntries, positive]
  | case4 => rfl
  | case5 a negative => simp [compareEntries, negative]
  | case6 a positive => simp [compareEntries, positive]
  | case7 => rfl
  | case8 a as b bs same ih =>
    have equal := Std.LawfulEqCmp.eq_of_compare same
    subst equal
    rw [ih, compareEntries, same]
  | case9 a as b bs undecided =>
    rw [compareEntries, ← Int.compare_swap a b]
    cases way : Ord.compare a b with
    | lt => rfl
    | eq => exact absurd way undecided
    | gt => rfl

theorem eq_of_compareEntries_eq {as bs : List Int} (h : compareEntries as bs = .eq) : as = bs := by
  fun_induction compareEntries as bs with
  | case1 => rfl
  | case2 => exact absurd h (by simp)
  | case3 => exact absurd h (by simp)
  | case4 => exact absurd h (by simp)
  | case5 => exact absurd h (by simp)
  | case6 => exact absurd h (by simp)
  | case7 => exact absurd h (by simp)
  | case8 a as b bs same ih => rw [Std.LawfulEqCmp.eq_of_compare same, ih h]
  | case9 a as b bs undecided => exact absurd h undecided

theorem compare_swap (s t : Score) : (s.compare t).swap = t.compare s :=
  compareEntries_swap s.entries t.entries

theorem eq_of_compare_eq {s t : Score} (h : s.compare t = .eq) : s = t :=
  congrArg Score.mk (eq_of_compareEntries_eq h)

theorem compare_self (s : Score) : s.compare s = .eq := by
  have swapped := compare_swap s s
  cases way : s.compare s with
  | eq => rfl
  | lt => rw [way] at swapped; exact absurd swapped (by simp)
  | gt => rw [way] at swapped; exact absurd swapped (by simp)

/-- The first score is not greater than the second if the second is not below the first. -/
theorem atMost_iff {s t : Score} : s.atMost t = true ↔ t.compare s ≠ .lt := by
  rw [atMost, bne_iff_ne, ← compare_swap t s]
  cases t.compare s <;> simp

theorem atMost_of_not_atMost {s t : Score} (h : ¬ s.atMost t = true) : t.atMost s = true := by
  rw [atMost, bne_iff_ne, not_not] at h
  rw [atMost_iff, h]
  simp

theorem atMost_self (s : Score) : s.atMost s = true := by
  rw [atMost, compare_self]
  rfl

/-! ### Three scores -/

/-- Three scores each of which outranks the next one, and the last one the first: one, the same
with one more segment below zero, and one that is longer still and not higher at that segment. -/
def Circle (s t u : Score) : Prop :=
  ∃ (front : List Int) (high low : Int) (more : List Int), high < 0 ∧ more ≠ [] ∧
    (low < high ∨ low = high ∧ ∃ last, last < 0 ∧ more = [last]) ∧
    s = ⟨front⟩ ∧ t = ⟨front ++ [high]⟩ ∧ u = ⟨front ++ low :: more⟩

theorem compareEntries_cons_self (a : Int) (as bs : List Int) :
    compareEntries (a :: as) (a :: bs) = compareEntries as bs := by
  rw [compareEntries, Std.compare_self]

theorem compareEntries_append (front as bs : List Int) :
    compareEntries (front ++ as) (front ++ bs) = compareEntries as bs := by
  induction front with
  | nil => rfl
  | cons a front ih => rw [List.cons_append, List.cons_append, compareEntries_cons_self, ih]

theorem Circle.outranks {s t u : Score} (h : Circle s t u) :
    s.compare t = .gt ∧ t.compare u = .gt ∧ u.compare s = .gt := by
  obtain ⟨front, high, low, more, negative, longer, below, rfl, rfl, rfl⟩ := h
  refine ⟨?_, ?_, ?_⟩
  · show compareEntries front (front ++ [high]) = .gt
    have cut := compareEntries_append front [] [high]
    rw [List.append_nil] at cut
    rw [cut, compareEntries, if_pos negative]
  · show compareEntries (front ++ [high]) (front ++ low :: more) = .gt
    rw [compareEntries_append]
    rcases below with lower | ⟨rfl, last, below, rfl⟩
    · rw [compareEntries, Int.compare_eq_gt.mpr lower]
    · rw [compareEntries_cons_self, compareEntries, if_pos below]
  · show compareEntries (front ++ low :: more) front = .gt
    have cut := compareEntries_append front (low :: more) []
    rw [List.append_nil] at cut
    rw [cut]
    cases more with
    | nil => exact absurd rfl longer
    | cons next rest => rfl

/-- A circle through the score that ends first. -/
theorem circle_of_nil {bs cs : List Int} (nonemptyB : bs ≠ []) (nonemptyC : cs ≠ [])
    (first : compareEntries [] bs ≠ .lt) (second : compareEntries bs cs ≠ .lt)
    (third : compareEntries cs [] ≠ .lt) :
    ∃ high low more, high < 0 ∧ more ≠ [] ∧
      (low < high ∨ low = high ∧ ∃ last, last < 0 ∧ more = [last]) ∧
      bs = [high] ∧ cs = low :: more := by
  match bs, cs with
  | [], _ => exact absurd rfl nonemptyB
  | _, [] => exact absurd rfl nonemptyC
  | _ :: _ :: _, _ :: _ => exact absurd rfl first
  | [high], [low] =>
    have negative : high < 0 := by
      by_contra h
      simp [compareEntries, h] at first
    have positive : ¬ low < 0 := by
      intro h
      simp [compareEntries, h] at third
    -- then the second score would be below the third
    have lower : Ord.compare high low = .lt := Int.compare_eq_lt.mpr (by omega)
    rw [compareEntries, lower] at second
    exact absurd rfl second
  | [high], low :: next :: rest =>
    have negative : high < 0 := by
      by_contra h
      simp [compareEntries, h] at first
    refine ⟨high, low, next :: rest, negative, by simp, ?_, rfl, rfl⟩
    cases way : Ord.compare high low with
    | lt =>
      rw [compareEntries, way] at second
      exact absurd rfl second
    | gt => exact Or.inl (Int.compare_eq_gt.mp way)
    | eq =>
      have same := Std.LawfulEqCmp.eq_of_compare way
      subst same
      rw [compareEntries_cons_self] at second
      -- the second score is over here, so the third has one entry left, below zero
      cases rest with
      | cons _ _ => exact absurd rfl second
      | nil =>
        refine Or.inr ⟨rfl, next, ?_, rfl⟩
        by_contra h
        simp [compareEntries, h] at second

/-- The head of the one that is not below has to be as high. -/
theorem compareEntries_cons_ne_lt {a b : Int} {as bs : List Int}
    (h : compareEntries (a :: as) (b :: bs) ≠ .lt) :
    b < a ∨ a = b ∧ compareEntries as bs ≠ .lt := by
  cases way : Ord.compare a b with
  | lt =>
    rw [compareEntries, way] at h
    exact absurd rfl h
  | gt => exact Or.inl (Int.compare_eq_gt.mp way)
  | eq =>
    have same := Std.LawfulEqCmp.eq_of_compare way
    subst same
    rw [compareEntries_cons_self] at h
    exact Or.inr ⟨rfl, h⟩

theorem Circle.cons {as bs cs : List Int} (a : Int) (h : Circle ⟨as⟩ ⟨bs⟩ ⟨cs⟩) :
    Circle ⟨a :: as⟩ ⟨a :: bs⟩ ⟨a :: cs⟩ := by
  obtain ⟨front, high, low, more, negative, longer, below, isS, isT, isU⟩ := h
  cases isS
  cases isT
  cases isU
  exact ⟨a :: as, high, low, more, negative, longer, below, rfl, rfl, rfl⟩

theorem Circle.of_nil {bs cs : List Int} (nonemptyB : bs ≠ []) (nonemptyC : cs ≠ [])
    (first : compareEntries [] bs ≠ .lt) (second : compareEntries bs cs ≠ .lt)
    (third : compareEntries cs [] ≠ .lt) : Circle ⟨[]⟩ ⟨bs⟩ ⟨cs⟩ := by
  obtain ⟨high, low, more, negative, longer, below, rfl, rfl⟩ :=
    circle_of_nil nonemptyB nonemptyC first second third
  exact ⟨[], high, low, more, negative, longer, below, rfl, rfl, rfl⟩

/-- Three entry lists that go round, whichever of them ends first. -/
theorem circle_of_entries {as bs cs : List Int} (first : compareEntries as bs ≠ .lt)
    (second : compareEntries bs cs ≠ .lt) (third : compareEntries cs as ≠ .lt)
    (ab : as ≠ bs) (bc : bs ≠ cs) (ca : cs ≠ as) :
    Circle ⟨as⟩ ⟨bs⟩ ⟨cs⟩ ∨ Circle ⟨bs⟩ ⟨cs⟩ ⟨as⟩ ∨ Circle ⟨cs⟩ ⟨as⟩ ⟨bs⟩ := by
  induction as generalizing bs cs with
  | nil => exact Or.inl (.of_nil ab.symm ca first second third)
  | cons a as ih =>
    cases bs with
    | nil => exact Or.inr (Or.inl (.of_nil bc.symm ab second third first))
    | cons b bs =>
      cases cs with
      | nil => exact Or.inr (Or.inr (.of_nil ca.symm bc third first second))
      | cons c cs =>
        -- going round, no head can be higher than the next one
        have headB := compareEntries_cons_ne_lt first
        have headC := compareEntries_cons_ne_lt second
        have headA := compareEntries_cons_ne_lt third
        obtain rfl : a = b := by omega
        obtain rfl : a = c := by omega
        have restB : compareEntries as bs ≠ .lt := by simpa using headB
        have restC : compareEntries bs cs ≠ .lt := by simpa using headC
        have restA : compareEntries cs as ≠ .lt := by simpa using headA
        have around := ih restB restC restA (fun same => ab (by rw [same]))
          (fun same => bc (by rw [same])) (fun same => ca (by rw [same]))
        exact around.imp (Circle.cons a) (Or.imp (Circle.cons a) (Circle.cons a))

/-- Wherever transitivity fails, the three scores form a circle. -/
theorem exists_circle {s t u : Score} (first : t.atMost s = true) (second : u.atMost t = true)
    (third : ¬ u.atMost s = true) : Circle s t u ∨ Circle t u s ∨ Circle u s t := by
  refine circle_of_entries (atMost_iff.mp first) (atMost_iff.mp second)
    (atMost_iff.mp (atMost_of_not_atMost third)) ?_ ?_ ?_
  · intro same
    obtain rfl : s = t := congrArg Score.mk same
    exact third second
  · intro same
    obtain rfl : t = u := congrArg Score.mk same
    exact third first
  · intro same
    obtain rfl : u = s := congrArg Score.mk same
    exact third (atMost_self u)

end Score
end Waymark
