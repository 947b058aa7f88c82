/-
Dividing segments among tokens.

A path is matched by giving each token of a pattern its share of the segments, in
order: one segment to literal text, and as many to a param as its marks allow.
`Pattern.divide` finds the preferred division, which gives each token in turn as many
segments as possible.

* `forall₂_of_divide` — what `divide` finds is a division;
* `exists_divide` — if there is any division, `divide` finds one, and none is greater
  when the sizes of the shares are compared from left to right.
-/
import Mathlib.Data.List.Forall2
import Mathlib.Data.List.Lex
import Waymark.Pattern.Token

namespace Waymark

/-- The segments that a token may stand for; `spells` tells which segments literal text matches. -/
def Token.Takes (spells : List Char → List Char → Bool) : Token → List (List Char) → Prop
  | literal text, share => ∃ s, share = [s] ∧ spells text.toList s = true
  | param p, share =>
    (p.optional = false → share ≠ []) ∧ (p.repeatable = false → share.length ≤ 1)

namespace Pattern

variable {spells : List Char → List Char → Bool} {tokens : List Token} {p : Param}

/-- The numbers from `n` down to zero. -/
def countdown : Nat → List Nat
  | 0 => [0]
  | n + 1 => (n + 1) :: countdown n

/-- The numbers of segments that a param may take of those that are left, the largest first. -/
def sizes (p : Param) (available : Nat) : List Nat :=
  (countdown (if p.repeatable then available else min available 1)).filter fun n =>
    p.optional || n ≠ 0

/-- The division of segments that gives each token in turn as many of them as possible. -/
def divide (spells : List Char → List Char → Bool) :
    List Token → List (List Char) → Option (List (List (List Char)))
  | [], [] => some []
  | [], _ :: _ => none
  | .literal _ :: _, [] => none
  | .literal text :: tokens, s :: segments =>
    if spells text.toList s then (divide spells tokens segments).map ([s] :: ·) else none
  | .param p :: tokens, segments =>
    (sizes p segments.length).findSome? fun n =>
      (divide spells tokens (segments.drop n)).map (segments.take n :: ·)

/-! ### Sizes of shares -/

theorem mem_countdown {m n : Nat} : m ∈ countdown n ↔ m ≤ n := by
  induction n with
  | zero => simp [countdown]
  | succ n ih =>
    rw [countdown, List.mem_cons, ih]
    omega

theorem pairwise_countdown (n : Nat) : (countdown n).Pairwise (· > ·) := by
  induction n with
  | zero => exact List.pairwise_singleton _ 0
  | succ n ih =>
    refine List.pairwise_cons.mpr ⟨fun m member => ?_, ih⟩
    have := mem_countdown.mp member
    omega

theorem countdown_succ (n : Nat) : countdown (n + 1) = (countdown n).map (· + 1) ++ [0] := by
  induction n with
  | zero => rfl
  | succ n ih =>
    calc countdown (n + 1 + 1) = (n + 1 + 1) :: countdown (n + 1) := rfl
      _ = (n + 1 + 1) :: ((countdown n).map (· + 1) ++ [0]) := by rw [ih]
      _ = (countdown (n + 1)).map (· + 1) ++ [0] := rfl

theorem mem_sizes {n available : Nat} : n ∈ sizes p available ↔
    n ≤ available ∧ (p.repeatable = false → n ≤ 1) ∧ (p.optional = false → n ≠ 0) := by
  have enough : n ≤ (if p.repeatable then available else min available 1) ↔
      n ≤ available ∧ (p.repeatable = false → n ≤ 1) := by
    cases p.repeatable with
    | true => simp
    | false =>
      rw [if_neg (by simp), Nat.le_min]
      simp
  have nonzero : (p.optional || n ≠ 0) = true ↔ (p.optional = false → n ≠ 0) := by
    cases p.optional <;> simp
  rw [sizes, List.mem_filter, mem_countdown, enough, nonzero, and_assoc]

/-- The numbers of segments that a param may take if it has to take some, the largest first. -/
def nonzeroSizes (p : Param) : Nat → List Nat
  | 0 => []
  | available + 1 => (countdown (if p.repeatable then available else 0)).map (· + 1)

theorem sizes_eq (p : Param) (available : Nat) :
    sizes p available = nonzeroSizes p available ++ if p.optional then [0] else [] := by
  cases available with
  | zero =>
    rw [sizes, Nat.zero_min, ite_self, countdown, List.filter_cons]
    cases p.optional <;> rfl
  | succ available =>
    have split : (if p.repeatable then available + 1 else min (available + 1) 1) =
        (if p.repeatable then available else 0) + 1 := by
      split
      · rfl
      · omega
    rw [sizes, split, countdown_succ, List.filter_append, nonzeroSizes]
    congr 1
    · refine List.filter_eq_self.mpr fun n member => ?_
      obtain ⟨m, -, rfl⟩ := List.mem_map.mp member
      simp
    · rw [List.filter_cons]
      cases p.optional <;> rfl

theorem pairwise_sizes (p : Param) (available : Nat) : (sizes p available).Pairwise (· > ·) :=
  (pairwise_countdown _).filter _

/-! ### The preferred division -/

/-- What is found is a division. -/
theorem forall₂_of_divide {segments : List (List Char)} {shares : List (List (List Char))}
    (h : divide spells tokens segments = some shares) :
    List.Forall₂ (Token.Takes spells) tokens shares ∧ shares.flatten = segments := by
  induction tokens generalizing segments shares with
  | nil =>
    cases segments with
    | nil =>
      obtain rfl := Option.some.inj h
      exact ⟨.nil, rfl⟩
    | cons s segments => exact absurd h (by simp [divide])
  | cons token tokens ih =>
    cases token with
    | literal text =>
      cases segments with
      | nil => exact absurd h (by simp [divide])
      | cons s segments =>
        rw [divide] at h
        split at h
        · rename_i same
          obtain ⟨others, found, rfl⟩ := Option.map_eq_some_iff.mp h
          obtain ⟨takes, flat⟩ := ih found
          exact ⟨.cons ⟨s, rfl, same⟩ takes, by rw [List.flatten_cons, flat]; rfl⟩
        · exact absurd h (by simp)
    | param p =>
      rw [divide] at h
      obtain ⟨n, size, found⟩ := List.exists_of_findSome?_eq_some h
      obtain ⟨others, foundOthers, rfl⟩ := Option.map_eq_some_iff.mp found
      obtain ⟨takes, flat⟩ := ih foundOthers
      -- the sizes that are tried are those that the marks of the param allow
      obtain ⟨enough, single, required⟩ := mem_sizes.mp size
      have length : (segments.take n).length = n := List.length_take_of_le enough
      refine ⟨.cons ⟨fun isRequired empty => ?_, fun isSingle => ?_⟩ takes, ?_⟩
      · rw [empty] at length
        exact required isRequired length.symm
      · rw [length]
        exact single isSingle
      · rw [List.flatten_cons, flat, List.take_append_drop]

/-- The first of descending numbers at which a search succeeds is the greatest one. -/
theorem findSome?_greatest {α : Type} {f : Nat → Option α} {l : List Nat}
    (descending : l.Pairwise (· > ·)) {n : Nat} (member : n ∈ l) {a : α} (found : f n = some a) :
    ∃ m ∈ l, ∃ b, l.findSome? f = some b ∧ f m = some b ∧ n ≤ m := by
  induction l with
  | nil => exact absurd member List.not_mem_nil
  | cons m rest ih =>
    obtain ⟨above, descending⟩ := List.pairwise_cons.mp descending
    -- the head is the greatest, so it is the answer if the search succeeds there
    cases search : f m with
    | some b =>
      refine ⟨m, List.mem_cons_self, b, by rw [List.findSome?_cons, search], search, ?_⟩
      rcases List.mem_cons.mp member with rfl | member
      · exact Nat.le_refl _
      · exact Nat.le_of_lt (above n member)
    | none =>
      rcases List.mem_cons.mp member with rfl | member
      · rw [search] at found
        exact absurd found (by simp)
      · obtain ⟨m', inRest, b, first, found', greater⟩ := ih descending member
        refine ⟨m', List.mem_cons_of_mem _ inRest, b, ?_, found', greater⟩
        rw [List.findSome?_cons, search]
        exact first

/-- The first division gives the tokens larger shares than the second, compared from left to
right. -/
def Exceeds (shares others : List (List (List Char))) : Prop :=
  List.Lex (· < ·) (others.map List.length) (shares.map List.length)

/-- Of two different divisions of the same segments, one exceeds the other. -/
theorem exceeds_of_not_exceeds {shares others : List (List (List Char))}
    (same : shares.flatten = others.flatten) (differ : others ≠ shares)
    (h : ¬ Exceeds others shares) : Exceeds shares others := by
  by_contra other
  -- a division is determined by its text and the sizes of its shares
  refine differ (List.eq_iff_flatten_eq.mpr ⟨same.symm, ?_⟩)
  exact Std.Trichotomous.trichotomous (r := List.Lex (· < ·)) _ _ other h

theorem not_exceeds_cons {share share' : List (List Char)} {shares others : List (List (List Char))}
    (h : share.length < share'.length ∨ share.length = share'.length ∧ ¬ Exceeds shares others) :
    ¬ Exceeds (share :: shares) (share' :: others) := by
  intro exceeds
  rw [Exceeds] at exceeds
  rw [List.map_cons, List.map_cons] at exceeds
  generalize share.length = m at exceeds h
  generalize share'.length = n at exceeds h
  cases exceeds with
  | rel more => omega
  | cons others => exact h.elim (Nat.lt_irrefl _) fun both => both.2 others

/-- If there is any division, one is found, and no other one exceeds it. -/
theorem exists_divide {shares : List (List (List Char))}
    (h : List.Forall₂ (Token.Takes spells) tokens shares) :
    ∃ best, divide spells tokens shares.flatten = some best ∧ ¬ Exceeds shares best := by
  induction h with
  | nil => exact ⟨[], rfl, fun exceeds => nomatch exceeds⟩
  | @cons token share tokens shares takes _ ih =>
    obtain ⟨best, found, least⟩ := ih
    cases token with
    | literal text =>
      obtain ⟨s, rfl, same⟩ := takes
      refine ⟨[s] :: best, ?_, not_exceeds_cons (Or.inr ⟨rfl, least⟩)⟩
      rw [List.flatten_cons, List.singleton_append, divide, if_pos same, found, Option.map_some]
    | param p =>
      obtain ⟨required, single⟩ := takes
      generalize isAll : share ++ shares.flatten = all
      have drop : all.drop share.length = shares.flatten := by rw [← isAll, List.drop_left]
      have take : all.take share.length = share := by rw [← isAll, List.take_left]
      have size : share.length ∈ sizes p all.length := by
        refine mem_sizes.mpr ⟨by simp [← isAll], single, fun isRequired empty => ?_⟩
        exact required isRequired (List.eq_nil_of_length_eq_zero empty)
      -- the given share is among those that are tried, so some share is found
      let f : Nat → Option (List (List (List Char))) := fun n =>
        (divide spells tokens (all.drop n)).map (all.take n :: ·)
      have fits : f share.length = some (share :: best) := by
        simp only [f, drop, take, found, Option.map_some]
      obtain ⟨n, member, whole, first, foundN, greater⟩ :=
        findSome?_greatest (pairwise_sizes p _) size fits
      refine ⟨whole, by rw [List.flatten_cons, isAll, divide]; exact first, ?_⟩
      -- a larger share decides, an equal one leaves it to the other tokens
      rcases Nat.eq_or_lt_of_le greater with rfl | larger
      · rw [fits] at foundN
        obtain rfl := Option.some.inj foundN
        exact not_exceeds_cons (Or.inr ⟨rfl, least⟩)
      · obtain ⟨others, -, rfl⟩ := Option.map_eq_some_iff.mp foundN
        refine not_exceeds_cons (Or.inl ?_)
        rw [List.length_take_of_le (mem_sizes.mp member).1]
        exact larger

end Pattern
end Waymark
