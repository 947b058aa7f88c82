/-
One expression that does what another one does.

An expression is simulated by a second one (`Expr.SimulatedBy`) if the second one matches wherever
the first one does, in every text whose characters are related to those of the first text.  The
groups may capture other texts, and a loop may prefer other rounds.  What follows the two is only
asked to succeed at the places that correspond to each other (`Carries`), so expressions are
compared part by part:

* `SimulatedBy.seq`, `SimulatedBy.optional`, `simulatedBy_inSequence` — parts of larger expressions;
* `SimulatedBy.star`, `SimulatedBy.plus` — the rounds of two loops.

In a loop the rounds get nearer to the end of the text, and the induction is on how near: what
follows is replaced by what follows near the end (`nearEnd`).
-/
import Waymark.Proofs.Regex.Run

namespace Waymark.Regex

open Point (Same In)
open Unicode (CodeSet)

variable {α : Type} {R : Char → Char → Prop} {text text' : List Char} {k k' : Point → Option α}
  {n : Nat} {p p' : Point}

/-- What succeeds at a place of the first text succeeds at each place of the second text that has
related characters ahead. -/
structure Carries (R : Char → Char → Prop) (text text' : List Char) (k k' : Point → Option α) :
    Prop where
  fair : Fair k
  fair' : Fair k'
  carries : ∀ p p' : Point, p.In text → p'.In text' → List.Forall₂ R p.rest p'.rest →
    (k p).isSome → (k' p').isSome

/-! ### Near the end of a text -/

/-- Fails unless fewer than `n` characters are left. -/
def nearEnd (n : Nat) (k : Point → Option α) (p : Point) : Option α :=
  if p.rest.length < n then k p else none

theorem nearEnd_of_lt (near : p.rest.length < n) : nearEnd n k p = k p := if_pos near

theorem isSome_nearEnd :
    (nearEnd n k p).isSome = true ↔ p.rest.length < n ∧ (k p).isSome = true := by
  rw [nearEnd]
  by_cases near : p.rest.length < n <;> simp [near]

theorem fair_nearEnd (fair : Fair k) (n : Nat) : Fair (nearEnd n k) := by
  intro p q same
  rw [nearEnd, nearEnd, same.rest, apply_ite Option.isSome, apply_ite Option.isSome, fair p q same]

/-- Behind an expression that consumes something, the end is nearer. -/
theorem run_nearEnd {e : Expr} (consuming : Consuming e.ends) (place : p.In text)
    (near : p.rest.length ≤ n) : e.run (nearEnd n k) p = e.run k p := by
  refine Expr.run_congr fun q listed => nearEnd_of_lt ?_
  have placeQ := e.in_of_mem_ends place listed
  have later := consuming p q listed
  have bound := placeQ.offset_le
  rw [place.length_rest] at near
  rw [placeQ.length_rest]
  omega

/-- What is carried over however near the end is carried over everywhere. -/
theorem carries_of_nearEnd (fair : Fair k) (fair' : Fair k')
    (near : ∀ n, Carries R text text' (nearEnd n k) (nearEnd n k')) : Carries R text text' k k' := by
  refine ⟨fair, fair', fun p p' place place' alike succeeds => ?_⟩
  have both := (near (p.rest.length + 1)).carries p p' place place' alike
  rw [isSome_nearEnd, isSome_nearEnd] at both
  exact (both ⟨Nat.lt_succ_self _, succeeds⟩).2

namespace Expr

/-- Wherever the first expression matches before something, so does the second one. -/
def SimulatedBy (R : Char → Char → Prop) (e e' : Expr) : Prop :=
  ∀ ⦃α : Type⦄ ⦃text text' : List Char⦄ ⦃k k' : Point → Option α⦄,
    Carries R text text' k k' → Carries R text text' (e.run k) (e'.run k')

variable {e e' first first' second second' : Expr} {es es' : List Expr} {s s' : CodeSet}

theorem simulatedBy_of_run (h : ∀ ⦃α : Type⦄ ⦃text text' : List Char⦄ ⦃k k' : Point → Option α⦄,
    Carries R text text' k k' → ∀ p p' : Point, p.In text → p'.In text' →
      List.Forall₂ R p.rest p'.rest → (e.run k p).isSome → (e'.run k' p').isSome) :
    e.SimulatedBy R e' :=
  fun _ _ _ _ _ carries =>
    ⟨fair_run carries.fair e, fair_run carries.fair' e', h carries⟩

theorem simulatedBy_empty : SimulatedBy R empty empty := by
  refine simulatedBy_of_run fun α text text' k k' carries p p' place place' alike => ?_
  rw [run_empty, run_empty]
  exact carries.carries p p' place place' alike

theorem simulatedBy_set (h : ∀ c d, R c d → s.has c = true → s'.has d = true) :
    SimulatedBy R (set s) (set s') := by
  refine simulatedBy_of_run fun α text text' k k' carries p p' place place' alike succeeds => ?_
  cases isRest : p.rest with
  | nil =>
    rw [run_set_of_nil s isRest] at succeeds
    exact absurd succeeds (by simp)
  | cons c rest =>
    rw [isRest] at alike
    obtain ⟨d, rest', related, others, isRest'⟩ := List.forall₂_cons_left_iff.mp alike
    rw [run_set_of_cons s isRest] at succeeds
    have has : s.has c = true := by
      by_contra outside
      rw [if_neg outside] at succeeds
      exact absurd succeeds (by simp)
    rw [if_pos has] at succeeds
    rw [run_set_of_cons s' isRest', if_pos (h c d related has)]
    exact carries.carries _ _ (place.next isRest) (place'.next isRest') others succeeds

theorem simulatedBy_textEnd : SimulatedBy R (look .textEnd) (look .textEnd) := by
  refine simulatedBy_of_run fun α text text' k k' carries p p' place place' alike => ?_
  have same : Look.textEnd.holds p = Look.textEnd.holds p' := by
    rw [Look.holds, Look.holds, Bool.eq_iff_iff, List.isEmpty_iff, List.isEmpty_iff,
      ← List.length_eq_zero_iff, ← List.length_eq_zero_iff, alike.length_eq]
  rw [run_look, run_look, ← same]
  by_cases atEnd : Look.textEnd.holds p = true
  · rw [if_pos atEnd, if_pos atEnd]
    exact carries.carries p p' place place' alike
  · rw [if_neg atEnd]
    exact fun succeeds => absurd succeeds (by simp)

theorem SimulatedBy.seq (h : first.SimulatedBy R first') (h' : second.SimulatedBy R second') :
    (first.seq second).SimulatedBy R (first'.seq second') := by
  refine simulatedBy_of_run fun α text text' k k' carries p p' place place' alike => ?_
  rw [run_seq carries.fair place, run_seq carries.fair' place']
  exact (h (h' carries)).carries p p' place place' alike

theorem SimulatedBy.group (h : e.SimulatedBy R e') (index : Nat) :
    (e.group index).SimulatedBy R (e'.group index) := by
  refine simulatedBy_of_run fun α text text' k k' carries p p' place place' alike => ?_
  rw [run_group, run_group]
  refine (h ⟨fair_capture carries.fair index p, fair_capture carries.fair' index p', ?_⟩).carries
    p p' place place' alike
  -- the places are the same, whatever has been captured
  intro q q' placeQ placeQ' alikeQ
  exact carries.carries (p.capture index q) (p'.capture index q')
    ⟨placeQ.before, placeQ.rest, placeQ.offset_le⟩
    ⟨placeQ'.before, placeQ'.rest, placeQ'.offset_le⟩ alikeQ

theorem SimulatedBy.optional (h : e.SimulatedBy R e') :
    (e.loop 0 (some 1) true).SimulatedBy R (e'.loop 0 (some 1) true) := by
  refine simulatedBy_of_run fun α text text' k k' carries p p' place place' alike => ?_
  rw [run_optional carries.fair place, run_optional carries.fair' place', Option.isSome_or,
    Option.isSome_or, Bool.or_eq_true, Bool.or_eq_true]
  exact Or.imp ((h carries).carries p p' place place' alike)
    (carries.carries p p' place place' alike)

/-! ### Loops -/

theorem SimulatedBy.star (h : e.SimulatedBy R e') (consuming : Consuming e.ends)
    (consuming' : Consuming e'.ends) :
    (e.loop 0 none true).SimulatedBy R (e'.loop 0 none true) := by
  intro α text text' k k' carries
  have fair := fair_run carries.fair (e.loop 0 none true)
  have fair' := fair_run carries.fair' (e'.loop 0 none true)
  refine carries_of_nearEnd fair fair' fun n => ?_
  induction n with
  | zero =>
    refine ⟨fair_nearEnd fair 0, fair_nearEnd fair' 0, fun p p' _ _ _ succeeds => ?_⟩
    exact absurd (isSome_nearEnd.mp succeeds).1 (Nat.not_lt_zero _)
  | succ n ih =>
    refine ⟨fair_nearEnd fair _, fair_nearEnd fair' _, fun p p' place place' alike succeeds => ?_⟩
    obtain ⟨near, succeeds⟩ := isSome_nearEnd.mp succeeds
    have near' : p'.rest.length < n + 1 := alike.length_eq ▸ near
    refine isSome_nearEnd.mpr ⟨near', ?_⟩
    -- behind one more round the end is nearer, and there the induction hypothesis holds
    have onward := (h ih).carries p p' place place' alike
    rw [run_nearEnd consuming place (Nat.le_of_lt_succ near),
      run_nearEnd consuming' place' (Nat.le_of_lt_succ near')] at onward
    rw [run_star carries.fair consuming place, Option.isSome_or, Bool.or_eq_true] at succeeds
    rw [run_star carries.fair' consuming' place', Option.isSome_or, Bool.or_eq_true]
    exact succeeds.imp onward (carries.carries p p' place place' alike)

theorem SimulatedBy.plus (h : e.SimulatedBy R e') (consuming : Consuming e.ends)
    (consuming' : Consuming e'.ends) :
    (e.loop 1 none true).SimulatedBy R (e'.loop 1 none true) := by
  refine simulatedBy_of_run fun α text text' k k' carries p p' place place' alike => ?_
  rw [run_plus carries.fair consuming place, run_plus carries.fair' consuming' place']
  exact (h (h.star consuming consuming' carries)).carries p p' place place' alike

/-! ### Sequences -/

theorem simulatedBy_inSequence (h : List.Forall₂ (SimulatedBy R) es es') :
    (inSequence es).SimulatedBy R (inSequence es') := by
  induction h with
  | nil => exact simulatedBy_empty
  | cons first _ ih => exact first.seq ih

end Expr
end Waymark.Regex
