/-
Params with constraints of their own.

A constraint is written in a group of its own, both in the text by which it is tested and in
the recognizer.  If it is enclosed there (`Regex.Enclosed`), both texts have the same group.

* `exists_stands` — such a constraint stands for an expression without numbered groups, under
  both switches for case; and if that can consume nothing, the test has found out.
* `exists_base` — the expressions for all params of a matcher.
-/
import Mathlib.Tactic.Choose
import Waymark.Proofs.Matcher.Build
import Waymark.Proofs.Regex.Enclosure
import Waymark.Proofs.Regex.Idle

namespace Waymark

open Regex Recognizer

/-! ### Enclosed constraints -/

namespace Regex

variable {source : String} {r : Regex} {tree : Tree} {e : Expr} {f f' : Flags}

/-- Switches that are changed in a group hold in the group only. -/
theorem settles_of_group {index : Option Nat} {changes : FlagChanges}
    (h : Expr.ofTree? f (.group index changes tree) = some (e, f')) :
    Settles f (.group index changes tree) e := by
  rw [Settles, h]
  rw [Expr.ofTree?] at h
  obtain ⟨⟨body, after⟩, -, isGroup⟩ := Option.bind_eq_some_iff.mp h
  cases index <;> exact congrArg some (Prod.ext rfl (Prod.mk.inj (Option.some.inj isGroup)).2.symm)

/-- A group that stands for an expression stands for one of the same outline whether or not case
matters. -/
theorem exists_settles_group {index : Option Nat} {changes : FlagChanges} {g : Flags}
    (alike : f.cased = g.cased) (h : Settles f (.group index changes tree) e) :
    ∃ e', Settles g (.group index changes tree) e' ∧ e'.outline = e.outline := by
  have related := rel_ofTree? alike (.group index changes tree)
  rw [show Expr.ofTree? f _ = some (e, f) from h] at related
  cases found : Expr.ofTree? g (.group index changes tree) with
  | none => rw [found] at related; cases related
  | some pair =>
    obtain ⟨e', g'⟩ := pair
    rw [found] at related
    cases related with
    | some same => exact ⟨e', settles_of_group found, same.1.symm⟩

/-- The text by which a constraint is tested. -/
theorem toList_probe (source : String) : (Recognizer.probe source).toList =
    ['^'] ++ (('(' :: '?' :: ':' :: (source.toList ++ [')'])) ++ ['$']) := by
  simp [Recognizer.probe, String.toList_append]

/-- What is tested stands between the start and the end of the text. -/
theorem expr_of_probe (writes : Writes 1 ('(' :: '?' :: ':' :: (source.toList ++ [')']))
      [.group none [] tree] 0)
    (h : ofSource? (Recognizer.probe source) = some r) :
    ∃ e, Settles {} (.group none [] tree) e ∧
      r.expr = .inSequence [.look .textStart, e, .look .textEnd] := by
  have start : Writes 1 ['^'] [.assertion .startLine] 0 := (adds_singleton fun _ _ => rfl).writes
  have stop : Writes 1 ['$'] [.assertion .endLine] 0 := (adds_singleton fun _ _ => rfl).writes
  have whole := writes_append start (writes_append writes stop (by simp)) (by simp)
  have isTree := @readAll_of_writes {} _ _ _ whole (by simp) rfl rfl rfl
  rw [← toList_probe] at isTree
  -- the group stands for something, because the whole does
  cases settled : Expr.ofTree? {} (.group none [] tree) with
  | none =>
    unfold ofSource? Tree.ofSource? at h
    rw [isTree] at h
    simp only [Option.bind_eq_bind, Option.bind_some] at h
    split at h
    · have nothing : Expr.ofTree? {} (.concat (([] : List Tree).reverse ++
          ([.assertion .startLine] ++ ([.group none [] tree] ++ [.assertion .endLine])))) =
          none := by
        show (Expr.allOf? {} (.group none [] tree :: [.assertion .endLine])).bind _ = none
        rw [Expr.allOf?, settled]
        rfl
      rw [Option.bind_some, nothing] at h
      exact absurd h (by simp)
    · exact absurd h (by simp)
  | some pair =>
    obtain ⟨e, f⟩ := pair
    have settles := settles_of_group settled
    refine ⟨e, settles, expr_of_readAll isTree (?_ : _ = some (_, {})) h⟩
    show Expr.allOf? {} [.assertion .startLine, .group none [] tree, .assertion .endLine] = _
    exact allOf?_of_settles (.cons rfl (.cons settles (.cons rfl .nil)))

/-- An expression that can consume nothing matches the empty text from its start to its end. -/
theorem isMatch_empty_of_idle (isExpr : r.expr = .inSequence [.look .textStart, e, .look .textEnd])
    (h : e.idle (·.holds (.start [])) = true) : r.isMatch "" = true := by
  have idle : r.expr.idle (·.holds (.start [])) = true := by
    rw [isExpr]
    simp only [Expr.inSequence, Expr.idle, h, Bool.and_true]
    rfl
  have found := r.expr.ends_ne_nil_of_idle idle (Point.in_start [])
  show ((r.expr.ends (.start [])).head?).isSome = true
  rwa [List.isSome_head?]

end Regex

/-! ### The expressions of params -/

/-- The constraint of the param, if it has one, is enclosed in its group. -/
def Param.Enclosed (p : Param) : Prop :=
  ∀ constraint, p.constraint = some constraint → Regex.Enclosed constraint

namespace Recognizer

variable {p : Param} {capable : Bool}

/-- A param stands for an expression without numbered groups.  If that can consume nothing, the test
of its constraint has found out. -/
theorem exists_stands (enclosed : p.Enclosed) (probed : Matcher.probe p = .ok capable) (ci : Bool) :
    ∃ e, Stands ci p e ∧ e.numbers = [] ∧
      (e.idle (·.holds (.start [])) = true → capable = true) := by
  cases isConstraint : p.constraint with
  | none => exact ⟨segment ci, stands_segment isConstraint, rfl, fun idle => nomatch idle⟩
  | some constraint =>
    obtain ⟨tree, adds, noCapture⟩ := adds_of_enclosed (enclosed constraint isConstraint)
    obtain ⟨r, isRegex, rfl⟩ := Matcher.exists_of_probe isConstraint probed
    obtain ⟨e, settles, isExpr⟩ := expr_of_probe adds.writes isRegex
    obtain ⟨e', settles', same⟩ := exists_settles_group (f := {}) (g := flags ci) rfl settles
    refine ⟨e', fun index => ⟨_, ?_, .cons settles' .nil⟩, ?_, fun idle => ?_⟩
    · rw [isConstraint]
      exact adds.writes
    · exact numbers_of_ofTree? _ settles' ((Nat.zero_add _).trans noCapture)
    · rw [← Expr.idle_outline, same, Expr.idle_outline] at idle
      exact isMatch_empty_of_idle isExpr idle

end Recognizer

namespace Matcher

variable {pattern : String} {options : PatternOptions} {m : Matcher}

/-- The expressions for the params of a matcher whose constraints are enclosed. -/
theorem exists_base (compiled : ofPattern pattern options = .ok m)
    (enclosed : ∀ p ∈ Pattern.params m.tokens, p.Enclosed) (ci : Bool) :
    ∃ base : Param → Expr, ∀ p ∈ Pattern.params m.tokens,
      Stands ci p (base p) ∧ (base p).numbers = [] ∧
        ((base p).idle (·.holds (.start [])) = true → p.name ∈ m.emptyCapable) := by
  have each : ∀ p ∈ Pattern.params m.tokens, ∃ e, Stands ci p e ∧ e.numbers = [] ∧
      (e.idle (·.holds (.start [])) = true → p.name ∈ m.emptyCapable) := by
    intro p member
    obtain ⟨tested, noted⟩ := forall_probe_of_probeAll (probeAll_of_ofPattern compiled)
    obtain ⟨capable, probed⟩ := tested p member
    obtain ⟨e, stands, groups, idle⟩ := exists_stands (enclosed p member) probed ci
    exact ⟨e, stands, groups, fun h => (noted p.name).mpr ⟨p, member, rfl, idle h ▸ probed⟩⟩
  have : Nonempty Regex.Expr := ⟨.empty⟩
  choose! base spec using each
  exact ⟨base, spec⟩

end Matcher
end Waymark
