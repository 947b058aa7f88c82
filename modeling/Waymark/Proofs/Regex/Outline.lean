/-
What does not hang on case.

Whether letters match without regard to their case decides which characters the sets of an
expression hold, and nothing else.  The outline of an expression leaves its sets out.

* `foldClosure_contains` — where there are no letters, even the sets are the same;
* `foldClosure_contains_slash` — and no set gains or loses the slash;
* `rel_bodySet?` — a class has a meaning under both switches or under neither;
* `rel_ofTree?` — so has a tree, and its two expressions have the same outline.
-/
import Mathlib.Logic.Basic
import Mathlib.Tactic.ByContra
import Waymark.Proofs.Unicode.Folding

namespace Waymark.Regex

open Unicode

/-! ### Characters without case -/

/-- A set without letters has nothing that differs from a member in case. -/
theorem foldClosure_contains {s : CodeSet} (low : ∀ n, s.contains n = true → n < 'A'.toNat)
    (n : Nat) : (foldClosure s).contains n = s.contains n := by
  have nothing : ∀ r ∈ foldRuns,
      (r.codes.filter fun n => s.contains n || s.contains (r.move n)) = [] := by
    intro r member
    rw [List.filter_eq_nil_iff]
    intro source inRun
    have covered := (proper_of_mem_foldRuns r member).mem_codes_iff.mp inRun
    have above : 'A'.toNat ≤ source :=
      Nat.le_trans (le_of_mem_foldRuns r member).1 (FoldRun.covers_iff.mp covered).1
    have above' := le_foldCode above
    rw [foldCode_of_covers member covered] at above'
    rw [Bool.or_eq_true, not_or]
    exact ⟨fun has => absurd (low _ has) (Nat.not_lt.mpr above),
      fun has => absurd (low _ has) (Nat.not_lt.mpr above')⟩
  rw [foldClosure_eq, List.flatMap_eq_nil_iff.mpr nothing, CodeSet.contains_union]
  simp [CodeSet.contains, CodeSet.ofChars]

/-- Whether a set has the slash does not hang on case. -/
theorem foldClosure_contains_slash (s : CodeSet) :
    (foldClosure s).contains '/'.toNat = s.contains '/'.toNat := by
  rw [Bool.eq_iff_iff]
  show (foldClosure s).has '/' = true ↔ s.has '/' = true
  rw [foldClosure_has_iff]
  constructor
  · rintro ⟨c, has, same⟩
    rwa [eq_of_caseFold_eq (by decide) same] at has
  · exact fun has => ⟨'/', has, rfl⟩

/-! ### Outlines -/

namespace Expr

/-- The expression with nothing in its sets. -/
def outline : Expr → Expr
  | .empty => .empty
  | .set _ => .set CodeSet.empty
  | .look condition => .look condition
  | .seq first second => .seq first.outline second.outline
  | .alt preferred other => .alt preferred.outline other.outline
  | .loop least most greedy body => .loop least most greedy body.outline
  | .group index body => .group index body.outline

theorem consumesNothing_outline (e : Expr) : e.outline.consumesNothing = e.consumesNothing := by
  induction e with
  | empty | set | look => rfl
  | seq first second ihFirst ihSecond => simp only [outline, consumesNothing, ihFirst, ihSecond]
  | alt preferred other ihPreferred ihOther =>
    simp only [outline, consumesNothing, ihPreferred, ihOther]
  | loop least most greedy body ih => exact ih
  | group index body ih => exact ih

theorem outline_repeated (least : Nat) (most : Option Nat) (greedy : Bool) (body : Expr) :
    (repeated least most greedy body).outline = repeated least most greedy body.outline := by
  rw [repeated, repeated, consumesNothing_outline]
  generalize (if body.consumesNothing then min least 1 else least) = least
  generalize (if body.consumesNothing then some ((most.map (min 1)).getD 1) else most) = most
  split
  · rfl
  · split <;> rfl

end Expr

/-! ### Switches -/

/-- The switches with the one for case turned off. -/
def Flags.cased (flags : Flags) : Flags := { flags with caseInsensitive := false }

variable {f g : Flags} {s t : CodeSet}

theorem Flags.cased_set (h : f.cased = g.cased) (change : Flag × Bool) :
    (f.set change).cased = (g.set change).cased := by
  obtain ⟨flag, on⟩ := change
  simp only [cased, mk.injEq, true_and] at h ⊢
  cases flag <;> simp [set, h]

theorem Flags.cased_apply (h : f.cased = g.cased) (changes : FlagChanges) :
    (f.apply changes).cased = (g.apply changes).cased := by
  unfold apply
  induction changes generalizing f g with
  | nil => exact h
  | cons change rest ih => exact ih (cased_set h change)

theorem Flags.unicode_eq (h : f.cased = g.cased) : f.unicode = g.unicode :=
  (congrArg unicode h : f.cased.unicode = g.cased.unicode)

/-! ### Sets -/

theorem isAscii_iff : s.isAscii = true ↔ ∀ n, 0x80 ≤ n → s.contains n = false := by
  simp only [CodeSet.isAscii, CodeSet.contains, CodeSet.covers, List.all_eq_true,
    List.any_eq_false, Bool.or_eq_true, Bool.and_eq_true, decide_eq_true_eq]
  constructor
  · intro h n above r member
    have := h r member
    omega
  · intro h r member
    by_contra beyond
    exact h r.2 (by omega) r member (by omega)

/-- Outside Unicode mode the sets have the same members above ASCII. -/
def SameAbove (unicode : Bool) (s t : CodeSet) : Prop :=
  unicode = false → ∀ n, 0x80 ≤ n → s.contains n = t.contains n

theorem SameAbove.refl (unicode : Bool) (s : CodeSet) : SameAbove unicode s s :=
  fun _ _ _ => rfl

theorem contains_foldSet (octets : f.unicode = false) {n : Nat} (above : 0x80 ≤ n) :
    (foldSet f s).contains n = s.contains n := by
  have outside : ∀ u : CodeSet, (u.inter AsciiClass.ascii.codes).contains n = false := by
    intro u
    rw [CodeSet.contains_inter, AsciiClass.codes, Bool.and_eq_false_iff]
    exact Or.inr (by simp [CodeSet.contains, CodeSet.covers]; omega)
  unfold foldSet
  split
  · rfl
  · rw [if_neg (by simp [octets]), CodeSet.contains_union, outside, Bool.or_false]

theorem SameAbove.foldSet (h : SameAbove f.unicode s t) (alike : f.cased = g.cased) :
    SameAbove f.unicode (foldSet f s) (foldSet g t) := by
  intro octets n above
  rw [contains_foldSet octets above, contains_foldSet (Flags.unicode_eq alike ▸ octets) above]
  exact h octets n above

/-- Only what is above ASCII decides whether a set may stay. -/
theorem SameAbove.isAscii_eq (h : SameAbove false s t) : s.isAscii = t.isAscii := by
  rw [Bool.eq_iff_iff, isAscii_iff, isAscii_iff]
  exact forall₂_congr fun n above => by rw [h rfl n above]

theorem SameAbove.difference (h : SameAbove false s t) (u : CodeSet) :
    SameAbove false (u.difference s) (u.difference t) := by
  intro octets n above
  rw [CodeSet.contains_difference, CodeSet.contains_difference, h octets n above]

theorem rel_orient? (h : SameAbove f.unicode s t) (alike : f.cased = g.cased) (negated : Bool) :
    Option.Rel (SameAbove f.unicode) (orient? f negated s) (orient? g negated t) := by
  unfold orient?
  rw [← Flags.unicode_eq alike]
  cases isUnicode : f.unicode with
  | true => exact .some fun octets => absurd octets (by simp)
  | false =>
    rw [isUnicode] at h
    have kept : ∀ {u v : CodeSet}, SameAbove false u v → Option.Rel (SameAbove false)
        (if u.isAscii then some u else none) (if v.isAscii then some v else none) := by
      intro u v same
      rw [same.isAscii_eq]
      split
      · exact .some same
      · exact .none
    cases negated with
    | true => exact kept (h.difference _)
    | false => exact kept h

theorem rel_code? (alike : f.cased = g.cased) (l : Literal) : l.code? f = l.code? g := by
  rw [Literal.code?, Literal.code?, Flags.unicode_eq alike]

theorem rel_propertySet? (alike : f.cased = g.cased) (query : PropertyQuery) (negated : Bool) :
    Option.Rel (SameAbove f.unicode) (query.set? f negated) (query.set? g negated) := by
  unfold PropertyQuery.set?
  rw [← Flags.unicode_eq alike]
  split
  · cases query.codes? with
    | none => exact .none
    | some s => exact rel_orient? ((SameAbove.refl _ s).foldSet alike) alike negated
  · exact .none

theorem SameAbove.union {s' t' : CodeSet} {unicode : Bool} (h : SameAbove unicode s t)
    (h' : SameAbove unicode s' t') : SameAbove unicode (s.union s') (t.union t') := by
  intro octets n above
  rw [CodeSet.contains_union, CodeSet.contains_union, h octets n above, h' octets n above]

theorem SameAbove.apply {s' t' : CodeSet} {unicode : Bool} (h : SameAbove unicode s t)
    (h' : SameAbove unicode s' t') (kind : ClassOperation) :
    SameAbove unicode (kind.apply s s') (kind.apply t t') := by
  intro octets n above
  cases kind <;>
    simp only [ClassOperation.apply, CodeSet.contains_inter, CodeSet.contains_difference,
      CodeSet.symmetricDifference, CodeSet.contains_union, h octets n above, h' octets n above]

/-! ### Classes -/

theorem rel_bind {α β : Type} {R : α → α → Prop} {S : β → β → Prop} {a b : Option α}
    {k l : α → Option β} (h : Option.Rel R a b) (step : ∀ x y, R x y → Option.Rel S (k x) (l y)) :
    Option.Rel S (a.bind k) (b.bind l) := by
  cases h with
  | none => exact .none
  | some related => exact step _ _ related

mutual

theorem rel_itemSet? (alike : f.cased = g.cased) (item : ClassItem) :
    Option.Rel (SameAbove f.unicode) (item.set? f) (item.set? g) := by
  match item with
  | .literal l =>
    rw [ClassItem.set?, ClassItem.set?, rel_code? alike]
    cases l.code? g with
    | none => exact .none
    | some n => exact .some (.refl _ _)
  | .range low high =>
    rw [ClassItem.set?, ClassItem.set?, rel_code? alike, rel_code? alike]
    cases low.code? g with
    | none => exact .none
    | some m =>
      cases high.code? g with
      | none => exact .none
      | some n => exact .some (.refl _ _)
  | .ascii kind negated =>
    rw [ClassItem.set?, ClassItem.set?]
    exact rel_orient? ((SameAbove.refl _ _).foldSet alike) alike negated
  | .short kind negated =>
    rw [ClassItem.set?, ClassItem.set?, ← Flags.unicode_eq alike]
    exact rel_orient? (.refl _ _) alike negated
  | .property query negated =>
    rw [ClassItem.set?, ClassItem.set?]
    exact rel_propertySet? alike query negated
  | .bracketed negated body =>
    rw [ClassItem.set?, ClassItem.set?]
    exact rel_bind (rel_bodySet? alike body) fun _ _ same =>
      rel_orient? (same.foldSet alike) alike negated

theorem rel_bodySet? (alike : f.cased = g.cased) (body : ClassBody) :
    Option.Rel (SameAbove f.unicode) (body.set? f) (body.set? g) := by
  match body with
  | .union items =>
    rw [ClassBody.set?, ClassBody.set?]
    exact rel_sets? alike items
  | .operation kind left right =>
    rw [ClassBody.set?, ClassBody.set?]
    exact rel_bind (rel_bodySet? alike left) fun _ _ first =>
      rel_bind (rel_bodySet? alike right) fun _ _ second =>
        .some ((first.foldSet alike).apply (second.foldSet alike) kind)

theorem rel_sets? (alike : f.cased = g.cased) (items : List ClassItem) :
    Option.Rel (SameAbove f.unicode) (ClassItem.sets? f items) (ClassItem.sets? g items) := by
  match items with
  | [] => exact .some (.refl _ _)
  | item :: rest =>
    rw [ClassItem.sets?, ClassItem.sets?]
    exact rel_bind (rel_itemSet? alike item) fun _ _ first =>
      rel_bind (rel_sets? alike rest) fun _ _ second => .some (first.union second)

end

/-! ### Trees -/

/-- The expressions have the same outline, and the switches after them differ at most in case. -/
def Alike (x y : Expr × Flags) : Prop := x.1.outline = y.1.outline ∧ x.2.cased = y.2.cased

theorem rel_literal (alike : f.cased = g.cased) (l : Literal) :
    Option.Rel (fun d e => d.outline = e.outline) (l.expr? f) (l.expr? g) := by
  unfold Literal.expr?
  rw [← Flags.unicode_eq alike]
  split
  · exact .none
  · split <;> split <;> exact .some rfl

theorem rel_dotSet? (alike : f.cased = g.cased) : dotSet? f = dotSet? g := by
  simp only [Flags.cased, Flags.mk.injEq, true_and] at alike
  simp only [dotSet?, alike]

theorem look_eq (alike : f.cased = g.cased) (kind : Assertion) : kind.look f = kind.look g := by
  simp only [Flags.cased, Flags.mk.injEq, true_and] at alike
  cases kind <;> simp only [Assertion.look, alike]

mutual

/-- A tree stands for an expression under both switches for case or under neither; the expressions
have the same outline. -/
theorem rel_ofTree? {f g : Flags} (alike : f.cased = g.cased) (tree : Tree) :
    Option.Rel Alike (Expr.ofTree? f tree) (Expr.ofTree? g tree) := by
  match tree with
  | .empty => exact .some ⟨rfl, alike⟩
  | .flags changes => exact .some ⟨rfl, Flags.cased_apply alike changes⟩
  | .literal l =>
    rw [Expr.ofTree?, Expr.ofTree?]
    exact rel_bind (rel_literal alike l) fun _ _ same => .some ⟨same, alike⟩
  | .dot =>
    rw [Expr.ofTree?, Expr.ofTree?, rel_dotSet? alike]
    cases dotSet? g with
    | none => exact .none
    | some s => exact .some ⟨rfl, alike⟩
  | .assertion kind =>
    rw [Expr.ofTree?, Expr.ofTree?, look_eq alike]
    exact .some ⟨rfl, alike⟩
  | .short kind negated =>
    rw [Expr.ofTree?, Expr.ofTree?, ← Flags.unicode_eq alike]
    exact rel_bind (rel_orient? (.refl _ _) alike negated) fun _ _ _ => .some ⟨rfl, alike⟩
  | .property query negated =>
    rw [Expr.ofTree?, Expr.ofTree?]
    exact rel_bind (rel_propertySet? alike query negated) fun _ _ _ => .some ⟨rfl, alike⟩
  | .bracketed negated body =>
    rw [Expr.ofTree?, Expr.ofTree?]
    exact rel_bind (rel_bodySet? alike body) fun _ _ same =>
      rel_bind (rel_orient? (same.foldSet alike) alike negated) fun _ _ _ => .some ⟨rfl, alike⟩
  | .repetition least most greedy sub =>
    rw [Expr.ofTree?, Expr.ofTree?]
    refine rel_bind (rel_ofTree? alike sub) ?_
    rintro ⟨d, f'⟩ ⟨e, g'⟩ ⟨same, alike'⟩
    have greed : f'.swapGreed = g'.swapGreed := 
      (congrArg Flags.swapGreed alike' : f'.cased.swapGreed = g'.cased.swapGreed)
    refine .some ⟨?_, alike'⟩
    show (Expr.repeated _ _ (greedy != f'.swapGreed) d).outline =
      (Expr.repeated _ _ (greedy != g'.swapGreed) e).outline
    rw [Expr.outline_repeated, Expr.outline_repeated, greed]
    exact congrArg _ same
  | .group index changes sub =>
    rw [Expr.ofTree?, Expr.ofTree?]
    refine rel_bind (rel_ofTree? (Flags.cased_apply alike changes) sub) ?_
    rintro ⟨d, f'⟩ ⟨e, g'⟩ ⟨same, -⟩
    cases index with
    | none => exact .some ⟨same, alike⟩
    | some index => exact .some ⟨congrArg (Expr.group index) same, alike⟩
  | .alternation branches =>
    rw [Expr.ofTree?, Expr.ofTree?]
    exact rel_anyOf? alike branches
  | .concat parts =>
    rw [Expr.ofTree?, Expr.ofTree?]
    exact rel_allOf? alike parts

theorem rel_allOf? {f g : Flags} (alike : f.cased = g.cased) (trees : List Tree) :
    Option.Rel Alike (Expr.allOf? f trees) (Expr.allOf? g trees) := by
  match trees with
  | [] => exact .some ⟨rfl, alike⟩
  | tree :: rest =>
    rw [Expr.allOf?, Expr.allOf?]
    refine rel_bind (rel_ofTree? alike tree) ?_
    rintro ⟨d, f'⟩ ⟨e, g'⟩ ⟨first, alike'⟩
    refine rel_bind (rel_allOf? alike' rest) ?_
    rintro ⟨d', f''⟩ ⟨e', g''⟩ ⟨second, alike''⟩
    exact .some ⟨congrArg₂ Expr.seq first second, alike''⟩

theorem rel_anyOf? {f g : Flags} (alike : f.cased = g.cased) (trees : List Tree) :
    Option.Rel Alike (Expr.anyOf? f trees) (Expr.anyOf? g trees) := by
  match trees with
  | [] => exact .some ⟨rfl, alike⟩
  | tree :: rest =>
    rw [Expr.anyOf?, Expr.anyOf?]
    refine rel_bind (rel_ofTree? alike tree) ?_
    rintro ⟨d, f'⟩ ⟨e, g'⟩ ⟨preferred, alike'⟩
    refine rel_bind (rel_anyOf? alike' rest) ?_
    rintro ⟨d', f''⟩ ⟨e', g''⟩ ⟨other, alike''⟩
    exact .some ⟨congrArg₂ Expr.alt preferred other, alike''⟩

end

end Waymark.Regex
