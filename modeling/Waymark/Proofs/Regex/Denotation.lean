/-
The expressions that a text denotes.

A text denotes expressions (`Denotes`) if it writes trees that stand for them under the
switches in force.  What holds of writing is carried over from trees to expressions:

* `Denotes.append`, `Denotes.group`, `Denotes.capture`, `Denotes.repeated` — texts put
  together;
* `ofSource?_of_writes` — a whole text, in which the letters may have been made to match
  without regard to their case.
-/
import Mathlib.Data.List.Forall2
import Waymark.Proofs.Regex.Reading
import Waymark.Proofs.Regex.Run

namespace Waymark.Regex

variable {flags : Flags} {c : Char} {cs ds : List Char} {tree : Tree} {trees : List Tree} {e : Expr}
  {parts others : List Expr} {index opened opened' least : Nat} {most : Option Nat}

/-- The tree stands for the expression and does not change the switches. -/
def Settles (flags : Flags) (tree : Tree) (e : Expr) : Prop :=
  Expr.ofTree? flags tree = some (e, flags)

/-- The text writes parts that stand for the given expressions. -/
def Denotes (flags : Flags) (index : Nat) (cs : List Char) (parts : List Expr) (opened : Nat) :
    Prop :=
  ∃ trees, Writes index cs trees opened ∧ List.Forall₂ (Settles flags) trees parts

/-- Expressions one after the other; a single one stands for itself. -/
def Expr.gathered : List Expr → Expr
  | [e] => e
  | parts => inSequence parts

/-! ### Trees -/

theorem allOf?_of_settles (h : List.Forall₂ (Settles flags) trees parts) :
    Expr.allOf? flags trees = some (.inSequence parts, flags) := by
  induction h with
  | nil => rfl
  | cons first _ ih =>
    rw [Settles] at first
    rw [Expr.allOf?, first]
    show (Expr.allOf? flags _).bind _ = _
    rw [ih]
    rfl

theorem settles_inSequence (h : List.Forall₂ (Settles flags) trees parts) :
    Settles flags (.inSequence trees) (.gathered parts) := by
  have sequence := allOf?_of_settles h
  cases h with
  | nil => rfl
  | cons first rest =>
    cases rest with
    | nil => exact first
    | cons second rest => exact sequence

theorem settles_group (h : Settles flags tree e) : Settles flags (.group none [] tree) e := by
  unfold Settles at h ⊢
  rw [Expr.ofTree?]
  show (Expr.ofTree? flags tree).bind _ = _
  rw [h]
  rfl

theorem settles_capture (h : Settles flags tree e) :
    Settles flags (.group (some index) [] tree) (.group index e) := by
  unfold Settles at h ⊢
  rw [Expr.ofTree?]
  show (Expr.ofTree? flags tree).bind _ = _
  rw [h]
  rfl

theorem repeated_eq_loop (h : bounds? c = some (least, most))
    (consuming : e.consumesNothing = false) :
    Expr.repeated least most true e = .loop least most true e := by
  unfold bounds? at h
  split at h <;> cases h <;> simp [Expr.repeated, consuming]

theorem settles_repetition (greedy : flags.swapGreed = false)
    (h : bounds? c = some (least, most)) (consuming : e.consumesNothing = false)
    (body : Settles flags tree e) :
    Settles flags (.repetition least most true tree) (.loop least most true e) := by
  unfold Settles at body ⊢
  rw [Expr.ofTree?, body, ← repeated_eq_loop h consuming]
  show some (Expr.repeated least most (true != flags.swapGreed) e, flags) = _
  rw [greedy]
  rfl

theorem consumesNothing_gathered (h : e ∈ parts) (consuming : e.consumesNothing = false) :
    (Expr.gathered parts).consumesNothing = false := by
  -- one part that consumes something is enough for the sequence
  have sequence : ∀ parts : List Expr, e ∈ parts →
      (Expr.inSequence parts).consumesNothing = false := by
    intro parts
    induction parts with
    | nil => exact fun member => absurd member List.not_mem_nil
    | cons first rest ih =>
      intro member
      rw [Expr.inSequence, Expr.consumesNothing, Bool.and_eq_false_iff]
      rcases List.mem_cons.mp member with rfl | member
      · exact Or.inl consuming
      · exact Or.inr (ih member)
  cases parts with
  | nil => exact absurd h List.not_mem_nil
  | cons first rest =>
    cases rest with
    | nil => exact List.mem_singleton.mp h ▸ consuming
    | cons second rest => exact sequence (first :: second :: rest) h

/-! ### Texts -/

theorem denotes_nil : Denotes flags index [] [] 0 := ⟨[], writes_nil, .nil⟩

theorem Denotes.append (first : Denotes flags index cs parts opened)
    (second : Denotes flags (index + opened) ds others opened') (head : ds.head? ≠ some '?') :
    Denotes flags index (cs ++ ds) (parts ++ others) (opened + opened') := by
  obtain ⟨trees, writes, settles⟩ := first
  obtain ⟨trees', writes', settles'⟩ := second
  exact ⟨trees ++ trees', writes_append writes writes' head,
    List.rel_append settles settles'⟩

/-- A group that does not capture. -/
theorem Denotes.group (body : Denotes flags index cs parts opened) :
    Denotes flags index ('(' :: '?' :: ':' :: (cs ++ [')'])) [.gathered parts] opened := by
  obtain ⟨trees, writes, settles⟩ := body
  exact ⟨_, writes_group writes, .cons (settles_group (settles_inSequence settles)) .nil⟩

/-- A group that captures. -/
theorem Denotes.capture (body : Denotes flags (index + 1) cs parts opened)
    (head : cs.head? ≠ some '?') :
    Denotes flags index ('(' :: (cs ++ [')'])) [.group index (.gathered parts)] (opened + 1) := by
  obtain ⟨trees, writes, settles⟩ := body
  exact ⟨_, writes_capture writes head,
    .cons (settles_capture (settles_inSequence settles)) .nil⟩

/-- A group with a mark after it. -/
theorem Denotes.repeated (greedy : flags.swapGreed = false) (h : bounds? c = some (least, most))
    (body : Denotes flags index cs parts opened) (member : e ∈ parts)
    (consuming : e.consumesNothing = false) :
    Denotes flags index ('(' :: '?' :: ':' :: (cs ++ [')', c]))
      [.loop least most true (.gathered parts)] opened := by
  obtain ⟨trees, writes, settles⟩ := body
  refine ⟨_, writes_repeated h writes, .cons ?_ .nil⟩
  exact settles_repetition greedy h (consumesNothing_gathered member consuming)
    (settles_group (settles_inSequence settles))

/-- Quoted text. -/
theorem denotes_quoted {letter : Char → Expr}
    (h : ∀ c, Settles flags (.literal ⟨c, false⟩) (letter c)) (cs : List Char) :
    Denotes flags index (quoted cs) (cs.map letter) 0 := by
  refine ⟨_, writes_quoted cs, ?_⟩
  rw [List.forall₂_map_left_iff, List.forall₂_map_right_iff, List.forall₂_same]
  exact fun c _ => h c

/-! ### Whole texts -/

/-- The mark in front of a text whose letters match without regard to their case. -/
def caseMark (ci : Bool) : List Char := if ci then "(?i)".toList else []

theorem readAll_caseMark (ci : Bool) (cs : List Char) :
    readAll {} (caseMark ci ++ cs) =
      readAll (Reading.grow {} (if ci then [.flags [(.caseInsensitive, true)]] else []) 0) cs := by
  cases ci with
  | false => rfl
  | true => exact readAll_cons rfl rfl (Nat.le_add_right _ 3)

/-- A text is accepted if its tree does not nest too deeply and the expression of its tree is not too
large. -/
theorem ofSource?_of_readAll {source : String} (isTree : readAll {} source.toList = some tree)
    (settled : Expr.ofTree? {} tree = some (e, flags)) :
    ofSource? source =
      if tree.depth ≤ maxDepth ∧ e.size ≤ maxSize then some ⟨source, e⟩ else none := by
  unfold ofSource? Tree.ofSource?
  rw [isTree]
  simp only [Option.bind_eq_bind, Option.bind_some]
  by_cases shallow : tree.depth ≤ maxDepth
  · rw [if_pos shallow, Option.bind_some, settled, Option.bind_some]
    simp only [shallow, true_and]
  · rw [if_neg shallow, if_neg (mt And.left shallow)]
    rfl

/-- What is accepted has the expression of its tree. -/
theorem expr_of_readAll {source : String} {r : Regex}
    (isTree : readAll {} source.toList = some tree)
    (settled : Expr.ofTree? {} tree = some (e, flags)) (h : ofSource? source = some r) :
    r.expr = e := by
  rw [ofSource?_of_readAll isTree settled, Option.ite_none_right_eq_some] at h
  rw [← Option.some.inj h.2]

/-- The trees in front of a text by which its letters match without regard to their case. -/
def markTrees (ci : Bool) : List Tree := if ci then [.flags [(.caseInsensitive, true)]] else []

/-- A text that writes at least two parts. -/
theorem ofSource?_of_writes {ci : Bool} {source : String}
    (isSource : source.toList = caseMark ci ++ cs) (writes : Writes 1 cs trees opened)
    (settles : List.Forall₂ (Settles { caseInsensitive := ci }) trees parts)
    (several : 2 ≤ trees.length) :
    let e := Expr.inSequence ((if ci then [.empty] else []) ++ parts)
    ofSource? source =
      if (Tree.concat (markTrees ci ++ trees)).depth ≤ maxDepth ∧ e.size ≤ maxSize then
        some ⟨source, e⟩ else none := by
  have settled := allOf?_of_settles settles
  have isTree : readAll {} source.toList = some (.concat (markTrees ci ++ trees)) := by
    rw [isSource, readAll_caseMark, readAll_of_writes writes several rfl rfl rfl, Reading.grow,
      List.append_nil, List.reverse_reverse]
    rfl
  refine @ofSource?_of_readAll { caseInsensitive := ci } _ _ _ isTree ?_
  rw [Expr.ofTree?]
  cases ci with
  | false => exact settled
  | true =>
    show (Expr.allOf? { caseInsensitive := true } trees).bind _ = _
    rw [settled]
    rfl

end Waymark.Regex
