/-
Texts that an expression admits.

An expression admits a text (`Expr.Admits`) if a run gets past the text wherever it stands
ahead, provided that what follows succeeds behind it.  Whatever the run tries before that
makes no difference to whether it succeeds, so admitted texts are put together without
regard to preferences:

* `Admits.seq`, `Admits.group`, `Admits.optional` — texts of larger expressions;
* `admits_star`, `Admits.plus` — texts of loops, round by round.
-/
import Waymark.Proofs.Regex.Run

namespace Waymark.Regex

open Point (Same In)
open Unicode (CodeSet)

namespace Expr

/-- Wherever the text stands ahead, a run gets past it if what follows succeeds behind it. -/
def Admits (e : Expr) (cs : List Char) : Prop :=
  ∀ ⦃α : Type⦄ ⦃k : Point → Option α⦄ ⦃text rest : List Char⦄ ⦃p : Point⦄, Fair k → p.In text →
    p.rest = cs ++ rest → (k (p.past cs rest)).isSome → (e.run k p).isSome

variable {e first second : Expr} {es fs : List Expr} {cs ds : List Char} {s : CodeSet}

theorem admits_empty : empty.Admits [] := by
  intro α k text rest p _ _ isRest succeeds
  rw [List.nil_append] at isRest
  rw [← isRest, Point.past_nil] at succeeds
  rw [run_empty]
  exact succeeds

theorem admits_set {c : Char} (has : s.has c = true) : (set s).Admits [c] := by
  intro α k text rest p _ _ isRest succeeds
  rw [run_set_of_cons s isRest, if_pos has]
  exact succeeds

theorem Admits.seq (h : first.Admits cs) (h' : second.Admits ds) :
    (first.seq second).Admits (cs ++ ds) := by
  intro α k text rest p fair place isRest succeeds
  rw [List.append_assoc] at isRest
  rw [run_seq fair place]
  refine h (fair_run fair second) place isRest (h' fair (place.past isRest) rfl ?_)
  rw [Point.past_past]
  exact succeeds

theorem Admits.group (h : e.Admits cs) (index : Nat) : (e.group index).Admits cs := by
  intro α k text rest p fair place isRest succeeds
  rw [run_group]
  refine h (fair_capture fair index p) place isRest ?_
  -- the place is the same, whatever has been captured
  rw [fair (p.capture index (p.past cs rest)) (p.past cs rest) ⟨rfl, rfl, rfl⟩]
  exact succeeds

theorem Admits.optional (h : e.Admits cs) : (e.loop 0 (some 1) true).Admits cs := by
  intro α k text rest p fair place isRest succeeds
  rw [run_optional fair place, Option.isSome_or, h fair place isRest succeeds, Bool.true_or]

theorem admits_passed (e : Expr) : (e.loop 0 (some 1) true).Admits [] := by
  intro α k text rest p fair place isRest succeeds
  rw [List.nil_append] at isRest
  rw [← isRest, Point.past_nil] at succeeds
  rw [run_optional fair place, Option.isSome_or, succeeds, Bool.or_true]

/-! ### Loops -/

theorem Admits.star (consuming : Consuming e.ends) (h : e.Admits cs)
    (h' : (e.loop 0 none true).Admits ds) : (e.loop 0 none true).Admits (cs ++ ds) := by
  intro α k text rest p fair place isRest succeeds
  have round := h.seq h' fair place isRest succeeds
  rw [run_seq fair place] at round
  rw [run_star fair consuming place, Option.isSome_or, round, Bool.true_or]

/-- A loop admits the texts of any number of rounds. -/
theorem admits_star (consuming : Consuming e.ends) {texts : List (List Char)}
    (h : ∀ cs ∈ texts, e.Admits cs) : (e.loop 0 none true).Admits texts.flatten := by
  induction texts with
  | nil =>
    intro α k text rest p fair place isRest succeeds
    rw [List.flatten_nil, List.nil_append] at isRest
    rw [List.flatten_nil, ← isRest, Point.past_nil] at succeeds
    rw [run_star fair consuming place, Option.isSome_or, succeeds, Bool.or_true]
  | cons cs texts ih =>
    have others := ih fun ds member => h ds (List.mem_cons_of_mem _ member)
    exact (h cs List.mem_cons_self).star consuming others

theorem Admits.plus (consuming : Consuming e.ends) (h : e.Admits cs)
    (h' : (e.loop 0 none true).Admits ds) : (e.loop 1 none true).Admits (cs ++ ds) := by
  intro α k text rest p fair place isRest succeeds
  have round := h.seq h' fair place isRest succeeds
  rw [run_seq fair place] at round
  rw [run_plus fair consuming place]
  exact round

/-- A loop over characters admits any text of them. -/
theorem admits_star_set (all : ∀ c ∈ cs, s.has c = true) :
    ((set s).loop 0 none true).Admits cs := by
  have rounds := @admits_star (set s) (consuming_set s) (cs.map fun c => [c]) (by
    intro ds member
    obtain ⟨c, inText, rfl⟩ := List.mem_map.mp member
    exact admits_set (all c inText))
  rwa [← List.flatMap_def, List.flatMap_singleton'] at rounds

/-! ### Sequences -/

theorem admits_nil : (inSequence []).Admits [] := admits_empty

theorem Admits.cons (h : e.Admits cs) (h' : (inSequence es).Admits ds) :
    (inSequence (e :: es)).Admits (cs ++ ds) := h.seq h'

theorem Admits.single (h : e.Admits cs) : (inSequence [e]).Admits cs := by
  have whole := h.cons admits_nil
  rwa [List.append_nil] at whole

theorem Admits.append (h : (inSequence es).Admits cs) (h' : (inSequence fs).Admits ds) :
    (inSequence (es ++ fs)).Admits (cs ++ ds) := by
  intro α k text rest p fair place isRest succeeds
  have both := h.seq h' fair place isRest succeeds
  rw [run_seq fair place] at both
  rw [run_inSequence_append fair place]
  exact both

end Expr
end Waymark.Regex
