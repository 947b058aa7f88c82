/-
The tokens that a pattern is read into.

* `isSegment_of_mem_readTokens` — literal text is a segment: not empty and without a slash;
* `names_nodup_of_tokenize` — the params have names of their own.
-/
import Waymark.Pattern.Tokenize
import Waymark.Proofs.Text.Segments

namespace Waymark.Pattern

open Waymark.Path (IsSegment)

variable {pattern : String} {cs : List Char} {tokens : List Token}

theorem mem_params {p : Param} : p ∈ params tokens ↔ .param p ∈ tokens := by
  rw [params, List.mem_filterMap]
  constructor
  · rintro ⟨token, member, isParam⟩
    cases token with
    | literal text => exact absurd isParam (by simp [Token.param?])
    | param q => exact Option.some.inj isParam ▸ member
  · exact fun member => ⟨_, member, rfl⟩

theorem isSegment_untilSlash {c : Char} (h : c ≠ '/') (cs : List Char) :
    IsSegment (c :: untilSlash cs) := by
  refine ⟨by simp, fun member => ?_⟩
  rcases List.mem_cons.mp member with same | member
  · exact h same.symm
  · simpa using List.mem_takeWhile_imp member

theorem exists_of_map_eq_ok {ε α β : Type} {f : α → β} {x : Except ε α} {b : β}
    (h : x.map f = .ok b) : ∃ a, x = .ok a ∧ b = f a := by
  cases x with
  | error e => exact absurd h (by simp [Except.map])
  | ok a => exact ⟨a, rfl, (Except.ok.inj h).symm⟩

theorem exists_of_isOk {ε α : Type} {x : Except ε α} (h : x.isOk = true) : ∃ a, x = .ok a := by
  cases x with
  | error e => exact absurd h (by simp [Except.isOk, Except.toBool])
  | ok a => exact ⟨a, rfl⟩

/-- What holds of the token of any single segment holds of all tokens that are read. -/
theorem forall_mem_readTokens {P : Token → Prop}
    (param : ∀ rest p after, readParam rest = .ok (p, after) → P (.param p))
    (literal : ∀ c rest, c ≠ '/' → c ≠ ':' → P (literalToken (c :: untilSlash rest)))
    (h : readTokens cs = .ok tokens) : ∀ token ∈ tokens, P token := by
  fun_induction readTokens cs generalizing tokens with
  | case1 =>
    obtain rfl := Except.ok.inj h
    simp
  | case2 rest ih => exact ih h
  | case3 => exact absurd h (by simp)
  | case4 rest p after found shorter ih =>
    obtain ⟨others, read, rfl⟩ := exists_of_map_eq_ok h
    exact List.forall_mem_cons.mpr ⟨param rest p after found, ih read⟩
  | case5 c rest notSlash notColon shorter ih =>
    obtain ⟨others, read, rfl⟩ := exists_of_map_eq_ok h
    exact List.forall_mem_cons.mpr ⟨literal c rest notSlash notColon, ih read⟩

/-- Literal text is a segment. -/
theorem isSegment_of_mem_readTokens (h : readTokens cs = .ok tokens) :
    ∀ text, Token.literal text ∈ tokens → IsSegment text.toList := by
  have each := forall_mem_readTokens
    (P := fun token => ∀ text, token = .literal text → IsSegment text.toList) ?_ ?_ h
  · exact fun text member => each _ member text rfl
  · exact fun _ p _ _ text isLiteral => absurd isLiteral (by simp)
  · intro c rest notSlash _ text isLiteral
    unfold literalToken at isLiteral
    split at isLiteral
    · exact absurd isLiteral (by simp)
    · rw [← Token.literal.inj isLiteral, String.toList_ofList]
      exact isSegment_untilSlash notSlash rest

theorem repeatedName?_eq_none {names seen : List String} (h : repeatedName? seen names = none) :
    names.Nodup ∧ ∀ name ∈ names, name ∉ seen := by
  induction names generalizing seen with
  | nil => simp
  | cons name rest ih =>
    rw [repeatedName?] at h
    split at h
    · exact absurd h (by simp)
    · rename_i unseen
      obtain ⟨distinct, apart⟩ := ih h
      refine ⟨List.nodup_cons.mpr ⟨fun member => ?_, distinct⟩, ?_⟩
      · exact apart name member List.mem_cons_self
      · intro other member
        rcases List.mem_cons.mp member with rfl | member
        · simpa using unseen
        · exact fun inSeen => apart other member (List.mem_cons_of_mem _ inSeen)

theorem repeatedName?_of_nodup {names seen : List String} (distinct : names.Nodup)
    (apart : ∀ name ∈ names, name ∉ seen) : repeatedName? seen names = none := by
  induction names generalizing seen with
  | nil => rfl
  | cons name names ih =>
    obtain ⟨fresh, distinct⟩ := List.nodup_cons.mp distinct
    have unseen : ¬ seen.contains name = true := by
      rw [List.contains_iff_mem]
      exact apart name List.mem_cons_self
    rw [repeatedName?, if_neg unseen]
    refine ih distinct fun other member inSeen => ?_
    rcases List.mem_cons.mp inSeen with rfl | inSeen
    · exact fresh member
    · exact apart other (List.mem_cons_of_mem _ member) inSeen

theorem tokenize_eq_ok (h : tokenize pattern = .ok tokens) :
    readTokens pattern.toList = .ok tokens ∧
      repeatedName? [] ((params tokens).map (·.name)) = none := by
  rw [tokenize] at h
  split at h
  · exact absurd h (by simp)
  · rename_i read
    split at h
    · exact absurd h (by simp)
    · rename_i unrepeated
      rw [← Except.ok.inj h]
      exact ⟨read, unrepeated⟩

/-- The params have names of their own. -/
theorem names_nodup_of_tokenize (h : tokenize pattern = .ok tokens) :
    ((params tokens).map (·.name)).Nodup := (repeatedName?_eq_none (tokenize_eq_ok h).2).1

end Waymark.Pattern
