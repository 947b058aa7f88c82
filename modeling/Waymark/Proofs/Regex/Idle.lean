/-
Matches that consume nothing.

`Expr.idle` reads off an expression whether it can match without consuming anything, given
which conditions hold at a place.

* `Expr.idle_of_mem_ends` — a match that stays at its place shows that it can;
* `Expr.ends_ne_nil_of_idle` — at the only place of the empty text it then does.

So an expression that is idle at the end of a path, right behind a slash, matches the empty
text (`Look.holds_of_behind_slash`).
-/
import Waymark.Proofs.Regex.Outline
import Waymark.Proofs.Regex.Run

namespace Waymark.Regex

open Point (Same In)
open Unicode (CodeSet contains_tabled singleCategory tabled)

variable {step : Point → List Point} {greedy : Bool} {p q : Point}

/-- Whether the expression can match without consuming anything, where the given conditions
hold. -/
def Expr.idle (holds : Look → Bool) : Expr → Bool
  | .empty => true
  | .set _ => false
  | .look condition => holds condition
  | .seq first second => first.idle holds && second.idle holds
  | .alt preferred other => preferred.idle holds || other.idle holds
  | .loop least _ _ body => decide (least = 0) || body.idle holds
  | .group _ body => body.idle holds

namespace Expr

variable {holds holds' : Look → Bool}

/-- Which characters the sets hold does not matter. -/
theorem idle_outline (e : Expr) : e.outline.idle holds = e.idle holds := by
  induction e with
  | empty | set | look => rfl
  | seq first second ihFirst ihSecond => simp only [outline, idle, ihFirst, ihSecond]
  | alt preferred other ihPreferred ihOther => simp only [outline, idle, ihPreferred, ihOther]
  | loop least most greedy body ih => simp only [outline, idle, ih]
  | group index body ih => exact ih

theorem idle_mono (weaker : ∀ c, holds c = true → holds' c = true) (e : Expr)
    (h : e.idle holds = true) : e.idle holds' = true := by
  induction e with
  | empty => rfl
  | set => exact h
  | look condition => exact weaker condition h
  | seq first second ihFirst ihSecond =>
    rw [idle, Bool.and_eq_true] at h ⊢
    exact ⟨ihFirst h.1, ihSecond h.2⟩
  | alt preferred other ihPreferred ihOther =>
    rw [idle, Bool.or_eq_true] at h ⊢
    exact h.imp ihPreferred ihOther
  | loop least most greedy body ih =>
    rw [idle, Bool.or_eq_true] at h ⊢
    exact h.imp_right ih
  | group index body ih => exact ih h

/-- A match that stays at its place consumes nothing. -/
theorem idle_of_mem_ends (e : Expr) {text : List Char} (place : p.In text) (h : q ∈ e.ends p)
    (stays : q.offset = p.offset) : e.idle (·.holds p) = true := by
  induction e generalizing p q with
  | empty => rfl
  | set s =>
    have further := consuming_set s p q h
    omega
  | look condition =>
    rw [ends] at h
    split at h
    · assumption
    · exact absurd h List.not_mem_nil
  | seq first second ihFirst ihSecond =>
    obtain ⟨middle, listed, last⟩ := mem_chain h
    have before := (first.leads_of_mem_ends listed).1
    have after := (second.leads_of_mem_ends last).1
    have placeM := first.in_of_mem_ends place listed
    have here : middle.offset = p.offset := by omega
    -- the second part begins where the first one began
    have same : (fun c : Look => c.holds middle) = fun c => c.holds p :=
      funext (Look.holds_same (placeM.same place here))
    rw [idle, Bool.and_eq_true]
    exact ⟨ihFirst place listed here, same ▸ ihSecond placeM last (by omega)⟩
  | alt preferred other ihPreferred ihOther =>
    rw [idle, Bool.or_eq_true]
    rcases mem_foldl_reach h with listed | listed
    · exact Or.inl (ihPreferred place listed stays)
    · exact Or.inr (ihOther place listed stays)
  | loop least most greedy body ih =>
    rw [idle, Bool.or_eq_true, decide_eq_true_eq]
    cases least with
    | zero => exact Or.inl rfl
    | succ least =>
      -- the first round stays where it is, because no later one goes back
      obtain ⟨first, member, onward⟩ := exists_of_mem_repeatedly Point.Leads.refl
        Point.Leads.trans (fun _ _ => body.leads_of_mem_ends) h
      have before := (body.leads_of_mem_ends member).1
      have after := onward.1
      exact Or.inr (ih place member (by omega))
  | group index body ih =>
    obtain ⟨last, listed, rfl⟩ := List.mem_map.mp h
    exact ih place listed stays

end Expr

/-! ### The empty text -/

theorem reach_ne_nil (found : List Point) (p : Point) : reach found p ≠ [] := by
  rw [reach]
  split
  · rintro rfl
    contradiction
  · simp

theorem foldl_ne_nil {α : Type} {f : List Point → α → List Point} {as : List α}
    {found : List Point} (keeps : ∀ found a, found ≠ [] → f found a ≠ []) (h : found ≠ []) :
    as.foldl f found ≠ [] := by
  induction as generalizing found with
  | nil => exact h
  | cons a rest ih => exact ih (keeps found a h)

theorem foldl_reach_ne_nil {l found : List Point} (h : found ≠ [] ∨ l ≠ []) :
    l.foldl reach found ≠ [] := by
  cases l with
  | nil => exact h.resolve_right (absurd rfl)
  | cons p rest =>
    have first := reach_ne_nil found p
    rw [List.foldl_cons]
    exact foldl_ne_nil (fun _ _ _ => reach_ne_nil _ _) first

theorem chain_ne_nil {ends : List Point} (member : p ∈ ends) (h : step p ≠ []) :
    chain ends step ≠ [] := by
  obtain ⟨before, after, rfl⟩ := List.append_of_mem member
  rw [chain, List.foldl_append, List.foldl_cons]
  exact foldl_ne_nil (fun _ _ known => foldl_reach_ne_nil (Or.inl known))
    (foldl_reach_ne_nil (Or.inr h))

theorem onward_ne_nil (left : Nat) (found : List Point) (p : Point) :
    onward step greedy left found p ≠ [] := by
  induction left generalizing found p with
  | zero => exact reach_ne_nil found p
  | succ left ih =>
    unfold onward
    split
    · rintro rfl
      contradiction
    · split
      · exact reach_ne_nil _ _
      · exact foldl_ne_nil (fun _ _ _ => ih _ _) (reach_ne_nil found p)

theorem oneOrMore_ne_nil (h : step p ≠ []) : oneOrMore step greedy p ≠ [] := by
  obtain ⟨first, rest, isStep⟩ := List.exists_cons_of_ne_nil h
  have round : ∀ found q, (if q.offset = p.offset then reach found q
      else onward step greedy q.rest.length found q) ≠ [] := by
    intro found q
    split
    · exact reach_ne_nil found q
    · exact onward_ne_nil _ found q
  rw [oneOrMore, isStep, List.foldl_cons]
  exact foldl_ne_nil (fun found q _ => round found q) (round [] first)

theorem zeroOrMore_ne_nil (p : Point) : zeroOrMore step greedy p ≠ [] := by
  rw [zeroOrMore]
  split
  · exact reach_ne_nil _ _
  · exact foldl_reach_ne_nil (Or.inl (by simp))

/-- Places are only tried once something is found. -/
theorem atMost_ne_nil {n : Nat} {trail : Trail} (h : trail.found ≠ [] ∨ trail.tried = [])
    (p : Point) : (atMost step greedy n trail p).found ≠ [] := by
  induction n generalizing trail p with
  | zero => exact reach_ne_nil _ _
  | succ n ih =>
    unfold atMost
    split
    · rename_i seen
      refine h.resolve_right fun none => ?_
      rw [none] at seen
      contradiction
    · split
      · exact reach_ne_nil _ _
      · have keeps : ∀ (l : List Point) (trail : Trail), trail.found ≠ [] →
            (l.foldl (fun trail q => atMost step greedy n trail q) trail).found ≠ [] := by
          intro l
          induction l with
          | nil => exact fun _ known => known
          | cons q rest inner => exact fun trail known => inner _ (ih (Or.inl known) q)
        exact keeps _ _ (reach_ne_nil _ _)

/-- Rounds that never fail can be taken as often as one likes. -/
theorem rounds_ne_nil {text : List Char} (leads : ∀ p, ∀ q ∈ step p, p.Leads q)
    (going : ∀ p, p.In text → step p ≠ []) {n : Nat} {ends : List Point} (some : ends ≠ [])
    (places : ∀ p ∈ ends, p.In text) :
    rounds step n ends ≠ [] ∧ ∀ p ∈ rounds step n ends, p.In text := by
  induction n generalizing ends with
  | zero => exact ⟨some, places⟩
  | succ n ih =>
    obtain ⟨p, rest, rfl⟩ := List.exists_cons_of_ne_nil some
    refine ih (chain_ne_nil List.mem_cons_self (going p (places p List.mem_cons_self))) ?_
    intro q listed
    obtain ⟨first, member, inStep⟩ := mem_chain listed
    exact (leads first q inStep).2 text (places first member)

theorem repeatedly_ne_nil {text : List Char} (leads : ∀ p, ∀ q ∈ step p, p.Leads q)
    (place : p.In text) {least : Nat} {most : Option Nat}
    (going : least = 0 ∨ ∀ p, p.In text → step p ≠ []) :
    repeatedly step least most greedy p ≠ [] := by
  have start : ∀ q ∈ [p], q.In text := fun q member => List.mem_singleton.mp member ▸ place
  have some : ∀ {n}, n ≤ least →
      ∃ q rest, rounds step n [p] = q :: rest ∧ q.In text := by
    intro n bound
    have all : rounds step n [p] ≠ [] ∧ ∀ q ∈ rounds step n [p], q.In text := by
      rcases going with none | going
      · obtain rfl : n = 0 := by omega
        exact ⟨by simp [rounds], start⟩
      · exact rounds_ne_nil leads going (by simp) start
    obtain ⟨q, rest, isRounds⟩ := List.exists_cons_of_ne_nil all.1
    exact ⟨q, rest, isRounds, all.2 q (isRounds ▸ List.mem_cons_self)⟩
  unfold repeatedly
  split
  · exact zeroOrMore_ne_nil p
  · rename_i least
    obtain ⟨q, rest, isRounds, placeQ⟩ := some (Nat.le_succ least)
    rw [isRounds]
    exact chain_ne_nil List.mem_cons_self
      (oneOrMore_ne_nil ((going.resolve_left (by simp)) q placeQ))
  · obtain ⟨q, rest, isRounds, placeQ⟩ := some (Nat.le_refl least)
    rw [isRounds]
    exact chain_ne_nil List.mem_cons_self (atMost_ne_nil (Or.inr rfl) q)

/-- Of the empty text an expression that may consume nothing has a match. -/
theorem Expr.ends_ne_nil_of_idle (e : Expr) (h : e.idle (·.holds (.start [])) = true)
    (place : p.In []) : e.ends p ≠ [] := by
  induction e generalizing p with
  | empty => simp [ends]
  | set => exact absurd h (by simp [idle])
  | look condition =>
    have offset : p.offset = 0 := Nat.le_zero.mp place.offset_le
    have holds : condition.holds p = true :=
      (Look.holds_same (place.same (Point.in_start []) offset) condition).trans h
    rw [ends, if_pos holds]
    simp
  | seq first second ihFirst ihSecond =>
    rw [idle, Bool.and_eq_true] at h
    obtain ⟨middle, rest, isFirst⟩ := List.exists_cons_of_ne_nil (ihFirst h.1 place)
    have member : middle ∈ first.ends p := isFirst ▸ List.mem_cons_self
    exact chain_ne_nil member (ihSecond h.2 (first.in_of_mem_ends place member))
  | alt preferred other ihPreferred ihOther =>
    rw [idle, Bool.or_eq_true] at h
    exact foldl_reach_ne_nil (h.imp (fun h => ihPreferred h place) fun h => ihOther h place)
  | loop least most greedy body ih =>
    rw [idle, Bool.or_eq_true, decide_eq_true_eq] at h
    exact repeatedly_ne_nil (fun _ _ => body.leads_of_mem_ends) place
      (h.imp_right fun h p place => ih h place)
  | group index body ih =>
    rw [ends, ne_eq, List.map_eq_nil_iff]
    exact ih h place

/-! ### The end of a path -/

/-- In every table of the characters of words the first one comes after the slash. -/
theorem contains_wordCharacters : Unicode.wordCharacters.contains '/'.toNat = false := by
  have letters : (tabled "alphabetic").contains '/'.toNat = false :=
    contains_tabled rfl rfl (by decide)
  have nonspacing : (singleCategory "mn").contains '/'.toNat = false :=
    contains_tabled rfl rfl (by decide)
  have spacing : (singleCategory "mc").contains '/'.toNat = false :=
    contains_tabled rfl rfl (by decide)
  have enclosing : (singleCategory "me").contains '/'.toNat = false :=
    contains_tabled rfl rfl (by decide)
  have digits : (singleCategory "nd").contains '/'.toNat = false :=
    contains_tabled rfl rfl (by decide)
  have connectors : (singleCategory "pc").contains '/'.toNat = false :=
    contains_tabled rfl rfl (by decide)
  have joiners : (tabled "joincontrol").contains '/'.toNat = false :=
    contains_tabled rfl rfl (by decide)
  rw [Unicode.wordCharacters, CodeSet.contains_unions, Unicode.alphabetic, Unicode.digits,
    List.any_cons, letters, List.any_cons, nonspacing, List.any_cons, spacing, List.any_cons,
    enclosing, List.any_cons, digits, List.any_cons, connectors, List.any_cons, joiners]
  rfl

/-- A slash is no part of a word. -/
theorem isWordChar_slash (ascii : Bool) : isWordChar ascii (some '/') = false := by
  cases ascii with
  | true => decide
  | false =>
    rw [isWordChar, Option.any_some, Bool.not_false, ShortClass.codes, if_pos rfl]
    exact contains_wordCharacters

/-- What holds at the end of a text behind a slash holds of the empty text. -/
theorem Look.holds_of_behind_slash (before : p.before = some '/') (atEnd : p.rest = [])
    (condition : Look) (h : condition.holds p = true) : condition.holds (.start []) = true := by
  cases condition with
  | word side ascii =>
    have outside : isWordChar ascii none = false := rfl
    cases side <;>
      simp only [holds, before, atEnd, isWordChar_slash, List.head?_nil, Point.start, outside]
        at h ⊢ <;> exact h
  | textStart => rfl
  | textEnd => rfl
  | lineStart => rfl
  | lineEnd => rfl
  | lineStartCrlf => rfl
  | lineEndCrlf => rfl

end Waymark.Regex
