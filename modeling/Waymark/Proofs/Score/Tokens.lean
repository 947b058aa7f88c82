/-
The comparison of the scores of patterns.

Only one kind of segment scores below zero: a param that may be missing and may span
several segments, with no constraint of its own (`Token.Loose`).  Where the comparison of
scores goes round, it goes round patterns with such segments: one pattern, another one with
a loose segment after it, and a third one with a loose segment at the same place and more
segments after that.

* `ofToken_neg_iff`, `ofToken_lt_root` — what single segments score;
* `ofTokens_append` — the score of two patterns put together;
* `circle_ofTokens_iff` — the circles of scores, as circles of patterns;
* `compare_ofTokens` — what holds of the comparison for all patterns, and exactly when it is
  transitive;
* `compare_append_singleton`, `compare_append_zeroOrMore` — a pattern and the same pattern with a
  segment after it.
-/
import Mathlib
import Waymark.Pattern.Tokenize
import Waymark.Proofs.Score.Order

namespace Waymark

/-- The segment may be missing and may span several segments, and no constraint but the one that
lets everything through restricts it. -/
def Token.Loose : Token → Prop
  | literal _ => False
  | param p => p.optional = true ∧ p.repeatable = true ∧
      (p.constraint = none ∨ p.isWildcard = true)

namespace Score

variable {ts us vs : List Token} {t : Token}

/-! ### Single segments -/

theorem ofParam_eq (p : Param) : ofParam p =
    600 + (if p.constraint.isSome then 100 else 0) + (if p.isWildcard then -500 else 0) +
      (if p.repeatable then -200 else 0) + (if p.optional then -80 else 0) +
      (if p.optional && p.repeatable then -400 else 0) := rfl

/-- The loose segments are those that score below zero. -/
theorem ofToken_neg_iff : ofToken t < 0 ↔ t.Loose := by
  cases t with
  | literal text =>
    have high : 0 ≤ ofToken (.literal text) :=
      Int.add_nonneg (by decide) (Int.natCast_nonneg _)
    exact iff_of_false (Int.not_lt.mpr high) id
  | param p =>
    rw [ofToken, ofParam_eq, Token.Loose, Param.isWildcard]
    cases p.constraint with
    | none => cases p.optional <;> cases p.repeatable <;> simp
    | some source =>
      by_cases wild : source = Param.wildcard <;> cases p.optional <;> cases p.repeatable <;>
        simp [wild]

/-- No segment scores as high as the pattern without segments. -/
theorem ofToken_lt_root (t : Token) : ofToken t < root := by
  cases t with
  | literal text =>
    have short : min text.length longestLiteral ≤ longestLiteral := Nat.min_le_right _ _
    rw [ofToken, literal, root]
    have : longestLiteral = 99 := rfl
    omega
  | param p =>
    rw [ofToken, ofParam_eq, root]
    split <;> split <;> split <;> split <;> split <;> omega

theorem ofTokens_of_ne_nil (nonempty : ts ≠ []) : ofTokens ts = ⟨ts.map ofToken⟩ := by
  rw [ofTokens, if_neg (by simpa using nonempty)]

/-- Segments never have the score of the pattern without segments. -/
theorem map_ofToken_ne_root (ts : List Token) : ts.map ofToken ≠ [root] := by
  intro same
  obtain ⟨t, -, isRoot⟩ := List.map_eq_singleton_iff.mp same
  exact absurd isRoot (Int.ne_of_lt (ofToken_lt_root t))

theorem ofTokens_eq_nil_iff : ofTokens ts = ofTokens [] ↔ ts = [] := by
  refine ⟨fun same => ?_, fun empty => by rw [empty]⟩
  by_contra nonempty
  rw [ofTokens_of_ne_nil nonempty] at same
  exact map_ofToken_ne_root ts (congrArg entries same)

/-- One score after the other.  The entry of a pattern without segments is left out, unless there
is nothing else. -/
def followedBy (s t : Score) : Score :=
  if s = ofTokens [] then t else if t = ofTokens [] then s else ⟨s.entries ++ t.entries⟩

theorem ofTokens_append (ts us : List Token) :
    ofTokens (ts ++ us) = (ofTokens ts).followedBy (ofTokens us) := by
  rw [followedBy]
  split
  · rename_i none
    rw [ofTokens_eq_nil_iff.mp none, List.nil_append]
  · rename_i some
    split
    · rename_i none
      rw [ofTokens_eq_nil_iff.mp none, List.append_nil]
    · rename_i some'
      have nonempty := mt ofTokens_eq_nil_iff.mpr some
      rw [ofTokens_of_ne_nil nonempty, ofTokens_of_ne_nil (mt ofTokens_eq_nil_iff.mpr some'),
        ofTokens_of_ne_nil (mt List.append_eq_nil_iff.mp (nonempty ·.1)), List.map_append]

/-! ### Circles of patterns -/

/-- Patterns that go round: the second one has the scores of the first one and a loose segment
after it; the third one has these scores too, then a loose segment that is not higher, and more
after it. -/
def Circular (ts us vs : List Token) : Prop :=
  ∃ front high front' low more, us = front ++ [high] ∧ vs = front' ++ low :: more ∧ ts ≠ [] ∧
    front.map ofToken = ts.map ofToken ∧ front'.map ofToken = ts.map ofToken ∧ high.Loose ∧
    more ≠ [] ∧ (ofToken low < ofToken high ∨
      ofToken low = ofToken high ∧ ∃ last, last.Loose ∧ more = [last])

theorem circle_of_circular (h : Circular ts us vs) :
    Circle (ofTokens ts) (ofTokens us) (ofTokens vs) := by
  obtain ⟨front, high, front', low, more, rfl, rfl, nonempty, same, same', loose, longer,
    below⟩ := h
  refine ⟨ts.map ofToken, ofToken high, ofToken low, more.map ofToken, ofToken_neg_iff.mpr loose,
    by simpa using longer, below.imp_right ?_, ofTokens_of_ne_nil nonempty, ?_, ?_⟩
  · rintro ⟨equal, last, looseLast, rfl⟩
    exact ⟨equal, ofToken last, ofToken_neg_iff.mpr looseLast, rfl⟩
  · rw [ofTokens_of_ne_nil (by simp), List.map_append, same]
    rfl
  · rw [ofTokens_of_ne_nil (by simp), List.map_append, same', List.map_cons]

/-- The entries of a score that goes on after a front are those of the pattern's segments. -/
theorem map_ofToken_eq {front rest : List Int} (h : ofTokens ts = ⟨front ++ rest⟩)
    (more : front = [] → rest ≠ [root]) (some : rest ≠ []) : ts.map ofToken = front ++ rest := by
  cases ts with
  | cons t ts => exact congrArg entries h
  | nil =>
    have single : [root] = front ++ rest := congrArg entries h
    cases front with
    | nil => exact absurd single.symm (more rfl)
    | cons a front =>
      obtain ⟨-, none⟩ := List.cons_eq_cons.mp single
      exact absurd (List.append_eq_nil_iff.mp none.symm).2 some

theorem circular_of_circle (h : Circle (ofTokens ts) (ofTokens us) (ofTokens vs)) :
    Circular ts us vs := by
  obtain ⟨entries, high, low, more, negative, longer, below, isS, isT, isU⟩ := h
  have second : us.map ofToken = entries ++ [high] := by
    refine map_ofToken_eq isT (fun _ same => ?_) (by simp)
    rw [(List.cons_eq_cons.mp same).1] at negative
    exact absurd negative (by decide)
  have third : vs.map ofToken = entries ++ low :: more :=
    map_ofToken_eq isU (fun _ same => longer (List.cons_eq_cons.mp same).2) (by simp)
  obtain ⟨front, back, rfl, isFront, isBack⟩ := List.map_eq_append_iff.mp second
  obtain ⟨token, rfl, rfl⟩ := List.map_eq_singleton_iff.mp isBack
  obtain ⟨front', back', rfl, isFront', isBack'⟩ := List.map_eq_append_iff.mp third
  obtain ⟨token', rest, rfl, rfl, rfl⟩ := List.map_eq_cons_iff.mp isBack'
  have nonempty : ts ≠ [] := by
    rintro rfl
    have single : [root] = entries := congrArg Score.entries isS
    exact map_ofToken_ne_root front (isFront.trans single.symm)
  rw [ofTokens_of_ne_nil nonempty] at isS
  have first : ts.map ofToken = entries := congrArg Score.entries isS
  refine ⟨front, token, front', token', rest, rfl, rfl, nonempty, isFront.trans first.symm,
    isFront'.trans first.symm, ofToken_neg_iff.mp negative, by simpa using longer,
    below.imp_right ?_⟩
  rintro ⟨equal, last, negativeLast, isLast⟩
  obtain ⟨token'', rfl, rfl⟩ := List.map_eq_singleton_iff.mp isLast
  exact ⟨equal, token'', ofToken_neg_iff.mp negativeLast, rfl⟩

theorem circle_ofTokens_iff :
    Circle (ofTokens ts) (ofTokens us) (ofTokens vs) ↔ Circular ts us vs :=
  ⟨circular_of_circle, circle_of_circular⟩

/-! ### The comparison -/

/-- A circle breaks transitivity, wherever one begins to go round it. -/
theorem Circle.not_trans {s t u : Score} (h : Circle s t u ∨ Circle t u s ∨ Circle u s t) :
    s.compare t ≠ .lt ∧ t.compare u ≠ .lt ∧ s.compare u = .lt := by
  have below : ∀ {a b : Score}, a.compare b = .gt → b.compare a = .lt := by
    intro a b above
    rw [← compare_swap a b, above]
    rfl
  rcases h with circle | circle | circle <;> obtain ⟨first, second, third⟩ := circle.outranks
  · exact ⟨by simp [first], by simp [second], below third⟩
  · exact ⟨by simp [third], by simp [first], below second⟩
  · exact ⟨by simp [second], by simp [third], below first⟩

/-- For the scores of all patterns: the comparison gives equality for equal scores only, and it
gives the opposite for scores that change places.  It is transitive for three patterns exactly if
these do not go round. -/
theorem compare_ofTokens (ts us vs : List Token) :
    ((ofTokens ts).compare (ofTokens us) = .eq ↔ ofTokens ts = ofTokens us) ∧
      (ofTokens us).compare (ofTokens ts) = ((ofTokens ts).compare (ofTokens us)).swap ∧
      (((ofTokens ts).compare (ofTokens us) ≠ .lt → (ofTokens us).compare (ofTokens vs) ≠ .lt →
          (ofTokens ts).compare (ofTokens vs) ≠ .lt) ↔
        ¬ (Circular ts us vs ∨ Circular us vs ts ∨ Circular vs ts us)) := by
  refine ⟨⟨eq_of_compare_eq, ?_⟩, (compare_swap _ _).symm, ?_⟩
  · intro same
    rw [same, compare_self]
  rw [← circle_ofTokens_iff, ← circle_ofTokens_iff, ← circle_ofTokens_iff]
  constructor
  · intro transitive circle
    obtain ⟨first, second, third⟩ := Circle.not_trans circle
    exact transitive first second third
  · intro noCircle first second third
    refine noCircle (exists_circle (atMost_iff.mpr first) (atMost_iff.mpr second) fun fourth => ?_)
    exact atMost_iff.mp fourth third

/-- Of these patterns each is as specific as the next one, but the first is less specific than the
last. -/
theorem exists_not_compare_trans : ∃ ts us vs, Pattern.tokenize "/a" = .ok ts ∧
    Pattern.tokenize "/a/:b*" = .ok us ∧ Pattern.tokenize "/a/:b*/:c*" = .ok vs ∧
    ofTokens ts = ⟨[801]⟩ ∧ ofTokens us = ⟨[801, -80]⟩ ∧ ofTokens vs = ⟨[801, -80, -80]⟩ ∧
    (ofTokens ts).compare (ofTokens us) ≠ .lt ∧ (ofTokens us).compare (ofTokens vs) ≠ .lt ∧
    (ofTokens ts).compare (ofTokens vs) = .lt := by
  refine ⟨[.literal "a"], [.literal "a", .param ⟨"b", none, true, true⟩],
    [.literal "a", .param ⟨"b", none, true, true⟩, .param ⟨"c", none, true, true⟩],
    by cbv, by cbv, by cbv, ?_⟩
  decide

/-! ### One segment more -/

/-- A segment that is not loose makes any pattern but the one without segments more specific. -/
theorem compare_append_singleton (ts : List Token) (t : Token) :
    ((ofTokens ts).compare (ofTokens (ts ++ [t])) = .gt ↔ ts = [] ∨ t.Loose) ∧
      ((ofTokens ts).compare (ofTokens (ts ++ [t])) = .lt ↔ ¬ (ts = [] ∨ t.Loose)) := by
  by_cases empty : ts = []
  · subst empty
    have above : (ofTokens []).compare (ofTokens [t]) = .gt := by
      show compareEntries [root] [ofToken t] = .gt
      rw [compareEntries, Int.compare_eq_gt.mpr (ofToken_lt_root t)]
    simp [above]
  · have cut := compareEntries_append (ts.map ofToken) [] [ofToken t]
    have compared : (ofTokens ts).compare (ofTokens (ts ++ [t])) =
        if ofToken t < 0 then .gt else .lt := by
      rw [ofTokens_of_ne_nil empty, ofTokens_of_ne_nil (by simp), List.map_append]
      rwa [List.append_nil, compareEntries] at cut
    rw [compared]
    by_cases loose : t.Loose
    · rw [if_pos (ofToken_neg_iff.mpr loose)]
      simp [loose]
    · rw [if_neg (mt ofToken_neg_iff.mp loose)]
      simp [loose, empty]

/-- What a segment loses for being optional and repeatable outweighs what a param without a
constraint scores, and so it does for the constraint that lets everything through.  It does not
outweigh what another constraint adds.  With such a segment after it a pattern is more specific
than without, unless it has no segments. -/
theorem compare_append_zeroOrMore (ts : List Token) (name : String) (constraint : Option String) :
    let t := Token.param ⟨name, constraint, true, true⟩
    ((ofTokens ts).compare (ofTokens (ts ++ [t])) = .gt ↔
        ts = [] ∨ constraint = none ∨ constraint = some Param.wildcard) ∧
      ((ofTokens ts).compare (ofTokens (ts ++ [t])) = .lt ↔
        ts ≠ [] ∧ ∃ source, constraint = some source ∧ source ≠ Param.wildcard) := by
  intro t
  have loose : t.Loose ↔ constraint = none ∨ constraint = some Param.wildcard := by
    simp [t, Token.Loose, Param.isWildcard]
  obtain ⟨above, below⟩ := compare_append_singleton ts t
  rw [loose] at above below
  refine ⟨above, below.trans ?_⟩
  cases constraint with
  | none => simp
  | some source => simp

/-- The second pattern ends in a segment that may be missing, and yet it is the more specific. -/
theorem exists_not_compare_zeroOrMore : ∃ ts us, Pattern.tokenize "/a" = .ok ts ∧
    Pattern.tokenize "/a/:b(x)*" = .ok us ∧ us = ts ++ [.param ⟨"b", some "x", true, true⟩] ∧
    ofTokens ts = ⟨[801]⟩ ∧ ofTokens us = ⟨[801, 20]⟩ ∧
    (ofTokens ts).compare (ofTokens us) = .lt := by
  refine ⟨[.literal "a"], [.literal "a", .param ⟨"b", some "x", true, true⟩], by cbv, by cbv, rfl,
    ?_⟩
  decide

end Score
end Waymark
