/-
The order of patterns without inner segments below zero.

The comparison of scores fails to be transitive only where a segment that is not the
last one scores below zero.  Among patterns without such segments it is a total order,
so the order in which entries are tried is sorted after any history: by score, and
among equal scores the newest first.

* `Score.atMost_trans` — the comparison is transitive on such scores;
* `sorted_register` — entering a matcher keeps the order sorted;
* `sorted_within` — and so do all changes;
* `records_sorted` — routers with the same patterns list them in the same order.
-/
import Waymark.Proofs.Router.Priority

namespace Waymark

namespace Score

variable {s t u : Score}

/-- No segment but the last one scores below zero. -/
def LowOnlyLast (s : Score) : Prop := ∀ n ∈ s.entries.dropLast, 0 ≤ n

theorem Circle.not_lowOnlyLast (h : Circle s t u) : ¬ u.LowOnlyLast := by
  obtain ⟨front, high, low, more, negative, longer, below, rfl, rfl, rfl⟩ := h
  intro lowOnlyLast
  have inner : low ∈ (front ++ low :: more).dropLast := by
    rw [List.dropLast_append_of_ne_nil (List.cons_ne_nil _ _), List.dropLast_cons_of_ne_nil longer]
    simp
  have bound := lowOnlyLast low inner
  rcases below with lower | ⟨same, -⟩ <;> omega

/-- Without inner segments below zero the comparison is transitive. -/
theorem atMost_trans (lowS : s.LowOnlyLast) (lowT : t.LowOnlyLast) (lowU : u.LowOnlyLast)
    (first : t.atMost s = true) (second : u.atMost t = true) : u.atMost s = true := by
  by_contra third
  rcases exists_circle first second third with circle | circle | circle
  · exact circle.not_lowOnlyLast lowU
  · exact circle.not_lowOnlyLast lowS
  · exact circle.not_lowOnlyLast lowT

theorem atMost_of_compare_gt (h : s.compare t = .gt) : t.atMost s = true := by
  rw [atMost_iff, h]
  simp

/-- The score of the pattern that a text is. -/
def ofPattern? (pattern : String) : Option Score :=
  (Pattern.readTokens pattern.toList).toOption.map ofTokens

end Score

namespace Matcher

variable {m : Matcher}

/-- The text of a pattern tells its score. -/
theorem Registrable.ofPattern?_pattern (h : m.Registrable) :
    Score.ofPattern? m.pattern = some m.score := by
  rw [Score.ofPattern?, pattern, readTokens_patternOf h.wellFormed]
  rfl

end Matcher

namespace Registry

variable {r : Registry} {d : Definition} {m : Matcher} {parent original : Option Nat}

/-- The entry `a` scores higher than the entry `b`, or the same, and it is the newer one. -/
def Precedes (r : Registry) (a b : Nat) : Prop :=
  ∃ m other, r.matcherAt? a = some m ∧ r.matcherAt? b = some other ∧
    (m.score.compare other.score = .gt ∨ m.score = other.score ∧ b < a)

/-- The paths of the records are the patterns of the matchers. -/
def Labelled (r : Registry) : Prop :=
  ∀ id e, r.get? id = some e → e.record.path = e.matcher.pattern

/-! ### Entering a matcher -/

theorem precedes_register {a b : Nat} (oldA : a ≠ r.nextId) (oldB : b ≠ r.nextId) :
    (r.register d m parent original).Precedes a b ↔ r.Precedes a b := by
  rw [Precedes, Precedes, matcherAt?_register_of_ne oldA, matcherAt?_register_of_ne oldB]

/-- Entering a matcher keeps the order sorted. -/
theorem sorted_register (filled : Filled r) (order : r.ordered.Pairwise r.Precedes)
    (low : ∀ other ∈ r.matchers, other.score.LowOnlyLast) (lowM : m.score.LowOnlyLast) :
    (r.register d m parent original).ordered.Pairwise
      (r.register d m parent original).Precedes := by
  have older : ∀ id ∈ r.ordered, id ≠ r.nextId := fun id member => Nat.ne_of_lt (filled id member).1
  have known : ∀ id ∈ r.ordered, ∃ other, r.matcherAt? id = some other ∧
      r.isAtMost m.score id = other.score.atMost m.score ∧ other.score.LowOnlyLast := by
    intro id member
    obtain ⟨-, other, found⟩ := filled id member
    refine ⟨other, found, ?_, low other ?_⟩
    · obtain ⟨e, foundE, rfl⟩ := Option.map_eq_some_iff.mp found
      rw [isAtMost, foundE, Option.any_some]
    · rw [matchers_eq_filterMap]
      exact List.mem_filterMap.mpr ⟨id, member, found⟩
  rw [ordered_register]
  refine pairwise_insertBefore ?_ ?_ ?_
  · refine order.imp_of_mem fun memberA memberB precedes => ?_
    exact (precedes_register (older _ memberA) (older _ memberB)).mpr precedes
  · intro a member stays
    obtain ⟨other, found, decided, -⟩ := known a member
    refine ⟨other, m, ?_, matcherAt?_register_self, Or.inl ?_⟩
    · rw [matcherAt?_register_of_ne (older a member), found]
    · rw [decided, Score.atMost, bne_eq_false_iff_eq] at stays
      exact stays
  · intro a memberA goes b memberB follows
    obtain ⟨other, foundA, decidedA, lowA⟩ := known a memberA
    obtain ⟨last, foundB, -, lowB⟩ := known b memberB
    -- what comes later scores no higher, so it scores at most what the new matcher does
    have below : last.score.atMost other.score = true := by
      rcases follows with rfl | precedes
      · rw [Option.some.inj (foundA.symm.trans foundB)]
        exact Score.atMost_self _
      · obtain ⟨other', last', foundA', foundB', higher⟩ :=
          (precedes_register (older a memberA) (older b memberB)).mp precedes
        obtain rfl : other = other' := Option.some.inj (foundA.symm.trans foundA')
        obtain rfl : last = last' := Option.some.inj (foundB.symm.trans foundB')
        rcases higher with outranks | ⟨same, -⟩
        · exact Score.atMost_of_compare_gt outranks
        · rw [same]
          exact Score.atMost_self _
    rw [decidedA] at goes
    have goesB := Score.atMost_trans lowM lowA lowB goes below
    refine ⟨m, last, matcherAt?_register_self, ?_, ?_⟩
    · rw [matcherAt?_register_of_ne (older b memberB), foundB]
    · rw [Score.atMost_iff] at goesB
      cases way : m.score.compare last.score with
      | lt => exact absurd way goesB
      | eq => exact Or.inr ⟨Score.eq_of_compare_eq way, (filled b memberB).1⟩
      | gt => exact Or.inl rfl

theorem sorted_registers {r' : Registry} {ms : List Matcher} (h : Registers r r' ms)
    (filled : Filled r) (order : r.ordered.Pairwise r.Precedes)
    (low : ∀ other ∈ r'.matchers, other.score.LowOnlyLast) :
    r'.ordered.Pairwise r'.Precedes := by
  obtain ⟨steps, rfl, rfl⟩ := h
  induction steps generalizing r with
  | nil => exact order
  | cons s rest ih =>
    have entered := (Registers.matchers ⟨s :: rest, rfl, rfl⟩ filled).2
    have all : ∀ other, other = s.matcher ∨ other ∈ r.matchers → other.score.LowOnlyLast := by
      intro other member
      refine low other ?_
      rw [entered, List.map_cons]
      rw [Matcher.mem_foldl_place, List.mem_cons, or_assoc, or_left_comm]
      exact Or.inr member
    exact ih (filled_register filled) (sorted_register filled order
      (fun other member => all other (Or.inr member)) (all s.matcher (Or.inl rfl))) low

/-- A removal takes entries out of the order, and what stays keeps its matcher. -/
theorem sorted_removeAll (order : r.ordered.Pairwise r.Precedes) (pending : List Nat) :
    (r.removeAll pending).ordered.Pairwise (r.removeAll pending).Precedes := by
  have kept : ∀ id ∈ (r.removeAll pending).ordered, ∀ m, r.matcherAt? id = some m →
      (r.removeAll pending).matcherAt? id = some m := by
    intro id member m found
    obtain ⟨e, foundE, rfl⟩ := Option.map_eq_some_iff.mp found
    rw [ordered_removeAll, List.mem_filter, foundE, Option.isNone_some, Bool.false_or] at member
    obtain ⟨e', stays⟩ := Option.isSome_iff_exists.mp member.2
    obtain rfl := eq_of_get?_removeAll foundE stays
    rw [matcherAt?, stays, Option.map_some]
  have sorted : (r.removeAll pending).ordered.Pairwise r.Precedes := by
    rw [ordered_removeAll]
    exact order.filter _
  refine sorted.imp_of_mem fun memberA memberB precedes => ?_
  obtain ⟨m, other, foundA, foundB, higher⟩ := precedes
  exact ⟨m, other, kept _ memberA m foundA, kept _ memberB other foundB, higher⟩

theorem labelled_register (h : Labelled r) : Labelled (r.register d m parent original) := by
  intro id e found
  by_cases new : id = r.nextId
  · subst new
    simp only [register, get?_addAlias, get?_addChild, get?_insert_self, Option.map_some] at found
    rw [← Option.some.inj found]
    split <;> split <;> rfl
  · rw [get?_register_of_ne new] at found
    obtain ⟨e₀, found₀, rfl⟩ := Option.map_eq_some_iff.mp found
    exact h id e₀ found₀

theorem labelled_registers {r' : Registry} {ms : List Matcher} (h : Registers r r' ms)
    (labelled : Labelled r) : Labelled r' := by
  obtain ⟨steps, rfl, -⟩ := h
  induction steps generalizing r with
  | nil => exact labelled
  | cons s rest ih => exact ih (labelled_register labelled)

theorem labelled_removeAll (h : Labelled r) (pending : List Nat) :
    Labelled (r.removeAll pending) := fun id e found =>
  h id e (get?_of_removeAll found)

end Registry

namespace Router

variable {r : Router} {kind : Matcher → Prop}

/-! ### Runs -/

theorem labelled_within (h : Within kind r) : r.registry.Labelled := by
  induction h with
  | new options lineage =>
    exact fun id e found => absurd found (by simp [new, Registry.empty, Registry.get?])
  | @change r c within _ ih =>
    have outcome := outcome_apply within.ranked.linked c
    generalize r.apply c = next at outcome
    cases outcome with
    | unchanged => exact ih
    | inserted live added =>
      obtain ⟨plan, replaced, -, -, rfl, -⟩ := insertDefinition_eq_ok added
      exact Registry.labelled_registers (Registry.registers_commit plan _ _ _)
        (Registry.labelled_removeAll ih replaced)
    | removed id => exact Registry.labelled_removeAll ih [id]
    | cleared => exact fun id e found => absurd found (by simp [clear, Registry.clear, Registry.get?])

/-- Patterns none of whose segments but the last one scores below zero. -/
def LowOnlyLast (m : Matcher) : Prop := m.score.LowOnlyLast

/-- After any changes the order is sorted. -/
theorem sorted_within (h : Within LowOnlyLast r) :
    r.registry.ordered.Pairwise r.registry.Precedes := by
  induction h with
  | new options lineage => exact .nil
  | @change r c within kinds ih =>
    have linked := within.ranked.linked
    have outcome := outcome_apply linked c
    generalize r.apply c = next at outcome kinds
    cases outcome with
    | unchanged => exact ih
    | inserted live added =>
      obtain ⟨plan, replaced, -, -, rfl, -⟩ := insertDefinition_eq_ok added
      exact Registry.sorted_registers (Registry.registers_commit plan _ _ _)
        (Registry.linked_removeAll linked replaced).filled
        (Registry.sorted_removeAll ih replaced) kinds
    | removed id => exact Registry.sorted_removeAll ih [id]
    | cleared => exact .nil

theorem paths_eq (h : Within kind r) :
    r.records.map (·.path) = r.registry.matchers.map (·.pattern) := by
  rw [records, Registry.matchers, List.map_map, List.map_map]
  refine List.map_congr_left fun e member => ?_
  exact labelled_within h e.id e ((Registry.mem_inOrder h.ranked.linked).mp member)

theorem scores_eq (h : Within kind r) :
    (r.records.map (·.path)).map Score.ofPattern? =
      (r.registry.matchers.map (·.score)).map some := by
  rw [paths_eq h, List.map_map, List.map_map]
  exact List.map_congr_left fun m member => (h.ranked.kinds m member).2.ofPattern?_pattern

/-- One pattern scores higher than another one. -/
def Outranks (p q : String) : Prop :=
  ∃ s t, Score.ofPattern? p = some s ∧ Score.ofPattern? q = some t ∧ s.compare t = .gt

theorem Outranks.asymm {p q : String} (h : Outranks p q) : ¬ Outranks q p := by
  rintro ⟨t', s', isT', isS', below⟩
  obtain ⟨s, t, isS, isT, above⟩ := h
  obtain rfl : s = s' := Option.some.inj (isS.symm.trans isS')
  obtain rfl : t = t' := Option.some.inj (isT.symm.trans isT')
  rw [← Score.compare_swap, above] at below
  exact absurd below (by simp)

/-- In a sorted order of patterns with different scores, each outranks all later ones. -/
theorem pairwise_outranks (h : Within LowOnlyLast r)
    (apart : (r.registry.matchers.map (·.score)).Nodup) :
    (r.records.map (·.path)).Pairwise Outranks := by
  have registrable := fun m member => (h.ranked.kinds m member).2
  rw [paths_eq h, List.pairwise_map]
  rw [List.Nodup, List.pairwise_map] at apart
  have higher : r.registry.matchers.Pairwise fun m other =>
      m.score.compare other.score = .gt ∨ m.score = other.score := by
    rw [Registry.matchers_eq_filterMap, List.pairwise_filterMap]
    refine (sorted_within h).imp ?_
    rintro a b ⟨m, other, foundA, foundB, order⟩ m' isM other' isOther
    obtain rfl : m = m' := Option.some.inj (foundA.symm.trans isM)
    obtain rfl : other = other' := Option.some.inj (foundB.symm.trans isOther)
    exact order.imp_right (·.1)
  refine (higher.and apart).imp_of_mem fun memberM memberO both => ?_
  exact ⟨_, _, (registrable _ memberM).ofPattern?_pattern, (registrable _ memberO).ofPattern?_pattern,
    both.1.resolve_right both.2⟩

/-- As long as no pattern has an inner segment below zero, the order is sorted by score, and among
equal scores the newest comes first; so two routers that have come to the same patterns, all of
different scores, list them in the same order. -/
theorem records_sorted (h : Within LowOnlyLast r) :
    r.registry.ordered.Pairwise r.registry.Precedes ∧
      ∀ r', Within LowOnlyLast r' →
        (r.records.map (·.path)).Perm (r'.records.map (·.path)) →
        (r.registry.matchers.map (·.score)).Nodup →
        r.records.map (·.path) = r'.records.map (·.path) := by
  refine ⟨sorted_within h, fun r' h' same apart => ?_⟩
  have apart' : (r'.registry.matchers.map (·.score)).Nodup := by
    have perm := same.map Score.ofPattern?
    rw [scores_eq h, scores_eq h'] at perm
    exact (perm.nodup (apart.map (Option.some_injective _))).of_map _
  exact same.eq_of_pairwise (fun p q _ _ above below => absurd below above.asymm)
    (pairwise_outranks h apart) (pairwise_outranks h' apart')

/-- A router with two routes that have nothing on them. -/
theorem within_two {raw raw' : String} {settings : PatternOptions} {m m' : Matcher}
    (compiled : Matcher.ofPattern (Path.collapse raw) settings = .ok m)
    (compiled' : Matcher.ofPattern (Path.collapse raw') settings = .ok m')
    (isKind : kind m) (isKind' : kind m') :
    Within kind ((new {} 0).run [.add (leaf raw settings), .add (leaf raw' settings)]) ∧
      ((new {} 0).run [.add (leaf raw settings), .add (leaf raw' settings)]).registry.matchers =
        m'.place [m] := by
  have first := kinds_apply_leaf (.new {} 0) compiled isKind
  refine ⟨kinds_apply_leaf first compiled' isKind', ?_⟩
  have filled := first.ranked.linked.filled
  rw [run, List.foldl_cons, List.foldl_cons, List.foldl_nil, apply_leaf _ compiled',
    Registry.matchers_register filled, apply_leaf _ compiled]
  exact congrArg m'.place (Registry.matchers_register (Registry.linked_empty 0).filled)

/-- Literal text comes before a param that may be missing, whichever was added first. -/
theorem records_sorted_either_way :
    let r := (new {} 0).run [.add (leaf "/a" {}), .add (leaf "/:b*" {})]
    let r' := (new {} 0).run [.add (leaf "/:b*" {}), .add (leaf "/a" {})]
    Within LowOnlyLast r ∧ Within LowOnlyLast r' ∧
      (r.records.map (·.path)).Perm (r'.records.map (·.path)) ∧
      (r.registry.matchers.map (·.score)).Nodup ∧
      r.registry.ordered.Pairwise r.registry.Precedes ∧
      r.records.map (·.path) = r'.records.map (·.path) := by
  obtain ⟨a, compiledA, tokensA⟩ := @Matcher.exists_ofPattern "/a" [.literal "a"]
    (by cbv) (by decide) (show (Regex.ofSource? "^/a/?$").isSome = true by cbv)
  obtain ⟨b, compiledB, tokensB⟩ := @Matcher.exists_ofPattern "/:b*"
    [.param ⟨"b", none, true, true⟩] (by cbv) (by decide)
    (show (Regex.ofSource? "^(?:/((?:[^/]+)(?:/(?:[^/]+))*))?/?$").isSome = true by cbv)
  have scoreA : a.score = ⟨[801]⟩ := by
    rw [Matcher.score, tokensA]
    decide
  have scoreB : b.score = ⟨[-80]⟩ := by
    rw [Matcher.score, tokensB]
    decide
  have lowA : LowOnlyLast a := by simp [LowOnlyLast, Score.LowOnlyLast, scoreA]
  have lowB : LowOnlyLast b := by simp [LowOnlyLast, Score.LowOnlyLast, scoreB]
  have rawA : Path.collapse "/a" = "/a" := by cbv
  have rawB : Path.collapse "/:b*" = "/:b*" := by cbv
  rw [← rawA] at compiledA
  rw [← rawB] at compiledB
  obtain ⟨within, order⟩ := within_two compiledA compiledB lowA lowB
  obtain ⟨within', order'⟩ := within_two compiledB compiledA lowB lowA
  have below : b.score.atMost a.score = true := by
    rw [scoreA, scoreB]
    decide
  have above : ¬ a.score.atMost b.score = true := by
    rw [scoreA, scoreB]
    decide
  rw [Matcher.place, if_neg above, Matcher.place] at order
  rw [Matcher.place, if_pos below] at order'
  have perm : ∀ {r r' : Router}, r.registry.matchers = [a, b] → r'.registry.matchers = [a, b] →
      Within LowOnlyLast r → Within LowOnlyLast r' →
      (r.records.map (·.path)).Perm (r'.records.map (·.path)) := by
    intro r r' isOrder isOrder' h h'
    rw [paths_eq h, paths_eq h', isOrder, isOrder']
  have apart : ([a, b].map (·.score)).Nodup := by
    rw [List.map_cons, List.map_singleton, scoreA, scoreB]
    decide
  rw [← order] at apart
  obtain ⟨sorted, alike⟩ := records_sorted within
  exact ⟨within, within', perm order order' within within', apart, sorted,
    alike _ within' (perm order order' within within') apart⟩

end Router
end Waymark
