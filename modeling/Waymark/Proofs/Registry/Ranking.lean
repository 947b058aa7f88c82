/-
The order in which the matchers of a registry are tried.

Every new matcher is placed before the first one that is not more specific.  The
comparison of scores is not transitive, so the order is not sorted by it; what holds
after any history is weaker: from each matcher to each later one the scores lead down
step by step (`Descends`), through matchers that may be gone by now.

* `registers_commit` — entering a plan is to register its matchers one by one;
* `matchers_register`, `matchers_removeAll` — what that and a removal do to the order;
* `pairwise_place` — a matcher that is placed keeps the order descending.
-/
import Mathlib.Logic.Relation
import Waymark.Proofs.Registry.Commit
import Waymark.Proofs.Registry.Removal
import Waymark.Proofs.Score.Order

namespace Waymark

namespace Matcher

/-- The matchers with one more, before the first that is not more specific. -/
def place (m : Matcher) : List Matcher → List Matcher
  | [] => [m]
  | other :: rest =>
    if other.score.atMost m.score then m :: other :: rest else other :: place m rest

/-- A matcher of a kind that is at least as specific as another one of the kind. -/
def Above (kind : Matcher → Prop) (m other : Matcher) : Prop :=
  kind m ∧ kind other ∧ other.score.atMost m.score = true

/-- From one matcher of a kind to another the scores lead down step by step. -/
def Descends (kind : Matcher → Prop) : Matcher → Matcher → Prop :=
  Relation.TransGen (Above kind)

theorem mem_place {m other : Matcher} {ms : List Matcher} :
    other ∈ place m ms ↔ other = m ∨ other ∈ ms := by
  induction ms with
  | nil => simp [place]
  | cons first rest ih =>
    rw [place]
    split
    · exact List.mem_cons
    · rw [List.mem_cons, ih, List.mem_cons, or_left_comm]

/-- A matcher that is placed keeps the order descending. -/
theorem pairwise_place {kind : Matcher → Prop} {m : Matcher} {ms : List Matcher}
    (isKind : kind m) (kinds : ∀ other ∈ ms, kind other) (order : ms.Pairwise (Descends kind)) :
    (place m ms).Pairwise (Descends kind) := by
  induction ms with
  | nil => exact List.pairwise_singleton _ m
  | cons first rest ih =>
    obtain ⟨below, order⟩ := List.pairwise_cons.mp order
    have isKindF := kinds first List.mem_cons_self
    rw [place]
    split
    · rename_i atMost
      -- the first one is a step down, and it leads down to all others
      have step : Descends kind m first := .single ⟨isKind, isKindF, atMost⟩
      refine List.pairwise_cons.mpr ⟨?_, List.pairwise_cons.mpr ⟨below, order⟩⟩
      intro other member
      rcases List.mem_cons.mp member with rfl | member
      · exact step
      · exact step.trans (below other member)
    · rename_i above
      have step : Descends kind first m :=
        .single ⟨isKindF, isKind, Score.atMost_of_not_atMost above⟩
      refine List.pairwise_cons.mpr ⟨?_, ih (fun other member =>
        kinds other (List.mem_cons_of_mem _ member)) order⟩
      intro other member
      rcases mem_place.mp member with rfl | member
      · exact step
      · exact below other member

end Matcher

namespace Registry

variable {r : Registry} {d : Definition} {m : Matcher} {parent original : Option Nat}

/-- The matcher of the entry with a number. -/
def matcherAt? (r : Registry) (id : Nat) : Option Matcher := (r.get? id).map (·.matcher)

/-- The matchers in the order in which they are tried. -/
def matchers (r : Registry) : List Matcher := r.inOrder.map (·.matcher)

theorem matchers_eq_filterMap (r : Registry) : r.matchers = r.ordered.filterMap r.matcherAt? := by
  rw [matchers, inOrder, List.map_filterMap]
  rfl

/-- The order holds only entries that are there, under numbers given out already. -/
def Filled (r : Registry) : Prop :=
  ∀ id ∈ r.ordered, id < r.nextId ∧ ∃ m, r.matcherAt? id = some m

theorem Linked.filled (h : Linked r) : Filled r := by
  intro id member
  obtain ⟨e, found⟩ := h.mem_ordered.mp member
  refine ⟨h.lt_nextId found, e.matcher, ?_⟩
  rw [matcherAt?, found, Option.map_some]

/-! ### One matcher -/

theorem matcherAt?_register_self :
    (r.register d m parent original).matcherAt? r.nextId = some m := by
  simp only [matcherAt?, register, get?_addAlias, get?_addChild, get?_insert_self, Option.map_some]
  split <;> split <;> rfl

theorem matcherAt?_register_of_ne {id : Nat} (h : id ≠ r.nextId) :
    (r.register d m parent original).matcherAt? id = r.matcherAt? id := by
  rw [matcherAt?, get?_register_of_ne h, Option.map_map]
  rfl

theorem filled_register (h : Filled r) : Filled (r.register d m parent original) := by
  intro id member
  rw [ordered_register] at member
  rw [nextId_register]
  rcases List.mem_cons.mp ((insertBefore_perm _ _ _).mem_iff.mp member) with rfl | old
  · exact ⟨Nat.lt_succ_self _, m, matcherAt?_register_self⟩
  · obtain ⟨older, other, found⟩ := h id old
    refine ⟨Nat.lt_succ_of_lt older, other, ?_⟩
    rw [matcherAt?_register_of_ne (Nat.ne_of_lt older), found]

theorem matchers_register (h : Filled r) :
    (r.register d m parent original).matchers = Matcher.place m r.matchers := by
  have known : ∀ id ∈ r.ordered,
      (r.register d m parent original).matcherAt? id = r.matcherAt? id :=
    fun id member => matcherAt?_register_of_ne (Nat.ne_of_lt (h id member).1)
  rw [matchers_eq_filterMap, matchers_eq_filterMap, ordered_register]
  -- numbers and matchers are placed side by side
  have places : ∀ ids : List Nat, (∀ id ∈ ids, id ∈ r.ordered) →
      (insertBefore (r.isAtMost m.score) r.nextId ids).filterMap
          (r.register d m parent original).matcherAt? =
        Matcher.place m (ids.filterMap r.matcherAt?) := by
    intro ids
    induction ids with
    | nil =>
      intro _
      rw [insertBefore, List.filterMap_cons_some matcherAt?_register_self]
      rfl
    | cons id rest ih =>
      intro members
      have member := members id List.mem_cons_self
      have others := fun other inRest => members other (List.mem_cons_of_mem _ inRest)
      obtain ⟨-, own, found⟩ := h id member
      have found' := (known id member).trans found
      have unchanged : rest.filterMap (r.register d m parent original).matcherAt? =
          rest.filterMap r.matcherAt? :=
        List.filterMap_congr fun other inRest => known other (others other inRest)
      have decided : r.isAtMost m.score id = own.score.atMost m.score := by
        obtain ⟨e, foundE, rfl⟩ := Option.map_eq_some_iff.mp found
        rw [isAtMost, foundE, Option.any_some]
      rw [insertBefore, decided, List.filterMap_cons_some found, Matcher.place]
      split
      · rw [List.filterMap_cons_some matcherAt?_register_self, List.filterMap_cons_some found',
          unchanged]
      · rw [List.filterMap_cons_some found', ih others]
  exact places r.ordered fun _ member => member

/-! ### Plans -/

/-- What one registration enters, and where. -/
structure Registration where
  definition : Definition
  matcher : Matcher
  parent : Option Nat
  original : Option Nat

/-- The registry after some registrations. -/
def registerAll (r : Registry) (steps : List Registration) : Registry :=
  steps.foldl (fun r s => r.register s.definition s.matcher s.parent s.original) r

theorem registerAll_append (r : Registry) (steps more : List Registration) :
    r.registerAll (steps ++ more) = (r.registerAll steps).registerAll more := List.foldl_append

/-- Going from one registry to another is to register matchers one by one. -/
def Registers (r r' : Registry) (ms : List Matcher) : Prop :=
  ∃ steps, r' = r.registerAll steps ∧ steps.map (·.matcher) = ms

theorem Registers.trans {r' r'' : Registry} {ms ms' : List Matcher} (first : Registers r r' ms)
    (second : Registers r' r'' ms') : Registers r r'' (ms ++ ms') := by
  obtain ⟨steps, rfl, rfl⟩ := first
  obtain ⟨more, rfl, rfl⟩ := second
  exact ⟨steps ++ more, (registerAll_append r steps more).symm, List.map_append⟩

theorem registers_commitChildren {plans : List Plan}
    (all : ∀ plan ∈ plans, ∀ r parent original,
      Registers r (r.commit parent original plan) plan.matchers)
    (p : Nat) (original : Option Nat) (r : Registry) (index : Nat) :
    Registers r (r.commitChildren p original index plans) (Plan.matchersOfAll plans) := by
  induction plans generalizing r index with
  | nil =>
    rw [commitChildren, Plan.matchersOfAll]
    exact ⟨[], rfl, rfl⟩
  | cons plan rest ih =>
    rw [commitChildren, Plan.matchersOfAll]
    exact (all plan List.mem_cons_self r (some p) (r.childAt? original index)).trans
      (ih (fun other member => all other (List.mem_cons_of_mem _ member)) _ (index + 1))

theorem registers_commitAliases {plans : List Plan}
    (all : ∀ plan ∈ plans, ∀ r parent original,
      Registers r (r.commit parent original plan) plan.matchers)
    (parent : Option Nat) (o : Nat) (r : Registry) :
    Registers r (r.commitAliases parent o plans) (Plan.matchersOfAll plans) := by
  induction plans generalizing r with
  | nil =>
    rw [commitAliases, Plan.matchersOfAll]
    exact ⟨[], rfl, rfl⟩
  | cons plan rest ih =>
    rw [commitAliases, Plan.matchersOfAll]
    exact (all plan List.mem_cons_self r parent (some o)).trans
      (ih (fun other member => all other (List.mem_cons_of_mem _ member)) _)

/-- Entering a plan is to register its matchers one by one. -/
theorem registers_commit (plan : Plan) (r : Registry) (parent original : Option Nat) :
    Registers r (r.commit parent original plan) plan.matchers := by
  induction plan using Plan.induction generalizing r parent original with
  | step d m children aliases nested others =>
    rw [commit, Plan.matchers]
    have own : Registers r (r.register d m parent original) [m] :=
      ⟨[⟨d, m, parent, original⟩], rfl, rfl⟩
    have below := registers_commitChildren nested r.nextId original
      (r.register d m parent original) 0
    exact own.trans (below.trans (registers_commitAliases others parent (original.getD r.nextId) _))

theorem Registers.matchers {r' : Registry} {ms : List Matcher} (h : Registers r r' ms)
    (filled : Filled r) :
    Filled r' ∧ r'.matchers = ms.foldl (fun all m => m.place all) r.matchers := by
  obtain ⟨steps, rfl, rfl⟩ := h
  induction steps generalizing r with
  | nil => exact ⟨filled, rfl⟩
  | cons s rest ih =>
    obtain ⟨filled', order⟩ := ih (filled_register filled)
    refine ⟨filled', order.trans ?_⟩
    rw [matchers_register filled, List.map_cons, List.foldl_cons]

/-! ### Removals -/

theorem matchers_removeAll (r : Registry) (pending : List Nat) :
    (r.removeAll pending).matchers = r.ordered.filterMap (r.removeAll pending).matcherAt? := by
  rw [matchers_eq_filterMap, ordered_removeAll, List.filterMap_filter]
  refine List.filterMap_congr fun id _ => ?_
  split
  · rfl
  · rename_i gone
    rw [Bool.or_eq_true, not_or, Option.not_isSome_iff_eq_none] at gone
    rw [matcherAt?, gone.2, Option.map_none]

/-- A removal leaves the matchers of what stays, in the same order. -/
theorem matchers_removeAll_sublist (r : Registry) (pending : List Nat) :
    (r.removeAll pending).matchers.Sublist r.matchers := by
  rw [matchers_removeAll, matchers_eq_filterMap]
  induction r.ordered with
  | nil => exact .slnil
  | cons id rest ih =>
    cases stays : (r.removeAll pending).matcherAt? id with
    | none =>
      rw [List.filterMap_cons_none stays, List.filterMap_cons]
      split
      · exact ih
      · exact ih.cons _
    | some m =>
      obtain ⟨e, found, rfl⟩ := Option.map_eq_some_iff.mp stays
      have before : r.matcherAt? id = some e.matcher := by
        rw [matcherAt?, get?_of_removeAll found, Option.map_some]
      rw [List.filterMap_cons_some stays, List.filterMap_cons_some before]
      exact ih.cons_cons e.matcher

/-! ### The search -/

/-- The search takes the first matcher that recognizes the path. -/
theorem find?_eq_find?_matchers (r : Registry) (path : String) :
    (r.find? path).map (·.1.matcher) = r.matchers.find? fun m => (m.recognize path).isSome := by
  rw [find?, matchers]
  induction r.inOrder with
  | nil => rfl
  | cons e rest ih =>
    rw [List.findSome?_cons, List.map_cons, List.find?_cons]
    cases recognized : e.matcher.recognize path with
    | none => exact ih
    | some params => rfl

end Registry
end Waymark
