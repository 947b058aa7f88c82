/-
The shape of plans.

A plan repeats the tree of its definition: every node belongs to a definition, its
children to the definition's children, one for one, and its aliases to the definition
once more (`Plan.Follows`).  So what is nested under an alias is, place by place, what
is nested under the primary path.

* `follows_of_ofDefinition` — a plan follows the definition that it was made for;
* `names_nodup_of_ofDefinition` — no name occurs twice outside of its aliases;
* `ofPattern_of_mem_matchers` — every matcher in it is that of a resolved path.
-/
import Mathlib.Data.List.Forall2
import Waymark.Plan
import Waymark.Proofs.Pattern.Tokens

namespace Waymark
namespace Plan

open Pattern (exists_of_map_eq_ok)

mutual

/-- The plan is one for the definition. -/
def Follows (d : Definition) : Plan → Prop
  | node d' _ children aliases =>
    d' = d ∧ FollowInOrder d.children children ∧ AllFollow d aliases

/-- The plans are those for the definitions, one for one. -/
def FollowInOrder (ds : List Definition) : List Plan → Prop
  | [] => ds = []
  | plan :: rest => ∃ d ds', ds = d :: ds' ∧ Follows d plan ∧ FollowInOrder ds' rest

/-- The plans are all for the same definition. -/
def AllFollow (d : Definition) : List Plan → Prop
  | [] => True
  | plan :: rest => Follows d plan ∧ AllFollow d rest

end

mutual

/-- The matchers of a plan, those of aliases included. -/
def matchers : Plan → List Matcher
  | node _ m children aliases => m :: (matchersOfAll children ++ matchersOfAll aliases)

/-- The matchers of several plans. -/
def matchersOfAll : List Plan → List Matcher
  | [] => []
  | plan :: rest => plan.matchers ++ matchersOfAll rest

end

variable {options : RouterOptions} {d : Definition} {parent : Option Parent}

/-! ### The steps of planning -/

theorem variant_eq_ok {nested : Parent → Except DefinitionError (List Plan)} {raw : String}
    {plan : Plan} (h : variant options d parent nested raw = .ok plan) :
    ∃ m children,
      Matcher.ofPattern (Path.resolve raw (parent.map (·.path)))
          (options.patternOptions d) = .ok m ∧
        nested (parentOf m) = .ok children ∧ plan = node d m children [] := by
  rw [variant] at h
  split at h
  · exact absurd h (by simp)
  · rename_i m compiled
    split at h
    · exact absurd h (by simp)
    · obtain ⟨children, inner, rfl⟩ := exists_of_map_eq_ok h
      exact ⟨m, children, compiled, inner, rfl⟩

theorem variants_eq_ok {plan : String → Except DefinitionError Plan} {primary : Plan} :
    ∀ {raws : List String} {planned : List Plan}, variants plan primary raws = .ok planned →
      List.Forall₂ (fun raw p => plan raw = .ok p ∧ checkAlias primary p = .ok ()) raws
        planned := by
  intro raws
  induction raws with
  | nil =>
    intro planned h
    simp only [variants, Except.ok.injEq] at h
    subst h
    exact .nil
  | cons raw rest ih =>
    intro planned h
    rw [variants] at h
    split at h
    · exact absurd h (by simp)
    · rename_i p made
      split at h
      · exact absurd h (by simp)
      · rename_i checked
        obtain ⟨planned', others, rfl⟩ := exists_of_map_eq_ok h
        exact .cons ⟨made, checked⟩ (ih others)

theorem route_eq (options : RouterOptions) (d : Definition) (parent : Option Parent) :
    route options d parent =
      match variant options d parent (routes options d.children) d.path with
      | .error error => .error error
      | .ok primary =>
        (variants (variant options d parent (routes options d.children)) primary d.aliases).map
          primary.withAliases := by
  cases d
  exact route.eq_def options _ parent

/-- How the plan of a definition is put together. -/
theorem route_eq_ok {plan : Plan} (h : route options d parent = .ok plan) :
    ∃ m children aliases, plan = node d m children aliases ∧
      variant options d parent (routes options d.children) d.path = .ok (node d m children []) ∧
      List.Forall₂ (fun raw p =>
        variant options d parent (routes options d.children) raw = .ok p ∧
          checkAlias (node d m children []) p = .ok ()) d.aliases aliases := by
  rw [route_eq] at h
  split at h
  · exact absurd h (by simp)
  · rename_i primary made
    obtain ⟨m, children, -, -, rfl⟩ := variant_eq_ok made
    obtain ⟨planned, others, rfl⟩ := exists_of_map_eq_ok h
    exact ⟨m, children, planned, rfl, made, variants_eq_ok others⟩

theorem routes_eq_ok {parent : Parent} {ds : List Definition} {plans : List Plan}
    (h : routes options ds parent = .ok plans) :
    List.Forall₂ (fun d p => route options d (some parent) = .ok p) ds plans := by
  induction ds generalizing plans with
  | nil =>
    simp only [routes, Except.ok.injEq] at h
    subst h
    exact .nil
  | cons d rest ih =>
    rw [routes] at h
    split at h
    · exact absurd h (by simp)
    · rename_i p made
      obtain ⟨planned, others, rfl⟩ := exists_of_map_eq_ok h
      exact .cons made (ih others)

/-! ### Induction over the tree of a definition -/

theorem exists_of_mem_right {α β : Type} {related : α → β → Prop} {as : List α} {bs : List β}
    (h : List.Forall₂ related as bs) {b : β} (member : b ∈ bs) : ∃ a ∈ as, related a b := by
  induction h with
  | nil => exact absurd member List.not_mem_nil
  | cons first _ ih =>
    rcases List.mem_cons.mp member with rfl | member
    · exact ⟨_, List.mem_cons_self, first⟩
    · obtain ⟨a, memberA, both⟩ := ih member
      exact ⟨a, List.mem_cons_of_mem _ memberA, both⟩

theorem sizeOf_lt_of_mem_children {d c : Definition} (member : c ∈ d.children) :
    sizeOf c < sizeOf d := by
  have inList := List.sizeOf_lt_of_mem member
  have inTree : sizeOf d.children < sizeOf d := by
    cases d
    simp only [Definition.mk.sizeOf_spec]
    omega
  omega

/-- What holds of a definition whenever it holds of its children holds of every definition. -/
theorem definition_induction {motive : Definition → Prop}
    (step : ∀ d, (∀ c ∈ d.children, motive c) → motive d) (d : Definition) : motive d :=
  step d fun c _ => definition_induction step c
termination_by sizeOf d
decreasing_by exact sizeOf_lt_of_mem_children ‹_›

theorem followInOrder_iff {ds : List Definition} {plans : List Plan} :
    FollowInOrder ds plans ↔ List.Forall₂ Follows ds plans := by
  induction plans generalizing ds with
  | nil =>
    rw [FollowInOrder, List.forall₂_nil_right_iff]
  | cons plan rest ih =>
    rw [FollowInOrder, List.forall₂_cons_right_iff]
    constructor
    · rintro ⟨d, ds', rfl, first, others⟩
      exact ⟨d, ds', first, ih.mp others, rfl⟩
    · rintro ⟨d, ds', first, others, rfl⟩
      exact ⟨d, ds', rfl, first, ih.mpr others⟩

theorem allFollow_iff {plans : List Plan} :
    AllFollow d plans ↔ ∀ plan ∈ plans, Follows d plan := by
  induction plans with
  | nil => simp [AllFollow]
  | cons plan rest ih => rw [AllFollow, ih, List.forall_mem_cons]

theorem follows_node {d' : Definition} {m : Matcher} {children aliases : List Plan} :
    Follows d (node d' m children aliases) ↔
      d' = d ∧ List.Forall₂ Follows d.children children ∧ ∀ a ∈ aliases, Follows d a := by
  rw [Follows, followInOrder_iff, allFollow_iff]

theorem follows_of_route {plan : Plan} (h : route options d parent = .ok plan) :
    Follows d plan := by
  induction d using definition_induction generalizing parent plan with
  | step d ih =>
    -- every path of the definition is planned with the same children
    have nested : ∀ {raw : String} {p : Plan},
        variant options d parent (routes options d.children) raw = .ok p →
        Follows d p := by
      intro raw p made
      obtain ⟨m, children, -, inner, rfl⟩ := variant_eq_ok made
      rw [follows_node]
      refine ⟨rfl, ?_, by simp⟩
      have members : ∀ c ∈ d.children, c ∈ d.children := fun _ member => member
      refine (List.forall₂_and_left _ _ |>.mpr ⟨members, routes_eq_ok inner⟩).imp ?_
      rintro c p ⟨member, made⟩
      exact ih c member made
    obtain ⟨m, children, aliases, rfl, primary, others⟩ := route_eq_ok h
    obtain ⟨same, inOrder, -⟩ := follows_node.mp (nested primary)
    rw [follows_node]
    refine ⟨same, inOrder, fun a member => ?_⟩
    obtain ⟨raw, -, made, -⟩ := exists_of_mem_right others member
    exact nested made

theorem ofDefinition_eq_ok {plan : Plan} (h : ofDefinition options d parent = .ok plan) :
    route options d parent = .ok plan ∧ Pattern.repeatedName? [] plan.names = none := by
  rw [ofDefinition] at h
  split at h
  · exact absurd h (by simp)
  · rename_i made
    split at h
    · exact absurd h (by simp)
    · rename_i unrepeated
      rw [← Except.ok.inj h]
      exact ⟨made, unrepeated⟩

theorem follows_of_ofDefinition {plan : Plan} (h : ofDefinition options d parent = .ok plan) :
    Follows d plan := follows_of_route (ofDefinition_eq_ok h).1

theorem names_nodup_of_ofDefinition {plan : Plan} (h : ofDefinition options d parent = .ok plan) :
    plan.names.Nodup :=
  (Pattern.repeatedName?_eq_none (ofDefinition_eq_ok h).2).1

/-! ### The matchers of a plan -/

theorem mem_matchersOfAll {m : Matcher} {plans : List Plan} :
    m ∈ matchersOfAll plans ↔ ∃ plan ∈ plans, m ∈ plan.matchers := by
  induction plans with
  | nil => simp [matchersOfAll]
  | cons plan rest ih => simp [matchersOfAll, ih]

theorem mem_matchers_node {d : Definition} {m own : Matcher} {children aliases : List Plan} :
    m ∈ (node d own children aliases).matchers ↔
      m = own ∨ (∃ c ∈ children, m ∈ c.matchers) ∨ ∃ a ∈ aliases, m ∈ a.matchers := by
  rw [matchers, List.mem_cons, List.mem_append, mem_matchersOfAll, mem_matchersOfAll]

theorem ofPattern_of_mem_matchers {plan : Plan} (h : route options d parent = .ok plan)
    {m : Matcher} (member : m ∈ plan.matchers) :
    ∃ raw above settings, Matcher.ofPattern (Path.resolve raw above) settings = .ok m := by
  induction d using definition_induction generalizing parent plan with
  | step d ih =>
    have nested : ∀ {raw : String} {p : Plan},
        variant options d parent (routes options d.children) raw = .ok p → m ∈ p.matchers →
        ∃ raw above settings, Matcher.ofPattern (Path.resolve raw above) settings = .ok m := by
      intro raw p made memberP
      obtain ⟨own, children, compiled, inner, rfl⟩ := variant_eq_ok made
      rcases mem_matchers_node.mp memberP with rfl | ⟨c, memberC, inside⟩ | ⟨a, memberA, -⟩
      · exact ⟨_, _, _, compiled⟩
      · obtain ⟨dc, memberD, madeC⟩ := exists_of_mem_right (routes_eq_ok inner) memberC
        exact ih dc memberD madeC inside
      · exact absurd memberA List.not_mem_nil
    obtain ⟨own, children, aliases, rfl, primary, others⟩ := route_eq_ok h
    rcases mem_matchers_node.mp member with rfl | inside | ⟨a, memberA, inside⟩
    · exact nested primary (mem_matchers_node.mpr (Or.inl rfl))
    · exact nested primary (mem_matchers_node.mpr (Or.inr (Or.inl inside)))
    · obtain ⟨raw, -, made, -⟩ := exists_of_mem_right others memberA
      exact nested made inside

end Plan
end Waymark
