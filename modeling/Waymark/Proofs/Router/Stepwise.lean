/-
Adding a route step by step.

A definition with children is entered node by node, and so is the same definition without
its children when they are added under it afterwards.  What the two ways plan with is the
same, since the entry of the new route keeps its matcher, and nothing has to go first where
no name is taken.  So both ways lead to the same router.

* `insertDefinition_eq_commit` — where no name is taken, an addition is one commit;
* `plan_bare` — the plan of a definition without its children;
* `addEach_eq_commitChildren` — children that are added one by one are entered in order;
* `adds_stepwise` — a definition at once is the definition step by step.
-/
import Waymark.Proofs.Router.Addition

namespace Waymark

/-- The definition without what is nested under it. -/
def Definition.bare (d : Definition) : Definition := { d with children := [] }

/-! ### Plans -/

namespace Plan

open Pattern (exists_of_map_eq_ok)

variable {options : RouterOptions} {d : Definition} {parent : Option Parent}

/-- A path that can be planned with what is nested under it can be planned without. -/
theorem variant_bare {nested : Parent → Except DefinitionError (List Plan)} {raw : String}
    {m : Matcher} {children : List Plan}
    (made : variant options d parent nested raw = .ok (node d m children [])) :
    variant options d.bare parent (routes options []) raw = .ok (node d.bare m [] []) := by
  have own : options.patternOptions d.bare = options.patternOptions d := rfl
  rw [variant] at made ⊢
  rw [own]
  split at made
  · exact absurd made (by simp)
  · rename_i m' compiled
    split at made
    · exact absurd made (by simp)
    · rename_i checked
      obtain ⟨children', -, same⟩ := exists_of_map_eq_ok made
      cases same
      rfl

/-- The plans of a definition without aliases, with what is nested under it and without. -/
theorem plan_bare {plan : Plan} (noAlias : d.aliases = [])
    (planned : ofDefinition options d parent = .ok plan) :
    ∃ m children, plan = node d m children [] ∧
      List.Forall₂ (fun d p => route options d (some (parentOf m)) = .ok p) d.children children ∧
      ofDefinition options d.bare parent = .ok (node d.bare m [] []) := by
  obtain ⟨made, -⟩ := ofDefinition_eq_ok planned
  obtain ⟨m, children, aliases, rfl, primary, others⟩ := route_eq_ok made
  rw [noAlias, List.forall₂_nil_left_iff] at others
  obtain ⟨m', children', -, inner, same⟩ := variant_eq_ok primary
  cases same
  have alone : route options d.bare parent = .ok (node d.bare m [] []) := by
    have noAlias' : d.bare.aliases = [] := noAlias
    have noChildren : d.bare.children = [] := rfl
    have path : d.bare.path = d.path := rfl
    rw [route_eq, noChildren, path, variant_bare primary, noAlias']
    rfl
  have single : Pattern.repeatedName? [] (node d.bare m [] []).names = none := by
    rw [names, namesOfAll, List.append_nil]
    cases d.bare.name <;> simp [Pattern.repeatedName?]
  refine ⟨m, children, by rw [others], routes_eq_ok inner, ?_⟩
  rw [ofDefinition, alone]
  simp only [single]

end Plan

namespace Router

variable {r next : Router} {d : Definition} {id : Nat}

/-! ### Additions without conflicts -/

theorem conflicts_of_free {path : String} {parent : Option Nat} {names : List String}
    (free : ∀ name ∈ names, r.registry.named? name = none) :
    r.conflicts path parent names = .ok [] := by
  induction names with
  | nil => rfl
  | cons name names ih =>
    obtain ⟨first, others⟩ := List.forall_mem_cons.mp free
    rw [conflicts, first]
    exact ih others

/-- Where no name is taken, an addition is one commit. -/
theorem insertDefinition_eq_commit {parent : Option Entry} {plan : Plan}
    (planned :
      Plan.ofDefinition r.options d (parent.map fun e => Plan.parentOf e.matcher) = .ok plan)
    (free : ∀ name ∈ plan.names, r.registry.named? name = none) :
    r.insertDefinition d parent =
      .ok ({ r with registry := r.registry.commit (parent.map (·.id)) none plan },
        r.registry.nextId) := by
  rw [insertDefinition, planned]
  simp only [conflicts_of_free free, List.foldl_nil]

/-- Adds several routes under another one, in order. -/
def addEach (r : Router) (parent : RouteRef) : List Definition → Except DefinitionError Router
  | [] => .ok r
  | d :: rest =>
    match r.addUnder parent d with
    | .error error => .error error
    | .ok (next, _) => next.addEach parent rest

/-- Children that are added one by one under an entry are entered in order, as they were planned
for the matcher of the entry. -/
theorem addEach_eq_commitChildren {m : Matcher} {plans : List Plan} :
    ∀ {r : Router} {ds : List Definition} {index : Nat}, r.registry.Linked →
      r.registry.Nests ds plans id none index →
      (∃ e, r.registry.get? id = some e ∧ e.matcher = m) →
      List.Forall₂ (fun d p => Plan.route r.options d (some (Plan.parentOf m)) = .ok p) ds plans →
      r.addEach (.id id) ds =
        .ok { r with registry := r.registry.commitChildren id none index plans } := by
  induction plans with
  | nil =>
    intro r ds index _ _ _ planned
    rw [List.forall₂_nil_right_iff.mp planned, Registry.commitChildren]
    rfl
  | cons plan plans ih =>
    intro r ds index h nests live planned
    obtain ⟨d, ds, made, others, rfl⟩ := List.forall₂_cons_right_iff.mp planned
    obtain ⟨e, found, isMatcher⟩ := live
    obtain ⟨distinct, free⟩ := nests.names rfl
    rw [Plan.namesOfAll] at distinct free
    have noOriginal : r.registry.childAt? none index = none := rfl
    -- no name of the child is taken, so its plan is entered and nothing else happens
    have planned : Plan.ofDefinition r.options d
        ((some e).map fun e => Plan.parentOf e.matcher) = .ok plan := by
      rw [Plan.ofDefinition, Option.map_some, isMatcher, made]
      simp only [Pattern.repeatedName?_of_nodup (List.nodup_append.mp distinct).1
        fun _ _ => List.not_mem_nil]
    have added := insertDefinition_eq_commit planned fun name member => by
      rw [Registry.named?, free name (List.mem_append_left _ member), Option.bind_none]
    rw [Option.map_some, h.number found] at added
    have entered := (Registry.entersWell plan h (nests.welcomes h)).1
    rw [noOriginal] at entered
    obtain ⟨_, _, found', -⟩ := entered.grown.kept found
    have lookup : r.lookup? (.id id) = some e := found
    rw [addEach, addUnder, lookup]
    simp only [added]
    rw [Registry.commitChildren, noOriginal]
    exact ih entered.linked (nests.next h entered) ⟨_, found', isMatcher⟩ others

/-! ### A definition at once -/

/-- A record keeps nothing of what is nested. -/
theorem register_bare (r : Registry) (d : Definition) (m : Matcher) (parent original : Option Nat) :
    r.register d.bare m parent original = r.register d m parent original := rfl

theorem commit_bare (r : Registry) (d : Definition) (m : Matcher) (parent original : Option Nat) :
    r.commit parent original (.node d.bare m [] []) = r.register d m parent original := by
  rw [Registry.commit, Registry.commitChildren, Registry.commitAliases, register_bare]

theorem commit_of_noAlias (r : Registry) (d : Definition) (m : Matcher) (children : List Plan)
    (parent original : Option Nat) :
    r.commit parent original (.node d m children []) =
      (r.register d m parent original).commitChildren r.nextId original 0 children := by
  rw [Registry.commit, Registry.commitAliases]

/-- After any run, a definition without aliases of its own, none of whose names is taken, may as
well be added step by step if it can be added at once: first without its children, and then the
children one by one under the number of the new route.  Both ways lead to the same router. -/
theorem adds_stepwise (options : RouterOptions) (lineage : Nat) (changes : List Change)
    (parent : Option RouteRef) (noAlias : d.aliases = [])
    (free : ∀ name ∈ d.names,
      ((new options lineage).run changes).registry.named? name = none)
    (added : ((new options lineage).run changes).addAt parent d = .ok (next, id)) :
    ∃ bare, ((new options lineage).run changes).addAt parent d.bare = .ok (bare, id) ∧
      bare.addEach (.id id) d.children = .ok next := by
  have h := linked_run options lineage changes
  generalize (new options lineage).run changes = r at h free added
  obtain ⟨isLive, inserted⟩ := addAt_eq_ok added
  have live : ∀ e, parent.bind r.lookup? = some e → r.registry.get? e.id = some e :=
    fun _ => get?_of_bind_lookup? h
  rw [addAt_of_isSome isLive]
  generalize parent.bind r.lookup? = top at inserted live
  obtain ⟨plan, replaced, planned, conflictFree, rfl, rfl⟩ := insertDefinition_eq_ok inserted
  have names := Definition.names_of_follows (Plan.follows_of_ofDefinition planned)
  rw [conflicts_of_free (names ▸ free)] at conflictFree
  obtain rfl := Except.ok.inj conflictFree
  have welcome := welcomes_removeAll h live planned (conflicts_of_free (names ▸ free))
  rw [Registry.removeAll_nil] at welcome ⊢
  obtain ⟨m, children, rfl, plannedChildren, plannedBare⟩ := Plan.plan_bare noAlias planned
  have own : ∀ name ∈ (Plan.node d.bare m [] []).names, name ∈ d.names := by
    intro name member
    rw [Plan.names, Plan.namesOfAll, List.append_nil] at member
    rw [← names, Plan.names]
    exact List.mem_append_left _ member
  have alone := insertDefinition_eq_commit plannedBare
    fun name member => free name (own name member)
  rw [commit_bare] at alone
  refine ⟨_, alone, ?_⟩
  rw [commit_of_noAlias]
  have admitted := welcome.admits h
  exact addEach_eq_commitChildren (Registry.linked_register h admitted) (welcome.nests h)
    ⟨_, Registry.get?_register_self (admitted.parent_ne h) (admitted.original_ne h), rfl⟩
    plannedChildren

/-- The child has an alias and a child of its own. -/
theorem adds_stepwise_nested : ∃ d next id bare,
    d = { path := "", name := some "n", children := [
      { path := ":b", aliases := ["/:b"], children := [{ path := ":c?" }] }] : Definition } ∧
    ((new {} 0).run []).addAt none d = .ok (next, id) ∧
      ((new {} 0).run []).addAt none d.bare = .ok (bare, id) ∧
      bare.addEach (.id id) d.children = .ok next := by
  have accepted : (((new {} 0).run []).addAt none { path := "", name := some "n", children := [
      { path := ":b", aliases := ["/:b"], children := [{ path := ":c?" }] }] }).isOk = true := by cbv
  obtain ⟨⟨next, id⟩, added⟩ := Pattern.exists_of_isOk accepted
  obtain ⟨bare, alone, each⟩ := adds_stepwise {} 0 [] none rfl (fun _ _ => rfl) added
  exact ⟨_, next, id, bare, rfl, added, alone, each⟩

end Router
end Waymark
