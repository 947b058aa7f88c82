/-
The params of nested routes.

A nested route declares the params of everything that it is nested under.  A relative
path gets them from the text of the parent's pattern, which stands in front of its own
and is read into the same tokens again; an absolute one is refused unless it repeats
them.  Both is settled path by path, against the very pattern that the entry is to be
nested under, so it makes no difference whether the path or the parent is an alias.

* `Matcher.inherits_resolve` — a path that passes the check under a parent;
* `Registry.inherits_site` — the entry of every site below another one;
* `declares_of_ancestor` — after every run an entry declares the params of its ancestors.
-/
import Waymark.Proofs.Router.Aliases
import Waymark.Proofs.Router.Chain
import Waymark.Proofs.Router.Frame

namespace Waymark

namespace Matcher

variable {m above : Matcher} {raw : String}

/-- The pattern declares every param that the one above it declares. -/
def Inherits (m above : Matcher) : Prop :=
  ∀ name, above.declares name = true → m.declares name = true

theorem Inherits.trans {top : Matcher} (h : m.Inherits above) (h' : above.Inherits top) :
    m.Inherits top := fun name declared => h name (h' name declared)

theorem inherits_of_keys_subset (h : ∀ key ∈ above.keys, key ∈ m.keys) : m.Inherits above := by
  intro name declared
  obtain ⟨key, member, same⟩ := List.any_eq_true.mp declared
  exact List.any_eq_true.mpr ⟨key, h key member, same⟩

/-- An absolute path that passes the check repeats the params of the parent. -/
theorem inherits_of_checkParent (absolute : raw.toList.head? = some '/')
    (checked : Plan.checkParent raw (some (Plan.parentOf above)) m = .ok ()) :
    m.Inherits above := by
  simp only [Plan.checkParent, if_pos absolute] at checked
  split at checked
  · exact absurd checked (by simp)
  · rename_i complete
    intro name declared
    obtain ⟨key, member, same⟩ := List.any_eq_true.mp declared
    have repeated := List.find?_eq_none.mp complete key member
    rw [← of_decide_eq_true same]
    simpa using repeated

/-- A path under a parent, relative or absolute, declares the params of the parent. -/
theorem inherits_resolve (registrable : above.Registrable) {settings : PatternOptions}
    (compiled : ofPattern (Path.resolve raw (some above.pattern)) settings = .ok m)
    (checked : Plan.checkParent raw (some (Plan.parentOf above)) m = .ok ()) :
    m.Inherits above := by
  by_cases absolute : raw.toList.head? = some '/'
  · exact inherits_of_checkParent absolute checked
  · obtain ⟨own, -, isTokens⟩ := registrable.tokens_nested absolute compiled
    refine inherits_of_keys_subset fun key member => ?_
    rw [keys_of_tokens_append isTokens]
    exact List.mem_append_left _ member

end Matcher

namespace Plan

variable {options : RouterOptions} {d : Definition} {parent : Option Parent} {plan : Plan}
  {raw : String}

theorem checkParent_of_variant {nested : Parent → Except DefinitionError (List Plan)}
    (h : variant options d parent nested raw = .ok plan) :
    checkParent raw parent plan.matcher = .ok () := by
  rw [variant] at h
  split at h
  · exact absurd h (by simp)
  · rename_i m _
    split at h
    · exact absurd h (by simp)
    · rename_i checked
      obtain ⟨children, -, rfl⟩ := Pattern.exists_of_map_eq_ok h
      exact checked

/-- Each path of a planned definition was planned by itself. -/
theorem exists_variant (planned : route options d parent = .ok plan) {choice : Option Nat}
    (chosen : d.path? choice = some raw) :
    ∃ p, variant options d parent (routes options d.children) raw = .ok p := by
  obtain ⟨m, children, aliases, -, primary, others⟩ := route_eq_ok planned
  cases choice with
  | none =>
    obtain rfl : d.path = raw := Option.some.inj chosen
    exact ⟨_, primary⟩
  | some place =>
    obtain ⟨p, -, made, -⟩ := exists_of_mem_right others.flip (List.mem_of_getElem? chosen)
    exact ⟨p, made⟩

end Plan

namespace Registry

open Definition (rank)

variable {options : RouterOptions} {r : Registry} {d node : Definition} {raw : String}
  {base q : Nat} {top original : Option Nat} {e p : Entry} {s : Site}

/-- In the tree of a plan the entry of each site inherits the params of the one above it, if the
plan was made for the entry that the tree is nested under. -/
theorem inherits_site {above : Option Plan.Parent} {plan : Plan}
    (pattern : r.patternOf? top = above.map (·.path))
    (under : ∀ t te, top = some t → r.get? t = some te →
      above = some (Plan.parentOf te.matcher) ∧ te.matcher.Registrable)
    (planned : Plan.route options d above = .ok plan)
    (sited : Sited r options d base top original) (valid : d.at? s = some (node, raw))
    (found : r.get? (base + d.place s) = some e) (link : d.parentAt base top s = some q)
    (foundP : r.get? q = some p) : e.matcher.Inherits p.matcher := by
  induction s generalizing d base top original above plan with
  | here choice =>
    obtain ⟨chosen, rfl⟩ := Definition.at?_here.mp valid
    obtain ⟨isAbove, registrable⟩ := under q p link foundP
    obtain ⟨own, made⟩ := Plan.exists_variant planned chosen
    obtain ⟨e', found', -, compiled⟩ := sited.here chosen
    obtain rfl := Option.some.inj (found'.symm.trans found)
    have isOwn : own.matcher = e'.matcher := sited.matcher_of_variant chosen pattern made found
    have checked := Plan.checkParent_of_variant made
    rw [isAbove, isOwn] at checked
    rw [pattern, isAbove] at compiled
    exact Matcher.inherits_resolve registrable compiled checked
  | nested choice index below ih =>
    obtain ⟨⟨path, chosen⟩, c, child, inside⟩ := Definition.at?_nested.mp valid
    obtain ⟨own, made⟩ := Plan.exists_variant planned chosen
    obtain ⟨first, foundFirst, registrable, -⟩ := sited.here chosen
    have isFirst : own.matcher = first.matcher :=
      sited.matcher_of_variant chosen pattern made foundFirst
    obtain ⟨m, children, -, inner, rfl⟩ := Plan.variant_eq_ok made
    obtain rfl : m = first.matcher := isFirst
    obtain ⟨planC, -, plannedC⟩ :=
      Plan.exists_of_mem_right (Plan.routes_eq_ok inner).flip (List.mem_of_getElem? child)
    rw [Definition.place_nested child, ← Nat.add_assoc, ← Nat.add_assoc] at found
    rw [Definition.parentAt_nested child] at link
    -- the path that was chosen is what the child was planned under
    refine ih ?_ ?_ plannedC (sited.nested chosen child) inside found link
    · rw [patternOf?, Option.bind_some, foundFirst]
      rfl
    · rintro t te ⟨⟩ foundT
      obtain rfl := Option.some.inj (foundFirst.symm.trans foundT)
      exact ⟨rfl, registrable⟩

/-- Every entry inherits the params of the one that it is nested under, and can be printed and read
again. -/
structure Inherited (r : Registry) : Prop where
  registrable {id : Nat} {e : Entry} : r.get? id = some e → e.matcher.Registrable
  parent {id parent : Nat} {e p : Entry} : r.get? id = some e → e.parent = some parent →
    r.get? parent = some p → e.matcher.Inherits p.matcher

/-- What stays after a removal inherits what it did. -/
theorem inherited_removeAll (h : Inherited r) (pending : List Nat) :
    Inherited (r.removeAll pending) where
  registrable := fun found => h.registrable (get?_of_removeAll found)
  parent := fun found link foundP =>
    h.parent (get?_of_removeAll found) link (get?_of_removeAll foundP)

/-- What an entry inherits from its parent, it inherits from every entry on the way up. -/
theorem Inherited.inherits_of_climbs (inherited : Inherited r) {id : Nat} {walk : List Entry}
    {a : Entry} (found : r.get? id = some e) (climbs : Climbs r (some id) walk)
    (member : a ∈ walk) : e.matcher.Inherits a.matcher := by
  induction walk generalizing id e with
  | nil => exact absurd member List.not_mem_nil
  | cons first above ih =>
    obtain - | - | ⟨found', further⟩ := climbs
    obtain rfl := Option.some.inj (found'.symm.trans found)
    rcases List.mem_cons.mp member with rfl | member
    · exact fun name declared => declared
    cases link : first.parent with
    | none =>
      rw [link] at further
      cases further
      exact absurd member List.not_mem_nil
    | some parent =>
      rw [link] at further
      cases further with
      | gone _ => exact absurd member List.not_mem_nil
      | step foundP further' =>
        exact (inherited.parent found link foundP).trans (ih foundP (.step foundP further') member)

end Registry

namespace Router

variable {r next : Router} {d : Definition}

/-- The new entries inherit from each other and from the parent of the addition, because that is
what their paths were planned under. -/
theorem inherited_insertDefinition (h : r.registry.Linked) (inherited : r.registry.Inherited)
    {parent : Option Entry} (live : ∀ e, parent = some e → r.registry.get? e.id = some e) {id : Nat}
    (added : r.insertDefinition d parent = .ok (next, id)) : next.registry.Inherited := by
  have i := insertDefinition_inserts h live added
  obtain ⟨plan, -, planned, -⟩ := insertDefinition_eq_ok added
  have linked := i.entered.linked
  have vacated : (r.vacated d).Inherited := Registry.inherited_removeAll inherited _
  constructor
  · intro n e found
    rcases Nat.lt_or_ge n id with early | late
    · obtain ⟨e₀, found₀⟩ := (i.exists_get?_iff early).mp ⟨e, found⟩
      obtain ⟨children, rfl, -⟩ := i.kept found₀ found
      rw [Entry.extend_matcher]
      exact vacated.registrable found₀
    · obtain ⟨s, node, raw, valid, rfl⟩ := i.exists_site found late
      obtain ⟨own, holds⟩ := i.holds valid
      obtain rfl := Option.some.inj (holds.found.symm.trans found)
      exact holds.registrable
  · intro n above e p found link foundP
    obtain ⟨older, -⟩ := linked.parent found link
    rcases Nat.lt_or_ge n id with early | late
    · -- both entries were there before
      obtain ⟨e₀, found₀⟩ := (i.exists_get?_iff early).mp ⟨e, found⟩
      obtain ⟨p₀, foundP₀⟩ := (i.exists_get?_iff (older.trans early)).mp ⟨p, foundP⟩
      obtain ⟨children, rfl, -⟩ := i.kept found₀ found
      obtain ⟨more, rfl, -⟩ := i.kept foundP₀ foundP
      rw [Entry.extend_matcher, Entry.extend_matcher]
      exact vacated.parent found₀ link foundP₀
    · obtain ⟨s, node, raw, valid, rfl⟩ := i.exists_site found late
      obtain ⟨own, holds⟩ := i.holds valid
      obtain rfl := Option.some.inj (holds.found.symm.trans found)
      have sited := i.placed.sited
      rw [i.nextId_vacated] at sited
      refine Registry.inherits_site (i.patternOf?_parent live) ?_
        (Plan.ofDefinition_eq_ok planned).1 sited valid found (holds.under.symm.trans link) foundP
      -- the parent of the addition only has one more child now
      intro t te isParent foundT
      obtain ⟨pe, rfl, rfl⟩ := Option.map_eq_some_iff.mp isParent
      obtain ⟨pe₀, stays⟩ := i.parent_live isParent
      obtain rfl := Registry.eq_of_get?_removeAll (live pe rfl) stays
      obtain ⟨children, rfl, -⟩ := i.kept stays foundT
      rw [Entry.extend_matcher]
      exact ⟨rfl, vacated.registrable stays⟩

theorem inherited_outcome (h : r.registry.Linked) (inherited : r.registry.Inherited)
    (outcome : Outcome r next) : next.registry.Inherited := by
  cases outcome with
  | unchanged => exact inherited
  | inserted live added => exact inherited_insertDefinition h inherited live added
  | removed id => exact Registry.inherited_removeAll inherited [id]
  | cleared => constructor <;> simp [clear, Registry.clear, Registry.get?]

theorem inherited_run (options : RouterOptions) (lineage : Nat) (changes : List Change) :
    ((new options lineage).run changes).registry.Inherited := by
  refine run_induction (fun r => r.registry.Inherited) ?_ inherited_outcome changes
  constructor <;> simp [new, Registry.empty, Registry.get?]

/-- After every run, whether they are aliases or not, entries declare the params of everything on
the way up from them: of the entry that they are nested under, of the one that this is nested
under, and so on. -/
theorem declares_of_ancestor (options : RouterOptions) (lineage : Nat) (changes : List Change) :
    let r := ((new options lineage).run changes).registry
    ∀ id e, r.get? id = some e → r.Climbs (some id) (r.ancestors id) ∧
      ∀ a ∈ r.ancestors id, ∀ name, a.matcher.declares name = true →
        e.matcher.declares name = true := by
  intro r id e found
  have climbs := Registry.climbs_ancestors (linked_run options lineage changes) found
  refine ⟨climbs, fun a member name declared => ?_⟩
  exact (inherited_run options lineage changes).inherits_of_climbs found climbs member name declared

/-- A route with an absolute path is added under an alias. -/
theorem declares_of_alias : ∃ e a,
    let r := ((new {} 0).run [.add { path := "/:a/:b", aliases := ["/:b/:a"] },
      .addUnder (.id 1) { path := "/:c/:a/:b" }]).registry
    r.get? 2 = some e ∧ e.record.path = "/:c/:a/:b" ∧ a ∈ r.ancestors 2 ∧ a.isAlias = true ∧
      a.matcher.declares "a" = true ∧ e.matcher.declares "a" = true := by
  obtain ⟨changes, isChanges⟩ : ∃ changes : List Change,
      changes = [.add { path := "/:a/:b", aliases := ["/:b/:a"] },
        .addUnder (.id 1) { path := "/:c/:a/:b" }] := ⟨_, rfl⟩
  have evaluated : (fun r : Router => ((r.registry.get? 2).map (·.record.path),
      (r.registry.ancestors 2).getLast?.map fun a => (a.isAlias, a.matcher.declares "a")))
        ((new {} 0).run changes) = (some "/:c/:a/:b", some (true, true)) := by
    rw [isChanges]
    cbv
  obtain ⟨path, last⟩ := Prod.mk.inj evaluated
  obtain ⟨e, found, isPath⟩ := Option.map_eq_some_iff.mp path
  obtain ⟨a, isLast, same⟩ := Option.map_eq_some_iff.mp last
  obtain ⟨isAlias, declared⟩ := Prod.mk.inj same
  have member := List.mem_of_getLast? isLast
  rw [← isChanges]
  exact ⟨e, a, found, isPath, member, isAlias, declared,
    (declares_of_ancestor {} 0 changes 2 e found).2 a member "a" declared⟩

end Router
end Waymark
