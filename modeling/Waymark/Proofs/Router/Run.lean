/-
Runs of a router.

`Router.Change` lists what a caller may do to the routes of a router; a change that
fails leaves the router as it was.  `Router.run` makes changes one after another.

* `outcome_apply` — what comes of a change: an addition, a removal, or nothing;
* `linked_insertDefinition`, `linked_apply` — each change keeps the registry linked;
* `run_induction` — what each outcome keeps holds after every run;
* `coherent_run` — after every run the order, the index of names and the links of the
  entries and of their records agree, and the next number never becomes lower.
-/
import Waymark.Proofs.Registry.Commit
import Waymark.Proofs.Registry.Search

namespace Waymark

namespace Registry

variable {r : Registry}

theorem removeAll_append (r : Registry) (ids rest : List Nat) :
    r.removeAll (ids ++ rest) = (r.removeAll ids).removeAll rest := by
  fun_induction removeAll r ids with
  | case1 r => rfl
  | case2 r id ids gone ih =>
    rw [List.cons_append, removeAll_cons_of_none gone]
    exact ih
  | case3 r id ids e found _ ih =>
    rw [List.cons_append, removeAll_cons_of_some found, ← List.append_assoc]
    exact ih

/-- Removals one after another are one removal. -/
theorem foldl_remove (r : Registry) (ids : List Nat) :
    ids.foldl Registry.remove r = r.removeAll ids := by
  induction ids generalizing r with
  | nil => simp
  | cons id ids ih =>
    rw [List.foldl_cons, ih, Registry.remove, ← removeAll_append, List.singleton_append]

theorem named?_eq_some (h : Linked r) {name : String} {e : Entry} :
    r.named? name = some e ↔
      r.get? e.id = some e ∧ e.isAlias = false ∧ e.record.name = some name := by
  rw [named?]
  rw [Option.bind_eq_some_iff]
  constructor
  · rintro ⟨id, index, found⟩
    obtain ⟨e', found', primary, named⟩ := h.named.mp index
    rw [found] at found'
    obtain rfl := Option.some.inj found'
    rw [h.number found]
    exact ⟨found, primary, named⟩
  · rintro ⟨found, primary, named⟩
    exact ⟨e.id, h.named.mpr ⟨e, found, primary, named⟩, found⟩

/-- What is found for a path is an entry that recognizes it. -/
theorem find?_eq_some (h : Linked r) {path : String} {e : Entry} {params : Params}
    (found : r.find? path = some (e, params)) :
    r.get? e.id = some e ∧ e.matcher.recognize path = some params := by
  obtain ⟨o, member, recognized⟩ := List.exists_of_findSome?_eq_some found
  obtain ⟨params', isParams, isPair⟩ := Option.map_eq_some_iff.mp recognized
  obtain ⟨rfl, rfl⟩ := Prod.mk.inj isPair
  exact ⟨(mem_inOrder h).mp member, isParams⟩

end Registry

namespace Router

variable {r next : Router} {d : Definition} {e : Entry}

/-- What a caller may do to the routes of a router. -/
inductive Change
  | add (d : Definition)
  | addUnder (parent : RouteRef) (d : Definition)
  | remove (target : RouteRef)
  /-- Removes the route with the number of a handle. -/
  | dispose (handle : Nat)
  | clear

/-- The router after a change.  An addition that fails leaves the router as it was. -/
def apply (r : Router) : Change → Router
  | .add d =>
    match r.add d with
    | .ok (next, _) => next
    | .error _ => r
  | .addUnder parent d =>
    match r.addUnder parent d with
    | .ok (next, _) => next
    | .error _ => r
  | .remove target => r.remove target
  | .dispose handle => r.remove (.id handle)
  | .clear => r.clear

/-- The router after some changes. -/
def run (r : Router) (changes : List Change) : Router := changes.foldl apply r

/-! ### Additions -/

theorem lookup?_eq_some (h : r.registry.Linked) {target : RouteRef}
    (found : r.lookup? target = some e) :
    r.registry.get? e.id = some e := by
  cases target with
  | id id =>
    rw [h.number found]
    exact found
  | name name => exact ((Registry.named?_eq_some h).mp found).1

/-- The entries that have to go are those of the names.  None of them takes the parent away, and
there are none if no route may be replaced. -/
theorem conflicts_eq_ok {path : String} {parent : Option Nat} :
    ∀ {names : List String} {replaced : List Nat}, r.conflicts path parent names = .ok replaced →
      replaced = names.filterMap (fun name => (r.registry.named? name).map Entry.id) ∧
        (∀ id ∈ replaced, ∀ p, parent = some p → r.registry.removalReaches id p = false) ∧
        (r.options.duplicateNames = .reject → replaced = []) := by
  intro names
  induction names with
  | nil =>
    intro replaced h
    rw [conflicts] at h
    rw [← Except.ok.inj h]
    exact ⟨rfl, fun id member => absurd member List.not_mem_nil, fun _ => rfl⟩
  | cons name rest ih =>
    intro replaced h
    rw [conflicts] at h
    rw [List.filterMap_cons]
    cases taken : r.registry.named? name with
    | none =>
      rw [taken] at h
      exact ih h
    | some existing =>
      rw [taken] at h
      simp only at h
      split at h
      · exact absurd h (by simp)
      · rename_i mayReplace
        split at h
        · exact absurd h (by simp)
        · rename_i apart
          -- the other names come later, so a conflict among them is what is returned
          obtain ⟨replaced', others, rfl⟩ := Pattern.exists_of_map_eq_ok h
          obtain ⟨rfl, spared, -⟩ := ih others
          refine ⟨rfl, ?_, fun refused => ?_⟩
          · intro id member p isParent
            rcases List.mem_cons.mp member with rfl | member
            · subst isParent
              simpa using apart
            · exact spared id member p isParent
          · rw [refused] at mayReplace
            exact absurd mayReplace (by simp)

theorem mem_replaced {names : List String} {id : Nat} :
    id ∈ names.filterMap (fun name => (r.registry.named? name).map Entry.id) ↔
      ∃ name ∈ names, ∃ e, r.registry.named? name = some e ∧ e.id = id := by
  simp only [List.mem_filterMap, Option.map_eq_some_iff]

/-- The parts of an addition: a plan, the entries that have to go, and the plan's entry. -/
theorem insertDefinition_eq_ok {parent : Option Entry} {id : Nat}
    (h : r.insertDefinition d parent = .ok (next, id)) :
    ∃ plan replaced,
      Plan.ofDefinition r.options d (parent.map fun e => Plan.parentOf e.matcher) = .ok plan ∧
        r.conflicts plan.path (parent.map (·.id)) plan.names = .ok replaced ∧
        next = { r with registry :=
          (r.registry.removeAll replaced).commit (parent.map (·.id)) none plan } ∧
        id = r.registry.nextId := by
  rw [insertDefinition] at h
  split at h
  · exact absurd h (by simp)
  · rename_i plan planned
    split at h
    · exact absurd h (by simp)
    · rename_i replaced free
      simp only [Registry.foldl_remove, Except.ok.injEq, Prod.mk.injEq,
        Registry.nextId_removeAll] at h
      exact ⟨plan, replaced, planned, free, h.1.symm, h.2.symm⟩

/-- Once the entries that have to go are gone, the plan may be entered. -/
theorem welcomes_removeAll (h : r.registry.Linked) {parent : Option Entry}
    (live : ∀ e, parent = some e → r.registry.get? e.id = some e) {plan : Plan}
    {replaced : List Nat}
    (planned :
      Plan.ofDefinition r.options d (parent.map fun e => Plan.parentOf e.matcher) = .ok plan)
    (free : r.conflicts plan.path (parent.map (·.id)) plan.names = .ok replaced) :
    (r.registry.removeAll replaced).Welcomes d plan (parent.map (·.id)) none := by
  obtain ⟨isReplaced, spared, -⟩ := conflicts_eq_ok free
  refine ⟨Plan.follows_of_ofDefinition planned, ?_, ?_, ?_, fun _ => ⟨?_, ?_⟩⟩
  · intro p isParent
    obtain ⟨e, isEntry, rfl⟩ := Option.map_eq_some_iff.mp isParent
    have found := live e isEntry
    refine ⟨e, (Registry.get?_removeAll _ _ _ _).mpr ⟨found, ?_⟩⟩
    rintro ⟨a, member, walk⟩
    -- a removal that took the parent away would have been refused
    have reached := (Registry.removalReaches_iff h found).mpr walk
    rw [spared a member e.id isParent] at reached
    exact absurd reached (by simp)
  · intro o none
    exact absurd none (by simp)
  · intro o none
    exact absurd none (by simp)
  · exact Plan.names_nodup_of_ofDefinition planned
  · intro name member
    rw [Option.eq_none_iff_forall_ne_some]
    intro id index
    obtain ⟨index, e', live'⟩ := (Registry.byName_removeAll h.indexed _ _ _).mp index
    obtain ⟨e, found, primary, named⟩ := h.named.mp index
    -- an entry that still bears the name was to be replaced
    have gone : e.id ∈ replaced := by
      rw [isReplaced]
      refine mem_replaced.mpr ⟨name, member, e, (Registry.named?_eq_some h).mpr ⟨?_, primary, named⟩,
        rfl⟩
      rw [h.number found]
      exact found
    rw [h.number found] at gone
    exact ((Registry.get?_removeAll _ _ _ _).mp live').2 ⟨id, gone, .self found⟩

theorem linked_insertDefinition (h : r.registry.Linked) {parent : Option Entry}
    (live : ∀ e, parent = some e → r.registry.get? e.id = some e) {id : Nat}
    (added : r.insertDefinition d parent = .ok (next, id)) :
    next.registry.Linked ∧ r.registry.nextId ≤ next.registry.nextId := by
  obtain ⟨plan, replaced, planned, free, rfl, -⟩ := insertDefinition_eq_ok added
  obtain ⟨entered, -⟩ := Registry.entersWell plan (Registry.linked_removeAll h replaced)
    (welcomes_removeAll h live planned free)
  refine ⟨entered.linked, ?_⟩
  have grown := entered.grown.nextId_le
  rw [Registry.nextId_removeAll] at grown
  exact grown

/-! ### Changes and runs -/

/-- What comes of a change. -/
inductive Outcome (r : Router) : Router → Prop
  | unchanged : Outcome r r
  | inserted {d : Definition} {parent : Option Entry} {next : Router} {id : Nat} :
      (∀ e, parent = some e → r.registry.get? e.id = some e) →
      r.insertDefinition d parent = .ok (next, id) → Outcome r next
  | removed (id : Nat) : Outcome r { r with registry := r.registry.remove id }
  | cleared : Outcome r r.clear

theorem outcome_remove (r : Router) (target : RouteRef) : Outcome r (r.remove target) := by
  rw [remove]
  split
  · exact .removed _
  · exact .unchanged

theorem outcome_apply (h : r.registry.Linked) (change : Change) : Outcome r (r.apply change) := by
  cases change with
  | add d =>
    rw [apply]
    split
    · rename_i added
      exact .inserted (by simp) added
    · exact .unchanged
  | addUnder parent d =>
    rw [apply]
    split
    · rename_i added
      rw [addUnder] at added
      split at added
      · exact absurd added (by simp)
      · rename_i e found
        refine .inserted ?_ added
        rintro _ ⟨⟩
        exact lookup?_eq_some h found
    · exact .unchanged
  | remove target => exact outcome_remove r target
  | dispose handle => exact outcome_remove r (.id handle)
  | clear => exact .cleared

theorem linked_apply (h : r.registry.Linked) (change : Change) :
    (r.apply change).registry.Linked ∧
      r.registry.nextId ≤ (r.apply change).registry.nextId := by
  have outcome := outcome_apply h change
  generalize r.apply change = next at outcome
  cases outcome with
  | unchanged => exact ⟨h, Nat.le_refl _⟩
  | inserted live added => exact linked_insertDefinition h live added
  | removed id =>
    exact ⟨Registry.linked_removeAll h _, Nat.le_of_eq (Registry.nextId_removeAll _ _).symm⟩
  | cleared => exact ⟨Registry.linked_clear _, Nat.le_refl _⟩

theorem run_append (r : Router) (before after : List Change) :
    r.run (before ++ after) = (r.run before).run after := List.foldl_append

theorem run_concat (r : Router) (changes : List Change) (change : Change) :
    r.run (changes ++ [change]) = (r.run changes).apply change :=
  List.foldl_concat _ _ _ _

theorem linked_run_of_linked (h : r.registry.Linked) (changes : List Change) :
    (r.run changes).registry.Linked := by
  induction changes generalizing r with
  | nil => exact h
  | cons change rest ih => exact ih (linked_apply h change).1

theorem linked_run (options : RouterOptions) (lineage : Nat) (changes : List Change) :
    ((new options lineage).run changes).registry.Linked :=
  linked_run_of_linked (Registry.linked_empty lineage) changes

/-- What holds of a router without routes, and is kept by whatever comes of a change, holds after
every run. -/
theorem run_induction (holds : Router → Prop) {options : RouterOptions} {lineage : Nat}
    (start : holds (new options lineage))
    (step : ∀ {r next : Router}, r.registry.Linked → holds r → Outcome r next → holds next)
    (changes : List Change) : holds ((new options lineage).run changes) := by
  induction changes using List.reverseRecOn with
  | nil => exact start
  | append_singleton changes change ih =>
    have h := linked_run options lineage changes
    rw [run_concat]
    exact step h ih (outcome_apply h change)

/-- After every run of a router, failed additions included, the order, the index of names and the
links agree, and no further change lowers the next number. -/
theorem coherent_run (options : RouterOptions) (lineage : Nat) (changes : List Change) :
    ((new options lineage).run changes).registry.Coherent ∧
      ∀ change, ((new options lineage).run changes).registry.nextId ≤
        (((new options lineage).run changes).apply change).registry.nextId :=
  ⟨(linked_run options lineage changes).coherent, fun change =>
    (linked_apply (linked_run options lineage changes) change).2⟩

end Router
end Waymark
