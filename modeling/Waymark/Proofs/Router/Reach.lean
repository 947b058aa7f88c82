/-
What the search for an entry finds and what a removal takes out.

The search only reads the registry, keeps no account of what it has seen and comes to an entry
as often as links lead there.  The removal takes entries out while it walks.  In the registry of any
run both come to the same entries: links lead to larger numbers, so the search ends, and what the
removal has taken out already is what it would come to again.

* `reachedIn_eq_removalReaches` — the search ends, and more steps do not change its answer;
* `removalReaches_iff_get?_remove` — it finds what the removal takes out;
* `sameEntries_removeAll` — the order of removals makes no difference;
* `search_finds_removed` — both in the registry of any run.
-/
import Mathlib
import Waymark.Proofs.Router.Run

namespace Waymark

namespace Registry

variable {r : Registry} {root target : Nat} {t : Entry} {ids others : List Nat}

/-- The search ends within as many steps as there are sets of numbers. -/
theorem reachedIn_eq_removalReaches (h : Linked r) (live : r.get? target = some t) (root : Nat)
    {steps : Nat} (enough : 2 ^ r.nextId ≤ steps) :
    r.reachedIn target steps [root] = some (r.removalReaches root target) := by
  have bound : r.weights [root] ≤ steps := Nat.le_trans (weights_singleton_le r root) enough
  obtain ⟨answer, found, right⟩ := reachedIn_eq h live steps [root] bound
  have same : answer = r.removalReaches root target := by
    rw [Bool.eq_iff_iff, right, removalReaches_iff h live]
    simp [Doomed]
  rw [found, same]

/-- Removals take out an entry if one of them comes to it. -/
theorem get?_removeAll_eq_none_iff (live : r.get? target = some t) :
    (r.removeAll ids).get? target = none ↔ r.Doomed ids target := by
  rw [← not_iff_not, ← ne_eq, Option.ne_none_iff_exists', get?_removeAll_isSome]
  exact ⟨And.right, fun spared => ⟨⟨t, live⟩, spared⟩⟩

theorem doomed_iff_removalReaches (h : Linked r) (live : r.get? target = some t) :
    r.Doomed ids target ↔ ∃ root ∈ ids, r.removalReaches root target = true := by
  simp only [removalReaches_iff h live, Doomed]

/-- The search finds what the removal takes out. -/
theorem removalReaches_iff_get?_remove (h : Linked r) (live : r.get? target = some t) (root : Nat) :
    r.removalReaches root target = true ↔ (r.remove root).get? target = none := by
  rw [remove, get?_removeAll_eq_none_iff live, doomed_iff_removalReaches h live]
  simp only [List.mem_singleton, exists_eq_left]

/-! ### The order of removals -/

/-- The registries hold the same entries, in the same order and under the same names. -/
structure SameEntries (r s : Registry) : Prop where
  get? : ∀ id, r.get? id = s.get? id
  ordered : r.ordered = s.ordered
  byName : ∀ name, r.byName.get? name = s.byName.get? name
  nextId : r.nextId = s.nextId

/-- What is left depends on which entries are taken out, but not on the order. -/
theorem sameEntries_removeAll (h : Linked r) (same : ∀ id, id ∈ ids ↔ id ∈ others) :
    SameEntries (r.removeAll ids) (r.removeAll others) := by
  have entries : ∀ id, (r.removeAll ids).get? id = (r.removeAll others).get? id := by
    intro id
    have doomed : r.Doomed ids id ↔ r.Doomed others id := by
      simp only [Doomed, same]
    ext e
    rw [get?_removeAll, get?_removeAll, doomed]
  refine ⟨entries, ?_, fun name => ?_, ?_⟩
  · rw [ordered_removeAll, ordered_removeAll]
    simp only [entries]
  · ext id
    rw [byName_removeAll h.indexed, byName_removeAll h.indexed, entries]
  · rw [nextId_removeAll, nextId_removeAll]

end Registry

namespace Router

open Registry (SameEntries)

/-- In the registry of any run the search for an entry ends, and it finds the entry exactly if the
removal of the root takes it out.  Several removals one after another take it out exactly if it is
found from one of the roots, and what they leave does not depend on their order. -/
theorem search_finds_removed (options : RouterOptions) (lineage : Nat) (changes : List Change)
    {target : Nat}
    (live : (((new options lineage).run changes).registry.get? target).isSome = true) :
    let r := ((new options lineage).run changes).registry
    (∀ root,
      (∀ steps, 2 ^ r.nextId ≤ steps →
        r.reachedIn target steps [root] = some (r.removalReaches root target)) ∧
      (r.removalReaches root target = true ↔ (r.remove root).get? target = none)) ∧
    ∀ roots : List Nat,
      ((roots.foldl Registry.remove r).get? target = none ↔
        ∃ root ∈ roots, r.removalReaches root target = true) ∧
      ∀ others : List Nat, roots.Perm others →
        SameEntries (roots.foldl Registry.remove r) (others.foldl Registry.remove r) := by
  intro r
  have h : r.Linked := linked_run options lineage changes
  obtain ⟨t, found⟩ := Option.isSome_iff_exists.mp live
  constructor
  · intro root
    exact ⟨fun steps => Registry.reachedIn_eq_removalReaches h found root,
      Registry.removalReaches_iff_get?_remove h found root⟩
  · intro roots
    rw [Registry.foldl_remove]
    refine ⟨?_, fun others permuted => ?_⟩
    · rw [Registry.get?_removeAll_eq_none_iff found, Registry.doomed_iff_removalReaches h found]
    · rw [Registry.foldl_remove]
      exact Registry.sameEntries_removeAll h fun id => permuted.mem_iff

/-- The alias of a nested route hangs on that route and on the alias of its parent; the lists of the
two still name another alias, which is gone. -/
theorem search_finds_alias : ∃ changes, changes =
      [.add { path := "", aliases := ["/"], children := [{ path := ":c" }, { path := "" }] },
        .dispose 4] ∧
    let r := ((new {} 0).run changes).registry
    (r.get? 4).isSome = false ∧ (r.get? 5).isSome = true ∧
      r.reachedIn 5 64 [0] = some true ∧ (r.remove 2).get? 5 = none ∧
      (r.remove 1).get? 5 ≠ none ∧ ([3, 1].foldl Registry.remove r).get? 5 = none := by
  obtain ⟨changes, isChanges, evaluated⟩ : ∃ changes, changes = [Change.add
        { path := "", aliases := ["/"], children := [{ path := ":c" }, { path := "" }] },
        .dispose 4] ∧
      (fun r : Registry => (r.nextId, (r.get? 4).isSome, (r.get? 5).isSome,
        r.removalReaches 0 5, r.removalReaches 1 5, r.removalReaches 2 5, r.removalReaches 3 5))
        ((new {} 0).run changes).registry = (6, false, true, true, false, true, true) :=
    ⟨_, rfl, by cbv⟩
  simp only [Prod.mk.injEq] at evaluated
  obtain ⟨nextId, gone, live, fromRoot, fromChild, fromOther, fromAlias⟩ := evaluated
  obtain ⟨one, several⟩ := search_finds_removed {} 0 changes live
  refine ⟨changes, isChanges, gone, live, ?_, (one 2).2.mp fromOther, fun none => ?_,
    (several [3, 1]).1.mpr ⟨3, List.mem_cons_self, fromAlias⟩⟩
  · rw [(one 0).1 64 (by rw [nextId]; decide), fromRoot]
  · have found := (one 1).2.mpr none
    rw [fromChild] at found
    exact absurd found (by decide)

end Router
end Waymark
