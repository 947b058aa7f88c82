/-
Removing a route.

A removed route takes everything with it whose links lead up to it, and nothing else
changes.

* `ancestors_linked` — in a linked registry the walk from an entry up to its root ends
  at an entry without a parent;
* `ancestors_removeAll` — a removal leaves the ancestors of what stays as they were;
* `remove_takes_linked` — what a removal does to a router after any run.
-/
import Waymark.Proofs.Router.Run

namespace Waymark

namespace Registry

variable {r : Registry}

theorem ancestors_of_root {id : Nat} {e : Entry} (found : r.get? id = some e)
    (isRoot : e.parent = none) : r.ancestors id = [e] := by
  rw [ancestors]
  simp only [found]
  split
  · rfl
  · rename_i link
    rw [isRoot] at link
    exact absurd link (by simp)

theorem ancestors_of_child {id parent : Nat} {e : Entry} (found : r.get? id = some e)
    (link : e.parent = some parent) (older : parent < id) :
    r.ancestors id = e :: r.ancestors parent := by
  rw [ancestors]
  simp only [found]
  split
  · rename_i isRoot
    rw [link] at isRoot
    exact absurd isRoot (by simp)
  · rename_i parent' link'
    rw [link] at link'
    obtain rfl := Option.some.inj link'
    rw [dif_pos older]

/-- The walk up ends at an entry without a parent. -/
theorem ancestors_linked (h : Linked r) {id : Nat} {e : Entry} (found : r.get? id = some e) :
    ∃ root, (r.ancestors id).getLast? = some root ∧ root.parent = none ∧
      r.get? root.id = some root := by
  induction id using Nat.strong_induction_on generalizing e with
  | _ id ih =>
    cases link : e.parent with
    | none =>
      refine ⟨e, ?_, link, ?_⟩
      · rw [ancestors_of_root found link, List.getLast?_singleton]
      · rw [h.number found]
        exact found
    | some parent =>
      obtain ⟨older, ⟨p, foundP⟩, -⟩ := h.parent found link
      obtain ⟨root, last, isRoot, live⟩ := ih parent older foundP
      refine ⟨root, ?_, isRoot, live⟩
      rw [ancestors_of_child found link older, List.getLast?_cons, last, Option.getD_some]

/-- Whoever stays keeps its ancestors. -/
theorem ancestors_removeAll (h : Linked r) {pending : List Nat} {id : Nat} {e : Entry}
    (stays : (r.removeAll pending).get? id = some e) :
    (r.removeAll pending).ancestors id = r.ancestors id := by
  induction id using Nat.strong_induction_on generalizing e with
  | _ id ih =>
    obtain ⟨found, spared⟩ := (get?_removeAll _ _ _ _).mp stays
    cases link : e.parent with
    | none => rw [ancestors_of_root stays link, ancestors_of_root found link]
    | some parent =>
      obtain ⟨older, ⟨p, foundP⟩, -⟩ := h.parent found link
      have staysP := h.get?_removeAll_of_linksTo ⟨e, found, Or.inl link⟩ foundP spared
      rw [ancestors_of_child stays link older, ancestors_of_child found link older,
        ih parent older staysP]

/-- The removal of one entry spares what does not link to it. -/
theorem get?_remove_iff (h : Linked r) {target : Nat} (id : Nat) (e : Entry) :
    (r.remove target).get? id = some e ↔
      r.get? id = some e ∧ ¬ Relation.ReflTransGen r.LinksTo id target := by
  rw [remove, get?_removeAll]
  refine and_congr_right fun found => not_congr ?_
  simp only [Doomed, List.mem_singleton, exists_eq_left, cascade_iff h]
  exact and_iff_right ⟨e, found⟩

/-- A removal takes the names of the entries that go out of the index, and no other ones. -/
theorem byName_remove_iff (h : Linked r) (target : Nat) (name : String) (id : Nat) :
    (r.byName.get? name = some id ∧ (r.remove target).byName.get? name ≠ some id) ↔
      ∃ e, r.get? id = some e ∧ e.isAlias = false ∧ e.record.name = some name ∧
        (r.remove target).get? id = none := by
  rw [ne_eq, remove, byName_removeAll h.indexed, h.named]
  constructor
  · rintro ⟨⟨e, found, primary, named⟩, lost⟩
    refine ⟨e, found, primary, named, ?_⟩
    rw [Option.eq_none_iff_forall_ne_some]
    intro e' stays
    exact lost ⟨⟨e, found, primary, named⟩, e', stays⟩
  · rintro ⟨e, found, primary, named, gone⟩
    refine ⟨⟨e, found, primary, named⟩, ?_⟩
    rintro ⟨-, e', stays⟩
    rw [gone] at stays
    exact absurd stays (by simp)

end Registry

namespace Router

theorem remove_of_lookup? {r : Router} {target : RouteRef} {t : Entry}
    (found : r.lookup? target = some t) :
    r.remove target = { r with registry := r.registry.remove t.id } := by
  rw [remove, found]

/-- After any run, removing a route takes out exactly the entries whose links lead to it.  The
others stay as they are and in the same order, the index of names loses the names of what goes,
and the walk up from what stays is the same as before and ends at an entry without a parent.  An
unknown target changes nothing. -/
theorem remove_takes_linked (options : RouterOptions) (lineage : Nat) (changes : List Change)
    (target : RouteRef) :
    (((new options lineage).run changes).lookup? target = none →
      ((new options lineage).run changes).remove target = (new options lineage).run changes) ∧
    ∀ t, ((new options lineage).run changes).lookup? target = some t →
      let before := ((new options lineage).run changes).registry
      let after := (((new options lineage).run changes).remove target).registry
      (∀ id e, after.get? id = some e ↔
        before.get? id = some e ∧ ¬ Relation.ReflTransGen before.LinksTo id t.id) ∧
      after.ordered = before.ordered.filter (fun id => (after.get? id).isSome) ∧
      (∀ name id, (before.byName.get? name = some id ∧ after.byName.get? name ≠ some id) ↔
        ∃ e, before.get? id = some e ∧ e.isAlias = false ∧ e.record.name = some name ∧
          after.get? id = none) ∧
      (∀ name id, after.byName.get? name = some id → before.byName.get? name = some id) ∧
      (∀ id e, after.get? id = some e → after.ancestors id = before.ancestors id ∧
        ∃ root, (after.ancestors id).getLast? = some root ∧ root.parent = none ∧
          after.get? root.id = some root) ∧
      after.nextId = before.nextId := by
  have h := linked_run options lineage changes
  generalize (new options lineage).run changes = r at h
  constructor
  · intro unknown
    rw [remove, unknown]
  · intro t found
    rw [remove_of_lookup? found]
    refine ⟨Registry.get?_remove_iff h, ?_, Registry.byName_remove_iff h t.id, ?_, ?_, ?_⟩
    · show (r.registry.removeAll [t.id]).ordered = _
      rw [Registry.ordered_removeAll]
      refine List.filter_congr fun id member => ?_
      obtain ⟨e, found⟩ := h.mem_ordered.mp member
      rw [found]
      rfl
    · intro name id index
      exact ((Registry.byName_removeAll h.indexed _ _ _).mp index).1
    · intro id e stays
      exact ⟨Registry.ancestors_removeAll h stays,
        Registry.ancestors_linked (Registry.linked_removeAll h _) stays⟩
    · exact Registry.nextId_removeAll _ _

end Router
end Waymark
