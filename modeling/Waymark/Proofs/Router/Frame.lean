/-
What a change leaves alone.

A change of a router alters the location of a path only where it has to: an addition, if a new
entry comes first among those that recognize the path, and a removal, if what the path led to
is gone.  Neither touches the order of the other entries, the records on the way up from them,
or the metadata put together from these.

* `later_inserts`, `later_run` — additions and all other changes lead to a later registry;
* `resolvePath_of_later` — the location of a path later on;
* `resolvePath_frame` — additions that take no name, and removals, after any run.
-/
import Waymark.Proofs.Registry.Later
import Waymark.Proofs.Router.Relative

namespace Waymark
namespace Router

variable {r next : Router} {d : Definition} {id : Nat} {path : String}

/-! ### Later routers -/

/-- A new number is that of a site. -/
theorem Inserts.exists_site {parent : Option Nat} (i : Inserts r next d parent id) {n : Nat}
    {e : Entry} (found : next.registry.get? n = some e) (high : id ≤ n) :
    ∃ s node raw, d.at? s = some (node, raw) ∧ n = id + d.place s := by
  have below : n - id < d.sites := by
    have := i.entered.linked.lt_nextId found
    rw [i.nextId] at this
    omega
  obtain ⟨s, node, raw, valid, isPlace⟩ := Definition.exists_place_eq below
  exact ⟨s, node, raw, valid, by omega⟩

theorem later_inserts (h : r.registry.Linked) {parent : Option Nat}
    (i : Inserts r next d parent id) : r.registry.Later next.registry where
  lineage := i.entered.grown.lineage.trans (Registry.lineage_removeAll _ _)
  nextId_le := by
    rw [← i.first, i.nextId]
    exact Nat.le_add_right _ _
  kept := by
    intro n e' found' low
    obtain ⟨e, stays⟩ := (i.exists_get?_iff (i.first ▸ low)).mp ⟨e', found'⟩
    obtain ⟨children, isExtended, -⟩ := i.kept stays found'
    exact ⟨e, children, [], Registry.get?_of_removeAll stays, isExtended⟩
  fresh := by
    intro n e' found' high
    rw [← i.first] at high
    obtain ⟨s, node, raw, valid, rfl⟩ := i.exists_site found' high
    obtain ⟨e, holds⟩ := i.holds valid
    obtain rfl := Option.some.inj (holds.found.symm.trans found')
    rw [holds.record, i.entered.grown.lineage, vacated, Registry.lineage_removeAll]
    rfl
  ordered := by
    rw [← i.first]
    exact i.ordered_eq h

theorem later_apply (h : r.registry.Linked) (change : Change) :
    r.registry.Later (r.apply change).registry := by
  have outcome := outcome_apply h change
  generalize r.apply change = next at outcome
  cases outcome with
  | unchanged => exact .refl h
  | inserted live added => exact later_inserts h (insertDefinition_inserts h live added)
  | removed id => exact Registry.later_removeAll h [id]
  | cleared => exact Registry.later_clear _

theorem later_run (h : r.registry.Linked) (changes : List Change) :
    r.registry.Later (r.run changes).registry := by
  induction changes generalizing r with
  | nil => exact .refl h
  | cons change rest ih =>
    exact (later_apply h change).trans h (ih (linked_apply h change).1)

theorem nextId_remove (r : Router) (target : RouteRef) :
    (r.remove target).registry.nextId = r.registry.nextId := by
  rw [remove]
  split
  · exact Registry.nextId_removeAll _ _
  · rfl

/-! ### Locations later on -/

/-- An entry that stays is located as it was. -/
theorem locate_of_later (later : r.registry.Later next.registry) (h' : next.registry.Linked)
    {n : Nat} {e e' : Entry} (number : e.id = n) (number' : e'.id = n)
    (low : n < r.registry.nextId) (found : r.registry.get? n = some e)
    (found' : next.registry.get? n = some e') (path : String) (params : Params) :
    next.locate e' path params = r.locate e path params := by
  obtain ⟨e₀, children, aliases, found₀, rfl⟩ := later.kept found' low
  obtain rfl := Option.some.inj (found₀.symm.trans found)
  have above := later.ancestors h' found' low
  rw [← number] at above
  simp only [locate, Entry.extend_id, Entry.extend_record, above]

/-- A path comes to lead to a new entry, or its location stays the same, unless what it led to is
gone. -/
theorem resolvePath_of_later (later : r.registry.Later next.registry) (h : r.registry.Linked)
    (h' : next.registry.Linked)
    (stays : ∀ e params, r.registry.find? (Path.normalize path) = some (e, params) →
      ∃ e', next.registry.get? e.id = some e') :
    (∃ e params, next.registry.find? (Path.normalize path) = some (e, params) ∧
        r.registry.nextId ≤ e.id) ∨
      next.resolvePath path = r.resolvePath path := by
  refine (later.find? h h' stays).imp_right fun same => ?_
  rw [resolvePath, resolvePath]
  cases before : r.registry.find? (Path.normalize path) with
  | none =>
    rw [before, Option.map_none, Option.map_eq_none_iff] at same
    simp only [same]
  | some found =>
    obtain ⟨e, params⟩ := found
    rw [before, Option.map_some, Option.map_eq_some_iff] at same
    obtain ⟨⟨e', params'⟩, after, pairs⟩ := same
    obtain ⟨numbers, rfl⟩ := Prod.mk.inj pairs
    have live := (Registry.find?_eq_some h before).1
    have live' := (Registry.find?_eq_some h' after).1
    simp only [after]
    exact locate_of_later later h' rfl numbers (h.lt_nextId live) live (numbers ▸ live') _ _

/-- A location that was found tells the entry that its path leads to. -/
theorem leaf?_resolvePath (h : r.registry.Linked) {e : Entry} {params : Params}
    (found : r.registry.find? (Path.normalize path) = some (e, params)) :
    (r.resolvePath path).leaf? = some e.record := by
  rw [resolvePath]
  simp only [found]
  exact leaf?_locate (Registry.find?_eq_some h found).1 _ _

/-- After any run, an addition of a definition none of whose names is taken leaves the location of
every path as it is or makes the path lead to one of the new entries, and it does the former if
none of these recognizes the path.  A removal leaves the location of every path as it is, if the
path leads nowhere or to a record that stays. -/
theorem resolvePath_frame (options : RouterOptions) (lineage : Nat) (changes : List Change) :
    let r := (new options lineage).run changes
    (∀ parent d next id, r.addAt parent d = .ok (next, id) →
      (∀ name ∈ d.names, r.registry.named? name = none) → ∀ path,
        (next.resolvePath path = r.resolvePath path ∨
          ∃ e, id ≤ e.id ∧ r.registry.get? e.id = none ∧ next.registry.get? e.id = some e ∧
            (next.resolvePath path).leaf? = some e.record) ∧
        ((∀ n e, id ≤ n → next.registry.get? n = some e →
            e.matcher.recognize (Path.normalize path) = none) →
          next.resolvePath path = r.resolvePath path)) ∧
      ∀ target path, (∀ leaf, (r.resolvePath path).leaf? = some leaf →
          leaf ∈ (r.remove target).records) →
        (r.remove target).resolvePath path = r.resolvePath path := by
  intro r
  have h : r.registry.Linked := linked_run options lineage changes
  constructor
  · intro parent d next id added free path
    obtain ⟨-, inserted⟩ := addAt_eq_ok added
    have live : ∀ e, parent.bind r.lookup? = some e → r.registry.get? e.id = some e :=
      fun _ => get?_of_bind_lookup? h
    have i := insertDefinition_inserts h live inserted
    have h' := i.entered.linked
    -- no entry has one of the names, so none goes
    have stays : ∀ e params, r.registry.find? (Path.normalize path) = some (e, params) →
        ∃ e', next.registry.get? e.id = some e' := by
      intro e params found
      have old := (Registry.find?_eq_some h found).1
      refine Option.ne_none_iff_exists'.mp fun gone => ?_
      obtain ⟨name, isName, t, taken, -⟩ := (i.gone_iff h old).mp gone
      rw [free name isName] at taken
      exact absurd taken (by simp)
    rcases resolvePath_of_later (later_inserts h i) h h' stays with ⟨e, params, found, high⟩ | same
    · obtain ⟨foundE, recognized⟩ := Registry.find?_eq_some h' found
      rw [← i.first] at high
      have isNew : r.registry.get? e.id = none := by
        refine Option.eq_none_iff_forall_ne_some.mpr fun o old => ?_
        exact absurd (i.low h old) (Nat.not_lt.mpr high)
      refine ⟨Or.inr ⟨e, high, isNew, foundE, leaf?_resolvePath h' found⟩, fun none => ?_⟩
      rw [none e.id e high foundE] at recognized
      exact absurd recognized (by simp)
    · exact ⟨Or.inl same, fun _ => same⟩
  · intro target path leafStays
    have later : r.registry.Later (r.remove target).registry := later_apply h (.remove target)
    have h' : (r.remove target).registry.Linked := (linked_apply h (.remove target)).1
    refine (resolvePath_of_later later h h' ?_).resolve_left ?_
    · intro e params found
      obtain ⟨e', member, same⟩ := List.mem_map.mp (leafStays e.record (leaf?_resolvePath h found))
      have live := (Registry.mem_inOrder h').mp member
      have number : e'.id = e.id := congrArg (fun record => record.id.number) same
      exact ⟨e', number ▸ live⟩
    · -- a removal gives out no numbers
      rintro ⟨e, params, found, high⟩
      have low := h'.lt_nextId (Registry.find?_eq_some h' found).1
      exact absurd (nextId_remove r target ▸ low) (Nat.not_lt.mpr high)

/-- The route that is added has a param and a child: only other paths lead to these, and nothing
changes for this one when they go. -/
theorem resolvePath_frame_nested : ∃ next id,
    let r := (new {} 0).run [.add { path := "", name := some "n" }]
    r.addAt none { path := "/:b", children := [{ path := ":c?" }] } = .ok (next, id) ∧
      next.resolvePath "/" = r.resolvePath "/" ∧
      (∃ e : Entry, id ≤ e.id ∧ (next.resolvePath "/x").leaf? = some e.record) ∧
      (next.remove (.id id)).resolvePath "/" = next.resolvePath "/" := by
  obtain ⟨first, isFirst⟩ : ∃ change : Change, change = .add { path := "", name := some "n" } :=
    ⟨_, rfl⟩
  obtain ⟨d, isDefinition⟩ : ∃ d : Definition,
      d = { path := "/:b", children := [{ path := ":c?" }] } := ⟨_, rfl⟩
  have accepted : (((new {} 0).run [first]).addAt none d).isOk = true := by
    rw [isFirst, isDefinition]
    cbv
  obtain ⟨⟨next, id⟩, added⟩ := Pattern.exists_of_isOk accepted
  have free : ∀ name ∈ d.names, ((new {} 0).run [first]).registry.named? name = none := by
    rw [isDefinition]
    exact fun name member => absurd member List.not_mem_nil
  have isNext : (new {} 0).run [first, .add d] = next := by
    show ((new {} 0).run [first]).apply (Change.addAt none d) = next
    rw [apply_addAt, added]
  have leaves : (fun r : Router => ((r.resolvePath "/").leaf?.map (·.id.number),
      (r.resolvePath "/x").leaf?.map (·.id.number))) ((new {} 0).run [first, .add d]) =
      (some 0, some 2) := by
    rw [isFirst, isDefinition]
    cbv
  have before : ((new {} 0).run [first]).registry.nextId = 1 ∧
      (((new {} 0).run [first]).resolvePath "/x").leaf? = none := by
    rw [isFirst]
    constructor <;> cbv
  have stays : (((new {} 0).run [first, .add d]).resolvePath "/").leaf? =
      (((new {} 0).run [first, .add d]).remove (.id 1)).records.head? := by
    rw [isFirst, isDefinition]
    cbv
  rw [isNext] at leaves stays
  obtain ⟨leaf, leafX⟩ := Prod.mk.inj leaves
  obtain ⟨_, _, _, _, _, isId⟩ := insertDefinition_eq_ok (addAt_eq_ok added).2
  obtain rfl : id = 1 := isId.trans before.1
  have additions := (resolvePath_frame {} 0 [first]).1 none d next 1 added free
  have removals := (resolvePath_frame {} 0 [first, .add d]).2 (.id 1) "/"
  rw [isNext] at removals
  rw [← isFirst, ← isDefinition]
  refine ⟨next, 1, added, ?_, ?_, removals fun record isLeaf => ?_⟩
  · refine (additions "/").1.resolve_right ?_
    rintro ⟨e, high, -, -, isLeaf⟩
    rw [isLeaf, Option.map_some] at leaf
    exact absurd (Option.some.inj leaf) (Nat.ne_of_gt high)
  · rcases (additions "/x").1 with same | ⟨e, high, -, -, isLeaf⟩
    · rw [same, before.2] at leafX
      exact absurd leafX (by simp)
    · exact ⟨e, high, isLeaf⟩
  · rw [stays] at isLeaf
    exact List.mem_of_mem_head? isLeaf

end Router
end Waymark
