/-
Taking back what was added.

Additions that replace no route put new entries beside the old ones and touch no other links
than the children that the first parent lists.  Everything new hangs on the first new entry,
also what was added later on under some alias; so when that entry goes, all of it goes and
nothing else, and the router is again what it was before.  Only the parent of the first
addition still lists the children that it had in between, by numbers of nothing.

* `Registry.Relists` — registries that differ in the children which one entry lists, and
  `resolve_of_relists`, by which they resolve everything alike;
* `Inserts.linksTo_first` — in an addition every new entry links up to the first one;
* `Overlays`, `overlays_of_furnishes` — what additions under new entries keep;
* `dispose_restores` — the disposal of the first addition, after any run.
-/
import Waymark.Proofs.Router.Frame

namespace Waymark

namespace Entry

/-- The entry, which lists more children if it is the one with the given number. -/
def listing (e : Entry) (top : Option Nat) (children : List Nat) : Entry :=
  if top = some e.id then e.extend children [] else e

variable {e : Entry} {top : Option Nat} {children : List Nat}

@[simp] theorem listing_record : (e.listing top children).record = e.record := by
  rw [listing]
  split <;> rfl

@[simp] theorem listing_matcher : (e.listing top children).matcher = e.matcher := by
  rw [listing]
  split <;> rfl

@[simp] theorem listing_parent : (e.listing top children).parent = e.parent := by
  rw [listing]
  split <;> rfl

@[simp] theorem listing_aliasOf : (e.listing top children).aliasOf = e.aliasOf := by
  rw [listing]
  split <;> rfl

@[simp] theorem listing_id : (e.listing top children).id = e.id := by
  rw [id, listing_record, id]

theorem listing_of_ne (different : top ≠ some e.id) : e.listing top children = e := if_neg different

end Entry

/-! ### One entry lists more children -/

namespace Registry

/-- The second registry is the first one, but that the entry `top` lists more children. -/
structure Relists (top : Option Nat) (children : List Nat) (r r' : Registry) : Prop where
  found : ∀ id, r'.get? id = (r.get? id).map (·.listing top children)
  ordered : r'.ordered = r.ordered
  byName : ∀ name, r'.byName.get? name = r.byName.get? name

namespace Relists

variable {top : Option Nat} {children : List Nat} {r r' : Registry}
  (same : Relists top children r r')

include same

theorem inOrder : r'.inOrder = r.inOrder.map (·.listing top children) := by
  rw [Registry.inOrder, Registry.inOrder, same.ordered, List.map_filterMap]
  exact congrArg (r.ordered.filterMap ·) (funext same.found)

theorem named? (name : String) :
    r'.named? name = (r.named? name).map (·.listing top children) := by
  rw [Registry.named?, Registry.named?, same.byName, Option.map_bind]
  exact congrArg _ (funext same.found)

theorem find? (path : String) : r'.find? path =
    (r.find? path).map fun found => (found.1.listing top children, found.2) := by
  rw [Registry.find?, Registry.find?, same.inOrder, List.findSome?_map, List.map_findSome?]
  congr 1
  funext e
  simp only [Function.comp_apply, Entry.listing_matcher, Option.map_map]
  rfl

theorem ancestors (id : Nat) :
    r'.ancestors id = (r.ancestors id).map (·.listing top children) := by
  induction id using Nat.strong_induction_on with
  | _ id ih =>
    rw [Registry.ancestors, Registry.ancestors, same.found]
    cases r.get? id with
    | none => rfl
    | some e =>
      simp only [Option.map_some, Entry.listing_parent]
      cases e.parent with
      | none => rfl
      | some parent =>
        by_cases older : parent < id
        · simp only [dif_pos older, ih parent older, List.map_cons]
        · simp only [dif_neg older, List.map_cons, List.map_nil]

end Relists

/-- Links lead to older entries. -/
theorem Linked.le_of_links {r : Registry} (h : Linked r) {a b : Nat}
    (links : Relation.ReflTransGen r.LinksTo a b) : b ≤ a := by
  induction links with
  | refl => exact Nat.le_refl _
  | tail _ link ih =>
    obtain ⟨e, found, parent | isAlias⟩ := link
    · exact ((h.parent found parent).1.trans_le ih).le
    · exact ((h.original found isAlias).1.trans_le ih).le

end Registry

namespace Router

open Registry (Relists)

variable {r r' : Router} {top : Option Nat} {children : List Nat}

section Relists

variable (same : Relists top children r.registry r'.registry)

include same

theorem locate_of_relists (e : Entry) (path : String) (params : Params) :
    r'.locate (e.listing top children) path params = r.locate e path params := by
  have records : ((r'.registry.ancestors e.id).map (·.record)) =
      (r.registry.ancestors e.id).map (·.record) := by
    rw [same.ancestors, List.map_map]
    exact congrArg (List.map · _) (funext fun a => Entry.listing_record)
  rw [locate, locate, Entry.listing_id, Entry.listing_record, records]

theorem resolvePath_of_relists (path : String) : r'.resolvePath path = r.resolvePath path := by
  rw [resolvePath, resolvePath, same.find?]
  cases r.registry.find? (Path.normalize path) with
  | none => rfl
  | some found => exact locate_of_relists same found.1 _ found.2

theorem resolveEntry_of_relists (e : Entry) (present given : Params) :
    r'.resolveEntry (e.listing top children) present given = r.resolveEntry e present given := by
  rw [resolveEntry, resolveEntry, Entry.listing_matcher]
  simp only [locate_of_relists same]

theorem require_of_relists (name : String) :
    r'.require name = (r.require name).map (·.listing top children) := by
  rw [require, require, same.named?]
  cases r.registry.named? name <;> rfl

theorem present_of_relists (current : Location) :
    r'.present current = (r.present current).map (·.listing top children) := by
  rw [present, present]
  cases current.name with
  | some name => exact require_of_relists same name
  | none =>
    simp only [same.find?]
    cases r.registry.find? (Path.normalize current.path) <;> rfl

theorem resolve_of_relists (target : Target) (current : Location) :
    r'.resolve target current = r.resolve target current := by
  cases target with
  | path path => exact congrArg Except.ok (resolvePath_of_relists same path)
  | named name params =>
    simp only [resolve, require_of_relists same]
    cases r.require name with
    | error error => rfl
    | ok e => exact resolveEntry_of_relists same e current.params params
  | relative params =>
    simp only [resolve, present_of_relists same]
    cases r.present current with
    | error error => rfl
    | ok e => exact resolveEntry_of_relists same e current.params params

theorem urlFor_of_relists (name : String) (params : Params) :
    r'.urlFor name params = r.urlFor name params := by
  rw [urlFor, urlFor, require_of_relists same]
  cases r.require name with
  | error error => rfl
  | ok e => simp only [Except.map, Entry.listing_matcher]

theorem records_of_relists : r'.records = r.records := by
  rw [records, records, same.inOrder, List.map_map]
  exact congrArg (List.map · _) (funext fun e => Entry.listing_record)

end Relists

/-! ### Additions -/

/-- No entry goes. -/
def Spares (r next : Router) : Prop :=
  ∀ n, (r.registry.get? n).isSome → (next.registry.get? n).isSome

/-- Routes are added to the first router, each under an entry that `r` does not have, and none of
them replaces another route. -/
inductive Furnishes (r first : Router) : Router → Prop
  | refl : Furnishes r first first
  | step {mid next : Router} {parent : RouteRef} {p : Entry} {d : Definition} {id : Nat} :
      Furnishes r first mid → mid.lookup? parent = some p → r.registry.get? p.id = none →
      mid.addUnder parent d = .ok (next, id) → mid.Spares next → Furnishes r first next

variable {mid next last : Router} {d : Definition} {id root n : Nat} {parent : Option Nat}
  {e : Entry}

namespace Inserts

variable (h : r.registry.Linked) (i : Inserts r next d parent id) (spares : r.Spares next)

include i

/-- The links of every new entry lead up to the first one. -/
theorem linksTo_first (found : next.registry.get? n = some e) (high : id ≤ n) :
    Relation.ReflTransGen next.registry.LinksTo n id := by
  induction n using Nat.strong_induction_on generalizing e with
  | _ n ih =>
    obtain ⟨s, node, raw, valid, rfl⟩ := i.exists_site found high
    obtain ⟨own, holds⟩ := i.holds valid
    obtain rfl := Option.some.inj (holds.found.symm.trans found)
    have first : d.place (.here none) = 0 := Nat.zero_mul _
    cases above : s.above? with
    | some up =>
      have link : own.parent = some (id + d.place up) := by
        rw [holds.under, Definition.parentAt, above]
      obtain ⟨older, ⟨p, foundP⟩, -⟩ := i.entered.linked.parent found link
      exact .head ⟨own, found, Or.inl link⟩ (ih _ older foundP (Nat.le_add_right _ _))
    | none =>
      cases s with
      | here choice =>
        cases choice with
        | none =>
          rw [first]
          exact .refl
        | some place =>
          -- an alias of the first path
          have link : own.aliasOf = some id := by
            rw [holds.standsFor, Definition.originalAt, if_neg (by simp [Site.primary]),
              Site.primary, first, Nat.add_zero]
          exact .single ⟨own, found, Or.inr link⟩
      | nested choice index below =>
        rw [Site.above?] at above
        split at above <;> exact absurd above (by simp)

include h spares

/-- The old entries are the same afterwards, but that the parent lists new children. -/
theorem exists_listing : ∃ children, (∀ c ∈ children, id ≤ c) ∧
    ∀ n < id, next.registry.get? n = (r.registry.get? n).map (·.listing parent children) := by
  have extended := i.extends h
  obtain ⟨children, isNew, grows⟩ : ∃ children, (∀ c ∈ children, id ≤ c) ∧ ∀ p e e',
      parent = some p → r.registry.get? p = some e → next.registry.get? p = some e' →
      e' = e.extend children [] := by
    cases parent with
    | none => exact ⟨[], by simp, fun p e e' none => absurd none (by simp)⟩
    | some p =>
      obtain ⟨live, live'⟩ := extended.parent_stays p rfl
      obtain ⟨e, found⟩ := Option.isSome_iff_exists.mp live
      obtain ⟨e', found'⟩ := Option.isSome_iff_exists.mp live'
      obtain ⟨children, isExtended, -, isNew⟩ := extended.parent_grows p e e' found found' rfl
      refine ⟨children, isNew, ?_⟩
      rintro _ o o' ⟨⟩ foundO foundO'
      rw [Option.some.inj (foundO.symm.trans found), Option.some.inj (foundO'.symm.trans found')]
      exact isExtended
  refine ⟨children, isNew, fun n low => ?_⟩
  cases found : r.registry.get? n with
  | none =>
    rw [Option.map_none, Option.eq_none_iff_forall_ne_some]
    intro e' found'
    obtain ⟨e, stays⟩ := (i.exists_get?_iff low).mp ⟨e', found'⟩
    have old := Registry.get?_of_removeAll stays
    exact absurd (found.symm.trans old) (by simp)
  | some e =>
    obtain ⟨e', found'⟩ := Option.isSome_iff_exists.mp (spares n (by rw [found]; rfl))
    rw [found', Option.map_some, Entry.listing, h.number found]
    split
    · rename_i isParent
      rw [grows n e e' isParent found found']
    · rename_i different
      rw [extended.unchanged n e e' found found' different]

/-- The order of the old entries is the same. -/
theorem ordered_of_spares : next.registry.ordered.filter (· < id) = r.registry.ordered := by
  rw [i.ordered_eq h]
  refine List.filter_eq_self.mpr fun n member => spares n ?_
  exact Option.isSome_iff_exists.mpr (h.mem_ordered.mp member)

/-- The links of the old entries are the same. -/
theorem linksTo_of_spares {a b : Nat} (link : r.registry.LinksTo a b) :
    next.registry.LinksTo a b := by
  obtain ⟨e, found, up⟩ := link
  obtain ⟨children, -, listing⟩ := i.exists_listing h spares
  refine ⟨e.listing parent children, ?_, ?_⟩
  · rw [listing a (i.low h found), found, Option.map_some]
  · rwa [Entry.listing_parent, Entry.listing_aliasOf]

end Inserts

/-- The second router is the first one with more entries, from the number `root` on, whose links
all lead up to that one; `top` lists some of them among its children. -/
structure Overlays (r mid : Router) (top : Option Nat) (root : Nat) : Prop where
  linked : mid.registry.Linked
  options : mid.options = r.options
  lineage : mid.registry.lineage = r.registry.lineage
  live : ∃ e, mid.registry.get? root = some e
  old : ∃ children, (∀ c ∈ children, root ≤ c) ∧
    ∀ n < root, mid.registry.get? n = (r.registry.get? n).map (·.listing top children)
  new : ∀ n e, mid.registry.get? n = some e → root ≤ n →
    Relation.ReflTransGen mid.registry.LinksTo n root
  ordered : mid.registry.ordered.filter (· < root) = r.registry.ordered

theorem lineage_of_inserts (i : Inserts r next d parent id) :
    next.registry.lineage = r.registry.lineage :=
  i.entered.grown.lineage.trans (Registry.lineage_removeAll _ _)

/-- A first addition. -/
theorem overlays_of_inserts (h : r.registry.Linked) (i : Inserts r next d top id)
    (spares : r.Spares next) : Overlays r next top id where
  linked := i.entered.linked
  options := i.options
  lineage := lineage_of_inserts i
  live := by
    obtain ⟨e, found, -⟩ := i.exists_first
    exact ⟨e, found⟩
  old := i.exists_listing h spares
  new := fun n e found high => i.linksTo_first found high
  ordered := i.ordered_of_spares h spares

/-- An addition under a new entry. -/
theorem Overlays.further {p : Nat} (o : Overlays r mid top root)
    (i : Inserts mid next d (some p) id) (isNew : root ≤ p) (spares : mid.Spares next) :
    Overlays r next top root := by
  obtain ⟨children, isChild, old⟩ := o.old
  obtain ⟨more, -, listing⟩ := i.exists_listing o.linked spares
  obtain ⟨pe, foundP⟩ := i.parent_live rfl
  have foundP := Registry.get?_of_removeAll foundP
  have lowP : p < id := i.low o.linked foundP
  have links : mid.registry.LinksTo ≤ next.registry.LinksTo :=
    fun _ _ => i.linksTo_of_spares o.linked spares
  have up : ∀ n e, mid.registry.get? n = some e → root ≤ n →
      Relation.ReflTransGen next.registry.LinksTo n root :=
    fun n e found high => Relation.ReflTransGen.mono links n root (o.new n e found high)
  refine ⟨i.entered.linked, i.options.trans o.options, (lineage_of_inserts i).trans o.lineage, ?_,
    ⟨children, isChild, ?_⟩, ?_, ?_⟩
  · obtain ⟨e, found⟩ := o.live
    exact Option.isSome_iff_exists.mp (spares root (by rw [found]; rfl))
  · intro n low
    rw [listing n (low.trans_le (isNew.trans lowP.le)), ← old n low]
    cases found : mid.registry.get? n with
    | none => rfl
    | some e =>
      have number := o.linked.number found
      rw [Option.map_some, Entry.listing_of_ne]
      rintro ⟨⟩
      rw [number] at isNew
      exact absurd low (Nat.not_lt.mpr isNew)
  · intro n e found high
    rcases Nat.lt_or_ge n id with early | late
    · obtain ⟨e₀, stays⟩ := (i.exists_get?_iff early).mp ⟨e, found⟩
      exact up n e₀ (Registry.get?_of_removeAll stays) high
    · -- up to the first new entry, from there to its parent, and on
      obtain ⟨first, foundFirst, under, -⟩ := i.exists_first
      have link : next.registry.LinksTo id p := ⟨first, foundFirst, Or.inl under⟩
      exact (i.linksTo_first found late).trans (.head link (up p pe foundP isNew))
  · rw [← Registry.filter_lt_filter_lt _ (isNew.trans lowP.le), i.ordered_of_spares o.linked spares,
      o.ordered]

/-- Any number of additions under new entries. -/
theorem overlays_of_furnishes {first : Router} (furnishes : Furnishes r first last)
    (o : Overlays r first top root) : Overlays r last top root := by
  induction furnishes with
  | refl => exact o
  | @step mid next parent p d id _ isParent notOld added spares o =>
    have i := inserts_of_addAt o.linked (show mid.addAt (some parent) d = .ok (next, id) from added)
    rw [Option.bind_some, isParent, Option.map_some] at i
    refine o.further i ?_ spares
    -- an entry that is not among the old ones is new
    refine Nat.le_of_not_lt fun low => ?_
    obtain ⟨children, -, old⟩ := o.old
    have missing := old p.id low
    rw [notOld, lookup?_eq_some o.linked isParent] at missing
    exact absurd missing (by simp)

/-! ### The disposal -/

namespace Overlays

variable (o : Overlays r last top root)

include o

theorem remove_root : last.remove (.id root) =
    { last with registry := last.registry.remove root } := by
  obtain ⟨e, found⟩ := o.live
  rw [remove_of_lookup? (show last.lookup? (.id root) = some e from found), o.linked.number found]

/-- Everything new goes, and nothing else. -/
theorem get?_remove_root (n : Nat) : (last.remove (.id root)).registry.get? n =
    if n < root then last.registry.get? n else none := by
  rw [o.remove_root]
  refine Option.ext fun e => ?_
  rw [Registry.get?_remove_iff o.linked]
  split
  · rename_i low
    exact and_iff_left fun links => absurd (o.linked.le_of_links links) (Nat.not_le.mpr low)
  · rename_i high
    refine iff_of_false (fun ⟨found, stays⟩ => ?_) (by simp)
    exact stays (o.new n e found (Nat.le_of_not_lt high))

theorem ordered_remove_root : (last.remove (.id root)).registry.ordered = r.registry.ordered := by
  have gone := o.get?_remove_root
  rw [o.remove_root] at gone ⊢
  rw [← o.ordered]
  show (last.registry.removeAll [root]).ordered = _
  rw [Registry.ordered_removeAll]
  refine List.filter_congr fun n member => ?_
  obtain ⟨e, found⟩ := o.linked.mem_ordered.mp member
  have left : (last.registry.removeAll [root]).get? n = _ := gone n
  rw [left, found]
  by_cases low : n < root <;> simp [low]

theorem linked_remove_root : (last.remove (.id root)).registry.Linked := by
  rw [o.remove_root]
  exact Registry.linked_removeAll o.linked [root]

/-- Only the parent of the first addition is not just as it was. -/
theorem relists (h : r.registry.Linked) (isRoot : root = r.registry.nextId) :
    ∃ dead, (∀ c ∈ dead, (last.remove (.id root)).registry.get? c = none) ∧
      Relists top dead r.registry (last.remove (.id root)).registry := by
  obtain ⟨children, isNew, old⟩ := o.old
  have found : ∀ n, (last.remove (.id root)).registry.get? n =
      (r.registry.get? n).map (·.listing top children) := by
    intro n
    rw [o.get?_remove_root]
    split
    · rename_i low
      exact old n low
    · rename_i high
      have missing : r.registry.get? n = none :=
        Option.eq_none_iff_forall_ne_some.mpr fun e found => high (isRoot ▸ h.lt_nextId found)
      rw [missing, Option.map_none]
  refine ⟨children, fun c member => ?_, found, o.ordered_remove_root, fun name => ?_⟩
  · rw [o.get?_remove_root, if_neg (Nat.not_lt.mpr (isNew c member))]
  · -- an index of names is settled by the entries
    refine Option.ext fun n => ?_
    rw [o.linked_remove_root.named, h.named, found]
    simp only [Option.map_eq_some_iff, exists_exists_and_eq_and, Entry.isAlias,
      Entry.listing_aliasOf, Entry.listing_record]

end Overlays

/-- The router is again what it was: it has the same entries with the same links, in the same
order and under the same names, and it resolves everything alike.  Only the entry `top` may list
more children, after those that it had, by numbers of nothing. -/
structure Restores (r after : Router) (top : Option Nat) : Prop where
  options : after.options = r.options
  lineage : after.registry.lineage = r.registry.lineage
  ordered : after.registry.ordered = r.registry.ordered
  byName : ∀ name, after.registry.byName.get? name = r.registry.byName.get? name
  entries : ∃ dead, (∀ c ∈ dead, after.registry.get? c = none) ∧
    ∀ n, after.registry.get? n = (r.registry.get? n).map (·.listing top dead)
  records : after.records = r.records
  childrenOf : ∀ n, (after.childrenOf n).map (·.record) = (r.childrenOf n).map (·.record)
  resolve : ∀ target current, after.resolve target current = r.resolve target current
  urlFor : ∀ name params, after.urlFor name params = r.urlFor name params

/-- Numbers of nothing make no difference to the entries nested under another one. -/
theorem childrenOf_of_relists {dead : List Nat} {after : Router}
    (same : Relists top dead r.registry after.registry)
    (gone : ∀ c ∈ dead, after.registry.get? c = none) (n : Nat) :
    (after.childrenOf n).map (·.record) = (r.childrenOf n).map (·.record) := by
  rw [childrenOf, childrenOf, same.found]
  cases r.registry.get? n with
  | none => rfl
  | some e =>
    have listed : (e.listing top dead).children.filterMap after.registry.get? =
        e.children.filterMap after.registry.get? := by
      rw [Entry.listing]
      split
      · rw [Entry.extend_children, List.filterMap_append, List.filterMap_eq_nil_iff.mpr gone,
          List.append_nil]
      · rfl
    simp only [Option.map_some]
    rw [listed, List.map_filterMap, List.map_filterMap]
    congr 1
    funext c
    rw [same.found]
    cases r.registry.get? c <;> simp

theorem Overlays.restores (o : Overlays r last top root) (h : r.registry.Linked)
    (isRoot : root = r.registry.nextId) : Restores r (last.remove (.id root)) top := by
  obtain ⟨dead, gone, same⟩ := o.relists h isRoot
  refine ⟨?_, ?_, same.ordered, same.byName, ⟨dead, gone, same.found⟩, records_of_relists same,
    childrenOf_of_relists same gone, resolve_of_relists same, urlFor_of_relists same⟩
  · rw [o.remove_root]
    exact o.options
  · rw [o.remove_root]
    exact (Registry.lineage_removeAll _ _).trans o.lineage

/-- An addition whose names are free replaces nothing. -/
theorem Extends.spares_of_free (extended : Extends r next d parent id)
    (free : ∀ name ∈ d.names, r.registry.named? name = none) : r.Spares next := by
  intro n live
  rw [Option.isSome_iff_ne_none]
  intro gone
  obtain ⟨name, isName, t, taken, -⟩ := (extended.gone n live).mp gone
  rw [free name isName] at taken
  exact absurd taken (by simp)

/-- After any run, add a definition that replaces no route, and after it any number of others, each
under some entry that is new and none of which replaces a route; when the first one is disposed of,
the router is again what it was before. -/
theorem dispose_restores (options : RouterOptions) (lineage : Nat) (changes : List Change) :
    let r := (new options lineage).run changes
    ∀ parent d first root last, r.addAt parent d = .ok (first, root) → r.Spares first →
      Furnishes r first last →
      Restores r (last.apply (.dispose root)) ((parent.bind r.lookup?).map (·.id)) := by
  intro r parent d first root last added spares furnishes
  have h : r.registry.Linked := linked_run options lineage changes
  have i := inserts_of_addAt h added
  exact (overlays_of_furnishes furnishes (overlays_of_inserts h i spares)).restores h i.first

/-- The first route has an alias, and the second one is added under that. -/
theorem dispose_restores_alias : ∃ first last,
    let r := (new {} 0).run [.add { path := "" }]
    r.addAt (some (.id 0)) { path := ":a/:b", aliases := [":b/:a"] } = .ok (first, 1) ∧
      (∃ p, first.lookup? (.id 2) = some p ∧ p.isAlias = true) ∧
      first.addUnder (.id 2) { path := ":c" } = .ok (last, 3) ∧
      Restores r (last.apply (.dispose 1)) (some 0) := by
  obtain ⟨start, isStart⟩ : ∃ change : Change, change = .add { path := "" } := ⟨_, rfl⟩
  obtain ⟨d, isFirst⟩ : ∃ d : Definition,
      d = { path := ":a/:b", aliases := [":b/:a"] } := ⟨_, rfl⟩
  obtain ⟨d', isSecond⟩ : ∃ d : Definition, d = { path := ":c" } := ⟨_, rfl⟩
  have begins : ((new {} 0).run [start]).registry.nextId = 1 := by
    rw [isStart]
    cbv
  have further : (fun r : Router => ((r.addUnder (.id 2) d').isOk,
      (r.lookup? (.id 2)).map (·.isAlias), r.registry.nextId))
        ((new {} 0).run [start, .addUnder (.id 0) d]) = (true, some true, 3) := by
    rw [isStart, isFirst, isSecond]
    cbv
  have isNext : (new {} 0).run [start, .addUnder (.id 0) d] =
      ((new {} 0).run [start]).apply (Change.addAt (some (.id 0)) d) := rfl
  rw [apply_addAt] at isNext
  obtain ⟨first, root, added⟩ : ∃ first root,
      ((new {} 0).run [start]).addAt (some (.id 0)) d = .ok (first, root) := by
    cases added : ((new {} 0).run [start]).addAt (some (.id 0)) d with
    | ok result => exact ⟨result.1, result.2, rfl⟩
    | error error =>
      -- the next number would be the same
      rw [isNext, added] at further
      simp [begins] at further
  rw [added] at isNext
  rw [isNext] at further
  simp only [Prod.mk.injEq] at further
  obtain ⟨⟨last, id⟩, added'⟩ := Pattern.exists_of_isOk further.1
  have h := linked_run {} 0 [start]
  have i := inserts_of_addAt h added
  have i' := inserts_of_addAt i.entered.linked (show first.addAt (some (.id 2)) d' = _ from added')
  obtain rfl : root = 1 := i.first.trans begins
  obtain rfl : id = 3 := i'.first.trans further.2.2
  obtain ⟨p, isParent, isAlias⟩ := Option.map_eq_some_iff.mp further.2.1
  have number : p.id = 2 := i.entered.linked.number isParent
  have notOld : ((new {} 0).run [start]).registry.get? p.id = none := by
    refine Option.eq_none_iff_forall_ne_some.mpr fun e found => ?_
    exact absurd (i.low h found) (by rw [number]; decide)
  have noName : ∀ name, name ∉ d.names ∧ name ∉ d'.names := by
    rw [isFirst, isSecond]
    exact fun name => ⟨List.not_mem_nil, List.not_mem_nil⟩
  have spares : ((new {} 0).run [start]).Spares first :=
    (i.extends h).spares_of_free fun name member => absurd member (noName name).1
  have spares' : first.Spares last :=
    (i'.extends i.entered.linked).spares_of_free fun name member => absurd member (noName name).2
  have restores := dispose_restores {} 0 [start] (some (.id 0)) d first 1 last added spares
    (.step .refl isParent notOld added' spares')
  -- the first route is nested under the entry with the number 0
  obtain ⟨top, found⟩ := Option.isSome_iff_exists.mp (addAt_eq_ok added).1
  have isTop : top.id = 0 := h.number found
  rw [found, Option.map_some, isTop] at restores
  rw [← isStart, ← isFirst, ← isSecond]
  exact ⟨first, last, added, ⟨p, isParent, isAlias⟩, added', restores⟩

end Router
end Waymark
