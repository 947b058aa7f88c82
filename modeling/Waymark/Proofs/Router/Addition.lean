/-
Adding a route.

A definition is added whole or not at all.  First the entries go whose names the
definition takes, with everything that hangs on them; then the plan is entered
(`Router.Inserts`).

* `insertDefinition_inserts` — the two steps of an addition that succeeds;
* `adds_whole_or_nothing` — what an addition does to a router after any run;
* `adds_each_site` — the new entries are those of the sites of the definition.
-/
import Waymark.Proofs.Matcher.Recognize
import Waymark.Proofs.Registry.Sites
import Waymark.Proofs.Router.Run

namespace Waymark
namespace Router

variable {r next : Router} {d : Definition} {id : Nat}

/-- Adds a route, under another one if there is a parent. -/
def addAt (r : Router) (parent : Option RouteRef) (d : Definition) :
    Except DefinitionError (Router × Nat) :=
  match parent with
  | none => r.add d
  | some parent => r.addUnder parent d

/-- The change that adds a route, under another one if there is a parent. -/
def Change.addAt (parent : Option RouteRef) (d : Definition) : Change :=
  match parent with
  | none => .add d
  | some parent => .addUnder parent d

theorem apply_addAt (r : Router) (parent : Option RouteRef) (d : Definition) :
    r.apply (Change.addAt parent d) =
      match r.addAt parent d with
      | .ok (next, _) => next
      | .error _ => r := by
  cases parent <;> rfl

/-- A parent that is named is there. -/
theorem addAt_eq_ok {parent : Option RouteRef} (added : r.addAt parent d = .ok (next, id)) :
    (parent.bind r.lookup?).isSome = parent.isSome ∧
      r.insertDefinition d (parent.bind r.lookup?) = .ok (next, id) := by
  cases parent with
  | none => exact ⟨rfl, added⟩
  | some target =>
    rw [addAt, addUnder] at added
    rw [Option.bind_some]
    split at added
    · exact absurd added (by simp)
    · rename_i e found
      rw [found]
      exact ⟨rfl, added⟩

/-- Where the parent is there, it is the one that the route goes under. -/
theorem addAt_of_isSome {parent : Option RouteRef}
    (live : (parent.bind r.lookup?).isSome = parent.isSome) (d : Definition) :
    r.addAt parent d = r.insertDefinition d (parent.bind r.lookup?) := by
  cases parent with
  | none => rfl
  | some target =>
    obtain ⟨e, found⟩ := Option.isSome_iff_exists.mp live
    rw [found]
    rw [Option.bind_some] at found
    rw [addAt, addUnder, found]

/-- A parent that is found is an entry of the registry. -/
theorem get?_of_bind_lookup? (h : r.registry.Linked) {parent : Option RouteRef} {e : Entry}
    (found : parent.bind r.lookup? = some e) : r.registry.get? e.id = some e := by
  obtain ⟨target, -, found⟩ := Option.bind_eq_some_iff.mp found
  exact lookup?_eq_some h found

/-! ### The two steps -/

/-- The numbers of the entries that have the names of a definition. -/
def replaced (r : Router) (d : Definition) : List Nat :=
  d.names.filterMap fun name => (r.registry.named? name).map Entry.id

/-- The registry without the entries that have the names of a definition. -/
def vacated (r : Router) (d : Definition) : Registry := r.registry.removeAll (r.replaced d)

/-- The router `next` comes of `r` when the definition gets in under the parent: the entries that
have its names are taken out, and then it is entered from the number `id` on. -/
structure Inserts (r next : Router) (d : Definition) (parent : Option Nat) (id : Nat) : Prop where
  options : next.options = r.options
  first : id = r.registry.nextId
  refused : r.options.duplicateNames = .reject → r.replaced d = []
  linked : (r.vacated d).Linked
  parent_live {p : Nat} : parent = some p → ∃ e, (r.vacated d).get? p = some e
  entered : Registry.Entered d.names [id] parent none (r.vacated d) next.registry
  placed : Registry.Placed r.options d parent none (r.vacated d) next.registry

theorem insertDefinition_inserts (h : r.registry.Linked) {parent : Option Entry}
    (live : ∀ e, parent = some e → r.registry.get? e.id = some e)
    (added : r.insertDefinition d parent = .ok (next, id)) :
    Inserts r next d (parent.map (·.id)) id := by
  obtain ⟨plan, gone, planned, free, rfl, rfl⟩ := insertDefinition_eq_ok added
  have follows := Plan.follows_of_ofDefinition planned
  have names := Definition.names_of_follows follows
  obtain ⟨isReplaced, -, refused⟩ := conflicts_eq_ok free
  rw [names] at isReplaced
  obtain rfl : gone = r.replaced d := isReplaced
  have linked := Registry.linked_removeAll h (r.replaced d)
  have welcome := welcomes_removeAll h live planned free
  have pattern : (parent.map fun e => Plan.parentOf e.matcher).map (·.path) =
      (r.vacated d).patternOf? (parent.map (·.id)) := by
    cases parent with
    | none => rfl
    | some e =>
      -- the parent is still there, as it was
      obtain ⟨e', stays⟩ := welcome.parent_live rfl
      obtain rfl := Registry.eq_of_get?_removeAll (live e rfl) stays
      simp only [Option.map_some, Registry.patternOf?, Option.bind_some, vacated, stays]
      rfl
  have entered := (Registry.entersWell plan linked welcome).1
  have got : (r.registry.removeAll (r.replaced d)).childrenGot none = [r.registry.nextId] := by
    rw [Registry.childrenGot, Registry.nextId_removeAll]
    rfl
  rw [names, got] at entered
  exact ⟨rfl, rfl, refused, linked, welcome.parent_live, entered,
    Registry.placesWell r.options d linked welcome (Plan.ofDefinition_eq_ok planned).1 pattern
      fun o none => absurd none (by simp)⟩

namespace Inserts

variable {parent : Option Nat} (h : r.registry.Linked) (i : Inserts r next d parent id)

include i

theorem nextId_vacated : (r.vacated d).nextId = id := by
  rw [vacated, Registry.nextId_removeAll, i.first]

theorem nextId : next.registry.nextId = id + d.sites := by
  rw [i.placed.nextId, i.nextId_vacated]

/-- What stays is what is not taken out first. -/
theorem exists_get?_iff {n : Nat} (low : n < id) :
    (∃ e, next.registry.get? n = some e) ↔ ∃ e, (r.vacated d).get? n = some e := by
  constructor
  · rintro ⟨e, found⟩
    exact i.entered.grown.old found (i.nextId_vacated ▸ low)
  · exact i.entered.grown.get?_live

/-- The entry of a site. -/
theorem holds {s : Site} {node : Definition} {raw : String}
    (valid : d.at? s = some (node, raw)) :
    ∃ e, next.registry.Holds r.options node raw (d.parentAt id parent s) (d.originalAt id none s)
      (id + d.place s) e := by
  have sited := i.placed.sited s node raw valid
  rw [i.nextId_vacated] at sited
  exact sited

theorem kept {n : Nat} {e e' : Entry} (found : (r.vacated d).get? n = some e)
    (found' : next.registry.get? n = some e') :
    ∃ children, e' = e.extend children [] ∧ (parent ≠ some n → children = []) ∧
      ∀ c ∈ children, id ≤ c := by
  obtain ⟨children, aliases, grown, noChildren, noAliases, new⟩ := i.entered.grown.kept found
  rw [found'] at grown
  rw [noAliases fun o none => absurd none (by simp)] at grown
  rw [i.nextId_vacated] at new
  exact ⟨children, Option.some.inj grown, noChildren, new⟩

/-- The first new entry is nested under the parent, and is no alias. -/
theorem exists_first :
    ∃ e, next.registry.get? id = some e ∧ e.parent = parent ∧ e.aliasOf = none := by
  obtain ⟨e, holds⟩ := i.holds (Definition.at?_here.mpr ⟨rfl, rfl⟩ : d.at? (.here none) = _)
  have first : d.place (.here none) = 0 := Nat.zero_mul _
  have found := holds.found
  rw [first, Nat.add_zero] at found
  exact ⟨e, found, holds.under, holds.standsFor⟩

/-- The parent lists the new entry, which comes after the children that it had. -/
theorem mem_children {p : Nat} {e : Entry} {children : List Nat} (isParent : parent = some p)
    (found : (r.vacated d).get? p = some e)
    (found' : next.registry.get? p = some (e.extend children [])) : id ∈ children := by
  obtain ⟨root, foundR, under, primary⟩ := i.exists_first
  obtain ⟨-, -, ⟨pe, foundP, listed⟩ | ⟨o, _, isAlias, -⟩⟩ :=
    i.entered.linked.parent foundR (under.trans isParent)
  · rw [found'] at foundP
    rw [← Option.some.inj foundP, Entry.extend_children, List.mem_append] at listed
    rcases listed with old | new
    · have := (i.linked.younger found (List.mem_append_left _ old)).2
      rw [i.nextId_vacated] at this
      exact absurd this (Nat.lt_irrefl _)
    · exact new
  · rw [primary] at isAlias
    exact absurd isAlias (by simp)

include h

theorem low {n : Nat} {e : Entry} (found : r.registry.get? n = some e) : n < id := by
  rw [i.first]
  exact h.lt_nextId found

/-- An entry goes if its links lead up to an entry that has one of the names. -/
theorem gone_iff {n : Nat} {e : Entry} (found : r.registry.get? n = some e) :
    next.registry.get? n = none ↔ ∃ name ∈ d.names, ∃ t, r.registry.named? name = some t ∧
      Relation.ReflTransGen r.registry.LinksTo n t.id := by
  have doomed : r.registry.Doomed (r.replaced d) n ↔ ∃ name ∈ d.names, ∃ t,
      r.registry.named? name = some t ∧ Relation.ReflTransGen r.registry.LinksTo n t.id := by
    constructor
    · rintro ⟨a, member, walk⟩
      obtain ⟨name, isName, t, named, rfl⟩ := mem_replaced.mp member
      exact ⟨name, isName, t, named, ((Registry.cascade_iff h).mp walk).2⟩
    · rintro ⟨name, isName, t, named, links⟩
      exact ⟨t.id, mem_replaced.mpr ⟨name, isName, t, named, rfl⟩,
        (Registry.cascade_iff h).mpr ⟨⟨e, found⟩, links⟩⟩
  rw [Option.eq_none_iff_forall_ne_some, ← not_exists, i.exists_get?_iff (i.low h found), vacated,
    Registry.get?_removeAll_isSome, not_and_not_right, doomed]
  exact ⟨fun goes => goes ⟨e, found⟩, fun goes _ => goes⟩

/-- The entries that stay are in the order in which they were. -/
theorem ordered_eq : next.registry.ordered.filter (· < id) =
    r.registry.ordered.filter fun n => (next.registry.get? n).isSome := by
  have between : (r.vacated d).ordered =
      r.registry.ordered.filter fun n => (next.registry.get? n).isSome := by
    rw [vacated, Registry.ordered_removeAll]
    refine List.filter_congr fun n member => ?_
    obtain ⟨e, found⟩ := h.mem_ordered.mp member
    have stays := i.exists_get?_iff (i.low h found)
    rw [← Option.isSome_iff_exists, ← Option.isSome_iff_exists] at stays
    rw [found, Bool.eq_iff_iff]
    exact stays.symm
  have early : ∀ n ∈ (r.vacated d).ordered, n < id := by
    intro n member
    obtain ⟨e, found⟩ := i.linked.mem_ordered.mp member
    exact i.nextId_vacated ▸ i.linked.lt_nextId found
  have part : (r.vacated d).ordered.Sublist (next.registry.ordered.filter (· < id)) := by
    have kept := i.entered.grown.ordered.filter (· < id)
    rwa [List.filter_eq_self.mpr (by simpa using early)] at kept
  -- both lists hold each entry that stays once
  have same : (next.registry.ordered.filter (· < id)).Perm (r.vacated d).ordered := by
    refine (List.perm_ext_iff_of_nodup (i.entered.linked.ordered_nodup.filter _)
      i.linked.ordered_nodup).mpr fun n => ?_
    rw [List.mem_filter, i.entered.linked.mem_ordered, i.linked.mem_ordered, decide_eq_true_iff]
    constructor
    · rintro ⟨live, early⟩
      exact (i.exists_get?_iff early).mp live
    · rintro ⟨e, found⟩
      have early : n < id := i.nextId_vacated ▸ i.linked.lt_nextId found
      exact ⟨(i.exists_get?_iff early).mpr ⟨e, found⟩, early⟩
  rw [← between]
  exact (part.eq_of_length same.length_eq.symm).symm

end Inserts

/-! ### After any run -/

/-- The router `next` is `r` with the definition added under the parent from the number `id` on. -/
structure Extends (r next : Router) (d : Definition) (parent : Option Nat) (id : Nat) : Prop where
  options : next.options = r.options
  /-- The numbers from `id` on have not been given out. -/
  first : id = r.registry.nextId
  fresh : ∀ n, (r.registry.get? n).isSome → n < id
  /-- The new entries have the numbers from `id` on. -/
  consecutive : ∀ n, id ≤ n → ((next.registry.get? n).isSome ↔ n < next.registry.nextId)
  nextId : next.registry.nextId = id + d.sites
  /-- What goes are the entries that have a name of the definition and what links to them. -/
  gone : ∀ n, (r.registry.get? n).isSome →
    (next.registry.get? n = none ↔ ∃ name ∈ d.names, ∃ t, r.registry.named? name = some t ∧
      Relation.ReflTransGen r.registry.LinksTo n t.id)
  refused : r.options.duplicateNames = .reject → ∀ n, (r.registry.get? n).isSome →
    (next.registry.get? n).isSome
  parent_stays : ∀ p, parent = some p → (r.registry.get? p).isSome ∧ (next.registry.get? p).isSome
  /-- Each name leads to the entry of the node that bears it. -/
  named : ∀ name ∈ d.names, ∃ s node raw e, d.at? s = some (node, raw) ∧ s.primary = s ∧
    node.name = some name ∧ next.registry.named? name = some e ∧ e.id = id + d.place s
  unchanged : ∀ n e e', r.registry.get? n = some e → next.registry.get? n = some e' →
    parent ≠ some n → e' = e
  /-- The parent's list of children is longer at its end. -/
  parent_grows : ∀ n e e', r.registry.get? n = some e → next.registry.get? n = some e' →
    parent = some n → ∃ children, e' = e.extend children [] ∧ id ∈ children ∧
      ∀ c ∈ children, id ≤ c
  ordered : next.registry.ordered.filter (· < id) =
    r.registry.ordered.filter fun n => (next.registry.get? n).isSome

theorem Inserts.extends (h : r.registry.Linked) {parent : Option Nat}
    (i : Inserts r next d parent id) : Extends r next d parent id where
  options := i.options
  first := i.first
  fresh := by
    intro n live
    obtain ⟨e, found⟩ := Option.isSome_iff_exists.mp live
    exact i.low h found
  consecutive := by
    intro n high
    rw [Option.isSome_iff_exists]
    constructor
    · rintro ⟨e, found⟩
      exact i.entered.linked.lt_nextId found
    · exact i.entered.grown.new (i.nextId_vacated ▸ high)
  nextId := i.nextId
  gone := by
    intro n live
    obtain ⟨e, found⟩ := Option.isSome_iff_exists.mp live
    exact i.gone_iff h found
  refused := by
    intro reject n live
    obtain ⟨e, found⟩ := Option.isSome_iff_exists.mp live
    rw [Option.isSome_iff_exists, i.exists_get?_iff (i.low h found), vacated, i.refused reject,
      Registry.removeAll_nil]
    exact ⟨e, found⟩
  parent_stays := by
    intro p isParent
    obtain ⟨e, stays⟩ := i.parent_live isParent
    have found := Registry.get?_of_removeAll stays
    rw [Option.isSome_iff_exists, Option.isSome_iff_exists, i.exists_get?_iff (i.low h found)]
    exact ⟨⟨e, found⟩, e, stays⟩
  named := by
    intro name isName
    obtain ⟨s, node, raw, valid, primary, named⟩ := Definition.mem_names.mp isName
    obtain ⟨e, holds⟩ := i.holds valid
    have number := i.entered.linked.number holds.found
    refine ⟨s, node, raw, e, valid, primary, named, ?_, number⟩
    refine (Registry.named?_eq_some i.entered.linked).mpr ⟨?_, ?_, ?_⟩
    · rw [number]
      exact holds.found
    · rw [Entry.isAlias, holds.standsFor, Definition.originalAt, if_pos primary]
      rfl
    · rw [holds.record]
      exact named
  unchanged := by
    intro n e e' found found' different
    obtain ⟨e₀, stays⟩ := (i.exists_get?_iff (i.low h found)).mp ⟨e', found'⟩
    obtain rfl := Registry.eq_of_get?_removeAll found stays
    obtain ⟨children, isExtended, noChildren, -⟩ := i.kept stays found'
    rw [isExtended, noChildren different, Entry.extend_nil]
  parent_grows := by
    intro n e e' found found' isParent
    obtain ⟨e₀, stays⟩ := (i.exists_get?_iff (i.low h found)).mp ⟨e', found'⟩
    obtain rfl := Registry.eq_of_get?_removeAll found stays
    obtain ⟨children, rfl, -, new⟩ := i.kept stays found'
    exact ⟨children, rfl, i.mem_children isParent stays found', new⟩
  ordered := i.ordered_eq h

theorem inserts_of_addAt (h : r.registry.Linked) {parent : Option RouteRef}
    (added : r.addAt parent d = .ok (next, id)) :
    Inserts r next d ((parent.bind r.lookup?).map (·.id)) id :=
  insertDefinition_inserts h (fun _ => get?_of_bind_lookup? h) (addAt_eq_ok added).2

/-- After any run, an addition is refused and leaves the router as it is, or it adds the whole
definition: under numbers of its own from the handle's on, in the place of the routes that bear
its names and of nothing else, with the other entries unchanged but for the parent's list of
children. -/
theorem adds_whole_or_nothing (options : RouterOptions) (lineage : Nat) (changes : List Change)
    (parent : Option RouteRef) (d : Definition) :
    let r := (new options lineage).run changes
    (∃ error, r.addAt parent d = .error error ∧ r.apply (Change.addAt parent d) = r) ∨
      ∃ next id, r.addAt parent d = .ok (next, id) ∧ r.apply (Change.addAt parent d) = next ∧
        (parent.bind r.lookup?).isSome = parent.isSome ∧
        Extends r next d ((parent.bind r.lookup?).map (·.id)) id := by
  intro r
  have h : r.registry.Linked := linked_run options lineage changes
  cases added : r.addAt parent d with
  | error error => exact Or.inl ⟨error, rfl, by rw [apply_addAt, added]⟩
  | ok result =>
    obtain ⟨next, id⟩ := result
    exact Or.inr ⟨next, id, rfl, by rw [apply_addAt, added], (addAt_eq_ok added).1,
      (inserts_of_addAt h added).extends h⟩

/-- The entries that an accepted addition makes are those of the sites of the definition, one for
each: made from the site's path under the pattern of the parent's entry, nested under this entry,
and, where some path on the way is an alias, an alias of the entry of the node's primary site. -/
theorem adds_each_site (options : RouterOptions) (lineage : Nat) (changes : List Change)
    (parent : Option RouteRef) (added :
      ((new options lineage).run changes).addAt parent d = .ok (next, id)) :
    let r := (new options lineage).run changes
    Set.BijOn (fun s => id + d.place s) {s | (d.at? s).isSome}
        {n | r.registry.get? n = none ∧ (next.registry.get? n).isSome} ∧
      ∀ s node raw, d.at? s = some (node, raw) → ∃ e,
        next.registry.get? (id + d.place s) = some e ∧
        e.parent = d.parentAt id ((parent.bind r.lookup?).map (·.id)) s ∧
        (∀ up, s.above? = some up → ∃ upper path, d.at? up = some (upper, path) ∧
          node ∈ upper.children) ∧
        Matcher.ofPattern (Path.resolve raw (next.registry.patternOf? e.parent))
          (r.options.patternOptions node) = .ok e.matcher ∧
        e.record = Record.ofDefinition node e.matcher.pattern ⟨next.registry.lineage, e.id⟩
          (next.registry.recordId? e.parent) (next.registry.recordId? e.aliasOf) ∧
        (e.isAlias = true ↔ s.primary ≠ s) ∧
        (s.primary ≠ s → e.aliasOf = some (id + d.place s.primary) ∧
          d.at? s.primary = some (node, node.path) ∧
          ∃ o, next.registry.get? (id + d.place s.primary) = some o ∧ o.isAlias = false ∧
            e.id ∈ o.aliases) := by
  intro r
  have h : r.registry.Linked := linked_run options lineage changes
  have i := inserts_of_addAt h added
  constructor
  · have new : {n | r.registry.get? n = none ∧ (next.registry.get? n).isSome} =
        {n | id ≤ n ∧ n < id + d.sites} := by
      have extended := i.extends h
      ext n
      rw [Set.mem_ofPred_eq, Set.mem_ofPred_eq, ← extended.nextId]
      constructor
      · rintro ⟨free, live⟩
        refine (Nat.lt_or_ge n id).elim (fun early => ?_) fun high =>
          ⟨high, (extended.consecutive n high).mp live⟩
        obtain ⟨e, stays⟩ := (i.exists_get?_iff early).mp (Option.isSome_iff_exists.mp live)
        rw [((Registry.get?_removeAll _ _ _ _).mp stays).1] at free
        exact absurd free (by simp)
      · rintro ⟨high, below⟩
        refine ⟨?_, (extended.consecutive n high).mpr below⟩
        rw [Option.eq_none_iff_forall_ne_some]
        intro e found
        exact absurd (i.low h found) (Nat.not_lt.mpr high)
    rw [new]
    exact d.bijOn_place id
  · intro s node raw valid
    obtain ⟨e, holds⟩ := i.holds valid
    have number := i.entered.linked.number holds.found
    refine ⟨e, holds.found, holds.under, fun up above => Definition.at?_above valid above, ?_, ?_,
      ?_, fun someAlias => ?_⟩
    · rw [holds.under]
      exact holds.compiled
    · rw [holds.under, holds.standsFor, number]
      exact holds.record
    · rw [Entry.isAlias, holds.standsFor, Definition.originalAt]
      split <;> simp_all
    · have isAlias : e.aliasOf = some (id + d.place s.primary) := by
        rw [holds.standsFor, Definition.originalAt, if_neg someAlias]
      obtain ⟨-, o, foundO, primary, listed⟩ := i.entered.linked.original holds.found isAlias
      refine ⟨isAlias, Definition.at?_primary valid, o, foundO, ?_, ?_⟩
      · rw [Entry.isAlias, primary]
        rfl
      · rw [number]
        exact listed

theorem adds_alias_of_nested : ∃ next,
    ((new {} 0).run []).addAt none
        { path := "/a", aliases := ["/b"], children := [{ path := "c" }] } = .ok (next, 0) ∧
      ∃ e, next.registry.get? 3 = some e ∧ e.parent = some 2 ∧ e.aliasOf = some 1 := by
  obtain ⟨a, compiledA, tokensA⟩ := @Matcher.exists_ofPattern "/a" [.literal "a"]
    (by cbv) (by decide) (show (Regex.ofSource? "^/a/?$").isSome = true by cbv)
  obtain ⟨ac, compiledAC, tokensAC⟩ := @Matcher.exists_ofPattern "/a/c" [.literal "a", .literal "c"]
    (by cbv) (by decide) (show (Regex.ofSource? "^/a/c/?$").isSome = true by cbv)
  obtain ⟨b, compiledB, tokensB⟩ := @Matcher.exists_ofPattern "/b" [.literal "b"]
    (by cbv) (by decide) (show (Regex.ofSource? "^/b/?$").isSome = true by cbv)
  obtain ⟨bc, compiledBC, tokensBC⟩ := @Matcher.exists_ofPattern "/b/c" [.literal "b", .literal "c"]
    (by cbv) (by decide) (show (Regex.ofSource? "^/b/c/?$").isSome = true by cbv)
  have patternA : a.pattern = "/a" := by
    rw [Matcher.pattern, tokensA, (Matcher.ofPattern_eq_ok compiledA).2.1]
    rfl
  have patternB : b.pattern = "/b" := by
    rw [Matcher.pattern, tokensB, (Matcher.ofPattern_eq_ok compiledB).2.1]
    rfl
  have nested : ∀ {m top : Matcher},
      Matcher.ofPattern (Path.resolve "c" (some top.pattern)) ⟨false, false⟩ = .ok m →
      Plan.routes {} [{ path := "c" }] (Plan.parentOf top) =
        .ok [.node { path := "c" } m [] []] := by
    intro m top compiled
    have own : RouterOptions.patternOptions {} { path := "c" } = ⟨false, false⟩ := rfl
    have relative : "c".toList.head? ≠ some '/' := by decide
    simp only [Plan.routes, Plan.route, Plan.variant, Plan.variants, Plan.checkParent, Plan.parentOf,
      Option.map_some, own, compiled, if_neg relative, Except.map, Plan.withAliases]
  have nestedA := @nested ac a (by rw [patternA]; exact compiledAC)
  have nestedB := @nested bc b (by rw [patternB]; exact compiledBC)
  have checked : Plan.sameKeys a.keys b.keys = true := by
    rw [Matcher.keys, Matcher.keys, tokensA, tokensB]
    rfl
  -- both paths of the route, each with the nested one under it
  have planned : ∃ plan, Plan.ofDefinition {}
      { path := "/a", aliases := ["/b"], children := [{ path := "c" }] } none = .ok plan ∧
        plan.names = [] := by
    have pathA : Path.resolve "/a" none = "/a" := by cbv
    have pathB : Path.resolve "/b" none = "/b" := by cbv
    have own : ∀ d : Definition, d.caseInsensitive = none → d.strict = none →
        RouterOptions.patternOptions {} d = ⟨false, false⟩ := by
      intro d noCase noStrict
      rw [RouterOptions.patternOptions, noCase, noStrict]
      rfl
    refine ⟨.node { path := "/a", aliases := ["/b"], children := [{ path := "c" }] } a
      [.node { path := "c" } ac [] []] [.node
        { path := "/a", aliases := ["/b"], children := [{ path := "c" }] } b
        [.node { path := "c" } bc [] []] []], ?_, rfl⟩
    simp only [Plan.ofDefinition, Plan.route, Plan.variant, Plan.variants, Plan.checkParent,
      Plan.checkAlias, Plan.matcher, Option.map_none, own, pathA, pathB, compiledA, compiledB,
      nestedA, nestedB, checked, Except.map, Plan.withAliases, if_true, Plan.names,
      Plan.namesOfAll, Option.toList_none, List.append_nil, Pattern.repeatedName?]
  obtain ⟨plan, planned, noNames⟩ := planned
  have added : ∃ next, ((new {} 0).run []).addAt none
      { path := "/a", aliases := ["/b"], children := [{ path := "c" }] } = .ok (next, 0) := by
    refine ⟨{ options := {}, registry := (Registry.empty 0).commit none none plan }, ?_⟩
    show (new {} 0).insertDefinition _ none = _
    rw [insertDefinition, Option.map_none]
    simp only [show (new {} 0).options = {} from rfl, planned, noNames, conflicts]
    rfl
  obtain ⟨next, added⟩ := added
  have sites := (adds_each_site {} 0 [] none added).2
  obtain ⟨e, found, under, -, -, -, -, standsFor⟩ := sites (.nested (some 0) 0 (.here none))
    { path := "c" } "c" rfl
  exact ⟨next, added, e, found, under, (standsFor (by decide)).1⟩

end Router
end Waymark
