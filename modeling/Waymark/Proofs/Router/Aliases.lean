/-
Aliases and the routes that they stand for.

An alias is the same route under another pattern: its record has the payloads of the
route's record, and its pattern declares the same params.  Planning compares the params
of an alias path with those of the primary path only.  What is nested under both is not
compared; there the params agree because a nested pattern has its parent's params and
those of its own path, and an absolute one is the same pattern in both places.

* `sameKeys_resolve` — a path under parents with the same params;
* `sameKeys_twins` — the same definition entered under parents with the same params;
* `sameKeys_primary` — the site of an alias and the primary site of its node;
* `mirrored_run` — after every run all aliases mirror the routes that they stand for.
-/
import Waymark.Proofs.Router.Addition
import Waymark.Proofs.Router.Generation

namespace Waymark

namespace Matcher

variable {m o : Matcher}

/-- Both patterns declare the same params. -/
def SameKeys (m o : Matcher) : Prop := ∀ key, key ∈ m.keys ↔ key ∈ o.keys

theorem SameKeys.symm (h : SameKeys m o) : SameKeys o m := fun key => (h key).symm

theorem SameKeys.trans {l : Matcher} (h : SameKeys m o) (h' : SameKeys o l) : SameKeys m l :=
  fun key => (h key).trans (h' key)

theorem sameKeys_of_checkAlias {primary alternative : Plan}
    (h : Plan.checkAlias primary alternative = .ok ()) :
    SameKeys primary.matcher alternative.matcher := by
  rw [Plan.checkAlias] at h
  split at h
  · rename_i same
    rw [Plan.sameKeys, Bool.and_eq_true, List.all_eq_true, List.all_eq_true] at same
    exact fun key => ⟨fun member => List.contains_iff_mem.mp (same.1 key member),
      fun member => List.contains_iff_mem.mp (same.2 key member)⟩
  · exact absurd h (by simp)

theorem keys_of_tokens_eq (h : m.tokens = o.tokens) : m.keys = o.keys := by
  rw [keys, keys, h]

theorem keys_of_tokens_append {own : List Token} (h : m.tokens = o.tokens ++ own) :
    m.keys = o.keys ++ (Pattern.params own).map Param.key := by
  rw [keys, keys, h, Pattern.params, List.filterMap_append, List.map_append]
  rfl

/-- A path under parents with the same params. -/
theorem sameKeys_resolve {p q : Matcher} (same : SameKeys p q) (registrableP : p.Registrable)
    (registrableQ : q.Registrable) {raw : String} {settings settings' : PatternOptions}
    (compiled : ofPattern (Path.resolve raw (some p.pattern)) settings = .ok m)
    (compiled' : ofPattern (Path.resolve raw (some q.pattern)) settings' = .ok o) :
    SameKeys m o := by
  by_cases absolute : raw.toList.head? = some '/'
  · -- the parent makes no difference
    rw [Path.resolve, if_pos absolute] at compiled compiled'
    have read := (ofPattern_eq_ok compiled).1
    rw [(ofPattern_eq_ok compiled').1] at read
    intro key
    rw [keys_of_tokens_eq (Except.ok.inj read)]
  · obtain ⟨own, readOwn, isTokens⟩ := registrableP.tokens_nested absolute compiled
    obtain ⟨own', readOwn', isTokens'⟩ := registrableQ.tokens_nested absolute compiled'
    rw [readOwn] at readOwn'
    obtain rfl := Except.ok.inj readOwn'
    intro key
    rw [keys_of_tokens_append isTokens, keys_of_tokens_append isTokens', List.mem_append,
      List.mem_append, same key]

end Matcher

namespace Registry

open Definition (rank)

variable {options : RouterOptions} {r : Registry} {d c node : Definition} {raw : String}
  {base base' p p' : Nat} {parent original original' : Option Nat} {e e' : Entry} {s : Site}

theorem Holds.registrable {id : Nat} (h : Holds r options node raw parent original id e) :
    e.matcher.Registrable := Matcher.registrable_of_resolve h.compiled

/-- What is nested under one of the paths has its entries. -/
theorem Sited.nested (h : Sited r options d base parent original) {choice : Option Nat}
    (chosen : d.path? choice = some raw) {index : Nat} (child : d.children[index]? = some c) :
    Sited r options c (base + rank choice * d.width + d.childPlace index)
      (some (base + rank choice * d.width))
      ((if choice = none then original else some (original.getD base)).map
        (· + d.childPlace index)) := by
  intro s node raw' valid
  obtain ⟨e, holds⟩ := h (.nested choice index s) node raw'
    (Definition.at?_nested.mpr ⟨⟨raw, chosen⟩, c, child, valid⟩)
  rw [Definition.parentAt_nested child, Definition.originalAt_nested child,
    Definition.place_nested child] at holds
  rw [← Nat.add_assoc, ← Nat.add_assoc] at holds
  exact ⟨e, holds⟩

/-- The entry of one of the paths. -/
theorem Sited.here (h : Sited r options d base parent original) {choice : Option Nat}
    (chosen : d.path? choice = some raw) :
    ∃ e, r.get? (base + rank choice * d.width) = some e ∧ e.matcher.Registrable ∧
      Matcher.ofPattern (Path.resolve raw (r.patternOf? parent)) (options.patternOptions d) =
        .ok e.matcher := by
  obtain ⟨e, holds⟩ := h (.here choice) d raw (Definition.at?_here.mpr ⟨chosen, rfl⟩)
  exact ⟨e, holds.found, holds.registrable, holds.compiled⟩

/-- The same definition entered twice, under parents with the same params: the entries of a site
have the same params too. -/
theorem sameKeys_twins {above above' : Entry} (foundP : r.get? p = some above)
    (foundP' : r.get? p' = some above') (registrable : above.matcher.Registrable)
    (registrable' : above'.matcher.Registrable) (same : above.matcher.SameKeys above'.matcher)
    (sited : Sited r options d base (some p) original)
    (sited' : Sited r options d base' (some p') original') (valid : d.at? s = some (node, raw))
    (found : r.get? (base + d.place s) = some e) (found' : r.get? (base' + d.place s) = some e') :
    e.matcher.SameKeys e'.matcher := by
  induction s generalizing d base base' p p' original original' above above' with
  | here choice =>
    obtain ⟨chosen, rfl⟩ := Definition.at?_here.mp valid
    obtain ⟨own, foundOwn, -, compiled⟩ := sited.here chosen
    obtain ⟨own', foundOwn', -, compiled'⟩ := sited'.here chosen
    obtain rfl : own = e := Option.some.inj (foundOwn.symm.trans found)
    obtain rfl : own' = e' := Option.some.inj (foundOwn'.symm.trans found')
    rw [patternOf?, Option.bind_some, foundP, Option.map_some] at compiled
    rw [patternOf?, Option.bind_some, foundP', Option.map_some] at compiled'
    exact Matcher.sameKeys_resolve same registrable registrable' compiled compiled'
  | nested choice index below ih =>
    obtain ⟨⟨path, chosen⟩, c, child, inside⟩ := Definition.at?_nested.mp valid
    obtain ⟨own, foundOwn, registrableOwn, compiled⟩ := sited.here chosen
    obtain ⟨own', foundOwn', registrableOwn', compiled'⟩ := sited'.here chosen
    rw [patternOf?, Option.bind_some, foundP, Option.map_some] at compiled
    rw [patternOf?, Option.bind_some, foundP', Option.map_some] at compiled'
    have sameOwn := Matcher.sameKeys_resolve same registrable registrable' compiled compiled'
    rw [Definition.place_nested child, ← Nat.add_assoc, ← Nat.add_assoc] at found found'
    exact ih foundOwn foundOwn' registrableOwn registrableOwn' sameOwn (sited.nested chosen child)
      (sited'.nested chosen child) inside found found'

/-- The matcher in the plan of a path is that of its entry. -/
theorem Sited.matcher_of_variant (sited : Sited r options d base parent original)
    {choice : Option Nat} (chosen : d.path? choice = some raw) {above : Option Plan.Parent}
    (pattern : r.patternOf? parent = above.map (·.path))
    {nested : Plan.Parent → Except DefinitionError (List Plan)} {plan : Plan}
    (planned : Plan.variant options d above nested raw = .ok plan)
    (found : r.get? (base + rank choice * d.width) = some e) : plan.matcher = e.matcher := by
  obtain ⟨own, foundOwn, -, compiled⟩ := sited.here chosen
  obtain rfl : own = e := Option.some.inj (foundOwn.symm.trans found)
  obtain ⟨m, children, compiledM, -, rfl⟩ := Plan.variant_eq_ok planned
  rw [pattern, compiledM] at compiled
  exact Except.ok.inj compiled

/-- Whichever path is chosen, its params were compared with those of the primary path. -/
theorem sameKeys_paths (sited : Sited r options d base parent original)
    {above : Option Plan.Parent} {plan : Plan}
    (pattern : r.patternOf? parent = above.map (·.path))
    (planned : Plan.route options d above = .ok plan) {choice : Option Nat}
    (chosen : d.path? choice = some raw) (found : r.get? (base + rank choice * d.width) = some e)
    (found' : r.get? (base + rank none * d.width) = some e') :
    e.matcher.SameKeys e'.matcher := by
  obtain ⟨m, children, aliases, -, primary, others⟩ := Plan.route_eq_ok planned
  cases choice with
  | none =>
    obtain rfl := Option.some.inj (found.symm.trans found')
    exact fun key => Iff.rfl
  | some place =>
    obtain ⟨planA, -, made, checked⟩ :=
      Plan.exists_of_mem_right others.flip (List.mem_of_getElem? chosen)
    have isPrimary : m = e'.matcher := sited.matcher_of_variant rfl pattern primary found'
    have isAlias : planA.matcher = e.matcher := sited.matcher_of_variant chosen pattern made found
    have same := Matcher.sameKeys_of_checkAlias checked
    rw [Plan.matcher, isPrimary, isAlias] at same
    exact same.symm

/-- In the tree of a plan the entry of a site has the params of the primary site of its node. -/
theorem sameKeys_primary {above : Option Plan.Parent} {plan : Plan}
    (pattern : r.patternOf? parent = above.map (·.path))
    (planned : Plan.route options d above = .ok plan)
    (sited : Sited r options d base parent original) (valid : d.at? s = some (node, raw))
    (found : r.get? (base + d.place s) = some e)
    (found' : r.get? (base + d.place s.primary) = some e') :
    e.matcher.SameKeys e'.matcher := by
  induction s generalizing d base parent original above plan e with
  | here choice =>
    obtain ⟨chosen, rfl⟩ := Definition.at?_here.mp valid
    exact sameKeys_paths sited pattern planned chosen found found'
  | nested choice index below ih =>
    obtain ⟨⟨path, chosen⟩, c, child, inside⟩ := Definition.at?_nested.mp valid
    obtain ⟨own, foundOwn, registrable, -⟩ := sited.here chosen
    have primaryPath : d.path? none = some d.path := rfl
    obtain ⟨first, foundFirst, registrableFirst, -⟩ := sited.here primaryPath
    have sameOwn := sameKeys_paths sited pattern planned chosen foundOwn foundFirst
    rw [Definition.place_nested child, ← Nat.add_assoc, ← Nat.add_assoc] at found
    rw [Site.primary, Definition.place_nested child, ← Nat.add_assoc, ← Nat.add_assoc] at found'
    have sitedChild := sited.nested primaryPath child
    -- first across to the tree under the primary path, then within it to the primary site
    obtain ⟨between, holds⟩ := sitedChild below node raw inside
    have across := sameKeys_twins foundOwn foundFirst registrable registrableFirst sameOwn
      (sited.nested chosen child) sitedChild inside found holds.found
    obtain ⟨m, children, -, -, primary, -⟩ := Plan.route_eq_ok planned
    have isFirst : m = first.matcher := sited.matcher_of_variant rfl pattern primary foundFirst
    obtain ⟨m', children', -, inner, same⟩ := Plan.variant_eq_ok primary
    cases same
    obtain ⟨planC, -, plannedC⟩ :=
      Plan.exists_of_mem_right (Plan.routes_eq_ok inner).flip (List.mem_of_getElem? child)
    refine across.trans (ih ?_ plannedC sitedChild inside holds.found found')
    rw [patternOf?, Option.bind_some, foundFirst, isFirst]
    rfl

end Registry

namespace Entry

/-- The entry is another one under a pattern of its own: it has the same payloads and its pattern
declares the same params. -/
structure Mirrors (e o : Entry) : Prop where
  name : e.record.name = o.record.name
  components : e.record.components = o.record.components
  metadata : e.record.metadata = o.record.metadata
  guards : e.record.guards = o.record.guards
  props : e.record.props = o.record.props
  redirect : e.record.redirect = o.record.redirect
  keys : ∀ key, key ∈ e.matcher.keys ↔ key ∈ o.matcher.keys

/-- Longer lists of children and aliases make no difference. -/
theorem mirrors_extend {e o : Entry} (h : e.Mirrors o) (children aliases more others : List Nat) :
    (e.extend children aliases).Mirrors (o.extend more others) :=
  ⟨h.name, h.components, h.metadata, h.guards, h.props, h.redirect, h.keys⟩

end Entry

namespace Registry

variable {r : Registry}

/-- Every alias stands for an entry that is there and is no alias, and mirrors it; and a name of
the alias leads to that entry. -/
def Mirrored (r : Registry) : Prop :=
  ∀ id e, r.get? id = some e → e.isAlias = true →
    ∃ original o, e.aliasOf = some original ∧ r.get? original = some o ∧ o.isAlias = false ∧
      e.Mirrors o ∧ ∀ name, e.record.name = some name → r.named? name = some o

/-- Every entry mirrors the one that it is an alias of. -/
def Mirroring (r : Registry) : Prop :=
  ∀ id e original o, r.get? id = some e → e.aliasOf = some original → r.get? original = some o →
    e.Mirrors o

theorem Mirroring.mirrored (h : Linked r) (mirroring : Mirroring r) : Mirrored r := by
  intro id e found isAlias
  obtain ⟨original, standsFor⟩ := Option.isSome_iff_exists.mp isAlias
  obtain ⟨-, o, foundO, primary, -⟩ := h.original found standsFor
  have notAlias : o.isAlias = false := by
    rw [Entry.isAlias, primary]
    rfl
  have mirrors := mirroring id e original o found standsFor foundO
  refine ⟨original, o, standsFor, foundO, notAlias, mirrors, fun name named => ?_⟩
  rw [mirrors.name] at named
  refine (named?_eq_some h).mpr ⟨?_, notAlias, named⟩
  rw [h.number foundO]
  exact foundO

/-- What stays after a removal mirrors what it did. -/
theorem mirroring_removeAll (mirroring : Mirroring r) (pending : List Nat) :
    Mirroring (r.removeAll pending) := by
  intro id e original o found standsFor foundO
  have before := get?_of_removeAll found
  have beforeO := get?_of_removeAll foundO
  exact mirroring id e original o before standsFor beforeO

end Registry

namespace Router

variable {r next : Router} {d : Definition}

/-- The parent of a definition that is added keeps its pattern. -/
theorem Inserts.patternOf?_parent {parent : Option Entry} {id : Nat}
    (i : Inserts r next d (parent.map (·.id)) id)
    (live : ∀ e, parent = some e → r.registry.get? e.id = some e) :
    next.registry.patternOf? (parent.map (·.id)) =
      (parent.map fun e => Plan.parentOf e.matcher).map (·.path) := by
  rw [i.entered.grown.patternOf? fun p isParent => i.parent_live isParent]
  cases parent with
  | none => rfl
  | some e =>
    obtain ⟨e', stays⟩ := i.parent_live rfl
    obtain rfl := Registry.eq_of_get?_removeAll (live e rfl) stays
    rw [Option.map_some, Registry.patternOf?, Option.bind_some, stays]
    rfl

/-- The new entries mirror each other, because they are those of the sites of the definition. -/
theorem mirroring_insertDefinition (h : r.registry.Linked) (mirroring : r.registry.Mirroring)
    {parent : Option Entry} (live : ∀ e, parent = some e → r.registry.get? e.id = some e) {id : Nat}
    (added : r.insertDefinition d parent = .ok (next, id)) : next.registry.Mirroring := by
  have i := insertDefinition_inserts h live added
  obtain ⟨plan, -, planned, -⟩ := insertDefinition_eq_ok added
  have linked := i.entered.linked
  have vacated := Registry.mirroring_removeAll mirroring (r.replaced d)
  intro n e original o found standsFor foundO
  obtain ⟨older, -⟩ := linked.original found standsFor
  rcases Nat.lt_or_ge n id with early | late
  · -- both entries were there before
    obtain ⟨e₀, found₀⟩ := (i.exists_get?_iff early).mp ⟨e, found⟩
    obtain ⟨o₀, foundO₀⟩ := (i.exists_get?_iff (older.trans early)).mp ⟨o, foundO⟩
    obtain ⟨children, rfl, -⟩ := i.kept found₀ found
    obtain ⟨more, rfl, -⟩ := i.kept foundO₀ foundO
    exact Entry.mirrors_extend (vacated n e₀ original o₀ found₀ standsFor foundO₀) ..
  · -- both entries are those of sites of the definition
    have below : n - id < d.sites := by
      have := linked.lt_nextId found
      rw [i.nextId] at this
      omega
    obtain ⟨s, node, raw, valid, isPlace⟩ := Definition.exists_place_eq below
    obtain rfl : n = id + d.place s := by omega
    obtain ⟨own, holds⟩ := i.holds valid
    obtain rfl : own = e := Option.some.inj (holds.found.symm.trans found)
    obtain ⟨first, holdsO⟩ := i.holds (Definition.at?_primary valid)
    have place : original = id + d.place s.primary := by
      have link := holds.standsFor
      rw [standsFor, Definition.originalAt] at link
      split at link
      · exact absurd link (by simp)
      · exact Option.some.inj link
    rw [place] at foundO
    obtain rfl : first = o := Option.some.inj (holdsO.found.symm.trans foundO)
    have sited := i.placed.sited
    rw [i.nextId_vacated] at sited
    have keys := Registry.sameKeys_primary (i.patternOf?_parent live)
      (Plan.ofDefinition_eq_ok planned).1 sited valid found foundO
    refine ⟨?_, ?_, ?_, ?_, ?_, ?_, keys⟩ <;> rw [holds.record, holdsO.record] <;> rfl

theorem mirroring_outcome (h : r.registry.Linked) (mirroring : r.registry.Mirroring)
    (outcome : Outcome r next) : next.registry.Mirroring := by
  cases outcome with
  | unchanged => exact mirroring
  | inserted live added => exact mirroring_insertDefinition h mirroring live added
  | removed id => exact Registry.mirroring_removeAll mirroring [id]
  | cleared =>
    exact fun id e _ _ found => absurd found (by simp [clear, Registry.clear, Registry.get?])

theorem mirroring_run (options : RouterOptions) (lineage : Nat) (changes : List Change) :
    ((new options lineage).run changes).registry.Mirroring := by
  refine run_induction (fun r => r.registry.Mirroring) ?_ mirroring_outcome changes
  exact fun id e _ _ found => absurd found (by simp [new, Registry.empty, Registry.get?])

/-- After every run every alias, also that of a nested route, stands for an entry that is there and
is no alias; both have the same payloads and declare the same params, and a name of theirs leads to
that entry. -/
theorem mirrored_run (options : RouterOptions) (lineage : Nat) (changes : List Change) :
    ((new options lineage).run changes).registry.Mirrored :=
  (mirroring_run options lineage changes).mirrored (linked_run options lineage changes)

end Router
end Waymark
