/-
The records of a location.

A location that is found has the records of a chain of entries, from one without a parent
down to the entry of the route.  It is the walk from this entry up through the parents, which
comes to an end because every parent is there and is older than what is nested under it.  The
metadata is that of the innermost record for each key.

* `climbs_iff` — the walk up from an entry ends, and at the ancestors of the entry;
* `chain_ancestors` — read backwards, the ancestors are a chain;
* `get?_mergeMetadata` — where merged metadata comes from;
* `resolve_chain` — what a location has, after any run.
-/
import Mathlib
import Waymark.Proofs.Matcher.Values
import Waymark.Proofs.Router.Removal

namespace Waymark

/-! ### Merged maps -/

namespace Dict

variable {κ α : Type} [DecidableEq κ]

theorem merge_concat (d other : Dict κ α) (pair : κ × α) :
    d.merge (other ++ [pair]) = (d.merge other).insert pair.1 pair.2 := by
  rw [merge, List.foldl_append]
  rfl

/-- What the second map has prevails. -/
theorem get?_merge (d other : Dict κ α) (key : κ) :
    (d.merge other).get? key = ((ofPairs other).get? key).or (d.get? key) := by
  induction other using List.reverseRecOn with
  | nil => rfl
  | append_singleton other pair ih =>
    rw [ofPairs, merge_concat, merge_concat]
    by_cases same : pair.1 = key
    · rw [← same, get?_insert_self, get?_insert_self, Option.some_or]
    · rw [get?_insert_of_ne _ _ same, get?_insert_of_ne _ _ same, ih, ofPairs]

/-- Pairs with keys of their own are a map as they are. -/
theorem ofPairs_of_nodup {d : Dict κ α} (distinct : (keys d).Nodup) : ofPairs d = d := by
  induction d using List.reverseRecOn with
  | nil => rfl
  | append_singleton d pair ih =>
    rw [keys, List.map_append, List.nodup_append] at distinct
    obtain ⟨distinct, -, apart⟩ := distinct
    have fresh : pair.1 ∉ keys d := fun member => apart _ member _ List.mem_cons_self rfl
    have own := ih distinct
    rw [ofPairs] at own ⊢
    rw [merge_concat, own, insert_of_not_mem fresh]

end Dict

/-- For each key, merged metadata has the value of the last record that has one. -/
theorem get?_mergeMetadata (matched : List Record) (key : String) :
    (mergeMetadata matched).get? key =
      matched.reverse.findSome? fun record => (Dict.ofPairs record.metadata).get? key := by
  induction matched using List.reverseRecOn with
  | nil => rfl
  | append_singleton matched record ih =>
    have step : mergeMetadata (matched ++ [record]) =
        (mergeMetadata matched).merge record.metadata := by
      rw [mergeMetadata, List.foldl_append]
      rfl
    rw [step, Dict.get?_merge, ih, List.reverse_append]
    show _ = List.findSome? _ (record :: matched.reverse)
    rw [List.findSome?_cons]
    cases (Dict.ofPairs record.metadata).get? key <;> rfl

theorem get?_mergeMetadata_of_nodup {matched : List Record}
    (distinct : ∀ record ∈ matched, (Dict.keys record.metadata).Nodup) (key : String) :
    (mergeMetadata matched).get? key =
      matched.reverse.findSome? fun record => record.metadata.get? key := by
  rw [get?_mergeMetadata]
  refine Regex.findSome?_congr fun record member => ?_
  rw [Dict.ofPairs_of_nodup (distinct record (List.mem_reverse.mp member))]

/-! ### Walks -/

namespace Registry

variable {r : Registry} {id : Nat} {e : Entry}

/-- The entries on the way up from a link, as far as the links lead; nothing bounds the way. -/
inductive Climbs (r : Registry) : Option Nat → List Entry → Prop
  | top : Climbs r none []
  | gone {id : Nat} : r.get? id = none → Climbs r (some id) []
  | step {id : Nat} {e : Entry} {above : List Entry} :
      r.get? id = some e → Climbs r e.parent above → Climbs r (some id) (e :: above)

/-- There is one way up at most. -/
theorem Climbs.unique {start : Option Nat} {walk other : List Entry} (h : Climbs r start walk)
    (h' : Climbs r start other) : walk = other := by
  induction h generalizing other with
  | top =>
    cases h'
    rfl
  | gone missing =>
    cases h' with
    | gone => rfl
    | step found => exact absurd (missing.symm.trans found) (by simp)
  | step found _ ih =>
    cases h' with
    | gone missing => exact absurd (missing.symm.trans found) (by simp)
    | step found' rest =>
      obtain rfl := Option.some.inj (found.symm.trans found')
      rw [ih rest]

theorem climbs_ancestors (h : Linked r) (found : r.get? id = some e) :
    Climbs r (some id) (r.ancestors id) := by
  induction id using Nat.strong_induction_on generalizing e with
  | _ id ih =>
    cases link : e.parent with
    | none =>
      rw [ancestors_of_root found link]
      exact .step found (link ▸ .top)
    | some parent =>
      obtain ⟨older, ⟨p, foundP⟩, -⟩ := h.parent found link
      rw [ancestors_of_child found link older]
      exact .step found (link ▸ ih parent older foundP)

/-- The way up from an entry ends, and what lies on it are the ancestors. -/
theorem climbs_iff (h : Linked r) (found : r.get? id = some e) (walk : List Entry) :
    Climbs r (some id) walk ↔ walk = r.ancestors id :=
  ⟨fun climbs => climbs.unique (climbs_ancestors h found),
    fun same => same ▸ climbs_ancestors h found⟩

/-! ### Chains -/

/-- Entries from one without a parent down to a last one, each nested under the one before. -/
structure Chain (r : Registry) (chain : List Entry) (leaf : Entry) : Prop where
  live : ∀ e ∈ chain, r.get? e.id = some e
  root : ∃ top, chain.head? = some top ∧ top.parent = none
  nested : chain.IsChain fun above below => below.parent = some above.id
  last : chain.getLast? = some leaf

theorem Chain.concat {chain : List Entry} {parent : Entry} (c : Chain r chain parent)
    (live : r.get? e.id = some e) (link : e.parent = some parent.id) :
    Chain r (chain ++ [e]) e where
  live := by
    intro e' member
    rcases List.mem_append.mp member with inChain | isLast
    · exact c.live e' inChain
    · rw [List.mem_singleton.mp isLast]
      exact live
  root := by
    obtain ⟨top, first, isRoot⟩ := c.root
    exact ⟨top, by rw [List.head?_append, first]; rfl, isRoot⟩
  nested := by
    refine List.isChain_append.mpr ⟨c.nested, List.isChain_singleton _, ?_⟩
    intro above isLast below isFirst
    rw [c.last, Option.mem_def] at isLast
    rw [List.head?_cons, Option.mem_def] at isFirst
    rw [← Option.some.inj isLast, ← Option.some.inj isFirst]
    exact link
  last := List.getLast?_concat

/-- Read backwards, the ancestors of an entry are a chain. -/
theorem chain_ancestors (h : Linked r) (found : r.get? id = some e) :
    Chain r (r.ancestors id).reverse e := by
  induction id using Nat.strong_induction_on generalizing e with
  | _ id ih =>
    have live : r.get? e.id = some e := by
      rw [h.number found]
      exact found
    cases link : e.parent with
    | none =>
      rw [ancestors_of_root found link, List.reverse_singleton]
      exact ⟨by simpa using live, ⟨e, rfl, link⟩, List.isChain_singleton _, rfl⟩
    | some parent =>
      obtain ⟨older, ⟨p, foundP⟩, -⟩ := h.parent found link
      rw [ancestors_of_child found link older, List.reverse_cons]
      exact (ih parent older foundP).concat live (by rw [h.number foundP]; exact link)

end Registry

namespace Router

variable {r : Router}

/-- The target, seen from the present location, leads to the entry. -/
def LeadsTo (r : Router) (current : Location) : Target → Entry → Prop
  | .path path, e => ∃ params, r.registry.find? (Path.normalize path) = some (e, params)
  | .named name _, e => r.registry.named? name = some e
  | .relative _, e => r.present current = .ok e

theorem locate_of_resolveEntry {e : Entry} {present given : Params} {location : Location}
    (h : r.resolveEntry e present given = .ok location) :
    ∃ path, location = r.locate e path (overlay e.matcher present given) := by
  rw [resolveEntry] at h
  split at h
  · exact absurd h (by simp)
  · exact ⟨_, (Except.ok.inj h).symm⟩

theorem require_eq_ok {name : String} {e : Entry} :
    r.require name = .ok e ↔ r.registry.named? name = some e := by
  rw [require]
  cases r.registry.named? name <;> simp

theorem live_of_present (h : r.registry.Linked) {current : Location} {e : Entry}
    (isPresent : r.present current = .ok e) : r.registry.get? e.id = some e := by
  rw [present] at isPresent
  split at isPresent
  · exact ((Registry.named?_eq_some h).mp (require_eq_ok.mp isPresent)).1
  · split at isPresent
    · rename_i found
      rw [← Except.ok.inj isPresent]
      exact (Registry.find?_eq_some h found).1
    · exact absurd isPresent (by simp)

theorem bind_eq_ok {ε α β : Type} {x : Except ε α} {f : α → Except ε β} {b : β}
    (h : (x >>= f) = .ok b) : ∃ a, x = .ok a ∧ f a = .ok b := by
  cases x with
  | error e => exact absurd h (by simp [bind, Except.bind])
  | ok a => exact ⟨a, rfl, h⟩

/-- A location that was found is that of the entry that the target leads to. -/
theorem exists_of_resolve (h : r.registry.Linked) {target : Target} {current location : Location}
    (resolved : r.resolve target current = .ok location)
    (found : ∀ path, target = .path path → location.isFound = true) :
    ∃ leaf path params, r.LeadsTo current target leaf ∧ r.registry.get? leaf.id = some leaf ∧
      location = r.locate leaf path params := by
  cases target with
  | path path =>
    have isFound := found path rfl
    obtain rfl := Except.ok.inj resolved
    rw [resolvePath] at isFound ⊢
    split at isFound
    · rename_i e params first
      exact ⟨e, _, params, ⟨params, first⟩, (Registry.find?_eq_some h first).1, rfl⟩
    · exact absurd isFound (by simp [Location.unmatched, Location.isFound])
  | named name params =>
    obtain ⟨e, required, resolved⟩ := bind_eq_ok resolved
    obtain ⟨path, isLocation⟩ := locate_of_resolveEntry resolved
    have named := require_eq_ok.mp required
    exact ⟨e, path, _, named, ((Registry.named?_eq_some h).mp named).1, isLocation⟩
  | relative params =>
    obtain ⟨e, isPresent, resolved⟩ := bind_eq_ok resolved
    obtain ⟨path, isLocation⟩ := locate_of_resolveEntry resolved
    exact ⟨e, path, _, isPresent, live_of_present h isPresent, isLocation⟩

/-- After any run, the walk up from every entry ends, and what is resolved has the records of a
chain of entries: from one without a parent, each nested under the one before, to the entry that
the target leads to, whose name is that of the location.  For each key the metadata has the value
of the innermost record that has one, and it has no other keys. -/
theorem resolve_chain (options : RouterOptions) (lineage : Nat) (changes : List Change) :
    let r := (new options lineage).run changes
    (∀ id e, r.registry.get? id = some e → ∀ walk,
      r.registry.Climbs (some id) walk ↔ walk = r.registry.ancestors id) ∧
    ∀ target current location, r.resolve target current = .ok location →
      (∀ path, target = .path path → location.isFound = true) →
      ∃ chain leaf, r.LeadsTo current target leaf ∧ r.registry.Chain chain leaf ∧
        location.matched = chain.map (·.record) ∧ location.matched ≠ [] ∧
        location.name = leaf.record.name ∧
        (∀ key, location.metadata.get? key = location.matched.reverse.findSome? fun record =>
          (Dict.ofPairs record.metadata).get? key) ∧
        ((∀ record ∈ location.matched, (Dict.keys record.metadata).Nodup) → ∀ key,
          location.metadata.get? key = location.matched.reverse.findSome? fun record =>
            record.metadata.get? key) := by
  intro r
  have h : r.registry.Linked := linked_run options lineage changes
  refine ⟨fun id e live => Registry.climbs_iff h live, ?_⟩
  intro target current location resolved found
  obtain ⟨leaf, path, params, leads, live, rfl⟩ := exists_of_resolve h resolved found
  have chain := Registry.chain_ancestors h live
  have matched : (r.locate leaf path params).matched =
      (r.registry.ancestors leaf.id).reverse.map (·.record) := List.map_reverse.symm
  refine ⟨_, leaf, leads, chain, matched, ?_, rfl, get?_mergeMetadata _,
    fun distinct => get?_mergeMetadata_of_nodup distinct⟩
  obtain ⟨top, first, -⟩ := chain.root
  rw [matched, ne_eq, List.map_eq_nil_iff]
  intro none
  rw [none] at first
  exact absurd first (by simp)

/-- The child replaces one value of its parent and leaves the other one. -/
theorem resolve_chain_nested : ∃ changes location chain leaf,
    changes = [.add { path := "", metadata := [("a", .null), ("b", .null)], children := [
      { path := ":c", name := some "n", metadata := [("b", .bool true)] }] }] ∧
    let r := (new {} 0).run changes
    r.resolve (.path "/x") .start = .ok location ∧ r.LeadsTo .start (.path "/x") leaf ∧
      r.registry.Chain chain leaf ∧ location.matched = chain.map (·.record) ∧
      location.matched.map (·.path) = ["/", "/:c"] ∧ leaf.record.name = some "n" ∧
      location.metadata.get? "a" = some .null ∧
      location.metadata.get? "b" = some (.bool true) := by
  obtain ⟨changes, isChanges, evaluated⟩ : ∃ changes, changes = [Change.add
      { path := "", metadata := [("a", .null), ("b", .null)], children := [
        { path := ":c", name := some "n", metadata := [("b", .bool true)] }] }] ∧
      (fun l : Location => (l.matched.map (·.path), l.name, l.metadata.get? "a",
        l.metadata.get? "b")) (((new {} 0).run changes).resolvePath "/x") =
      (["/", "/:c"], some "n", some .null, some (.bool true)) := ⟨_, rfl, by cbv⟩
  simp only [Prod.mk.injEq] at evaluated
  obtain ⟨paths, isName, valueA, valueB⟩ := evaluated
  obtain ⟨-, whole⟩ := resolve_chain {} 0 changes
  obtain ⟨chain, leaf, leads, isChain, matched, -, name, -⟩ :=
    whole (.path "/x") .start _ rfl fun _ _ => by
      rw [Location.isFound, ← List.isEmpty_map, paths]
      rfl
  exact ⟨changes, _, chain, leaf, isChanges, rfl, leads, isChain, matched, paths,
    name.symm.trans isName, valueA, valueB⟩

end Router
end Waymark
