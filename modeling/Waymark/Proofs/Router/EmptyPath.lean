/-
Children with an empty path.

A child with an empty path is compiled from the pattern of its parent.  Under the same options
that is the parent's matcher again, so the two recognize the same paths and have the same score.
The child is newer, so it is tried first, and no path leads to the parent as long as the child is
there.

* `ofPattern_resolve_empty` — a matcher is compiled again from an empty path under it;
* `Made` — the definition and the path that an entry was made from in a run, which every entry
  has (`exists_made`);
* `Made.compiled` — the matcher of an entry is compiled from them, whatever happens afterwards;
* `empty_child_hides_parent` — a child with an empty path and its parent, after any run.
-/
import Waymark.Proofs.Pattern.RoundTrip
import Waymark.Proofs.Registry.Newest
import Waymark.Proofs.Router.Frame

namespace Waymark

namespace Matcher

variable {m : Matcher} {raw : String} {above : Option String} {options : PatternOptions}

/-- The normal form of a pattern holds no repeated slashes. -/
theorem collapse_pattern (compiled : ofPattern (Path.resolve raw above) options = .ok m) :
    Path.collapse m.pattern = m.pattern := by
  have registrable := registrable_of_resolve compiled
  have isSlash := (ofPattern_eq_ok compiled).2.1
  have isText : m.pattern.toList = (Pattern.print m.tokens).toList ++
      (if m.trailingSlash then "/" else "").toList := String.toList_append
  rw [Path.collapse]
  refine String.toList_inj.mp ?_
  rw [String.toList_ofList, isText, Pattern.toList_print]
  split
  · rename_i root
    rw [root, List.isEmpty_nil, Bool.not_true, Bool.and_false, Bool.false_and] at isSlash
    rw [isSlash]
    rfl
  · rename_i nonempty
    have compact : ∀ s ∈ m.tokens.map (·.text.toList), Path.Compact s := by
      simpa using registrable.compact
    obtain ⟨token, tokens, isTokens⟩ := List.exists_cons_of_ne_nil nonempty
    rw [Path.collapseChars, if_pos (by rw [isTokens]; rfl), Path.collapseFrom_spell compact]
    congr 1
    split <;> rfl

/-- A matcher is compiled again from an empty path under its own pattern. -/
theorem ofPattern_resolve_empty (compiled : ofPattern (Path.resolve raw above) options = .ok m) :
    ofPattern (Path.resolve "" (some m.pattern)) options = .ok m := by
  have same : Path.resolve "" (some m.pattern) = Path.collapse m.pattern := rfl
  rw [same, collapse_pattern compiled]
  exact ofPattern_pattern compiled

end Matcher

namespace Router

variable {r next : Router} {options : RouterOptions} {lineage : Nat} {changes : List Change}
  {n : Nat} {node : Definition} {raw : String} {e : Entry}

/-! ### The order -/

theorem newestFirst_outcome (h : r.registry.Linked) (order : r.registry.NewestFirst)
    (outcome : Outcome r next) : next.registry.NewestFirst := by
  cases outcome with
  | unchanged => exact order
  | inserted live added =>
    obtain ⟨plan, replaced, -, -, rfl, -⟩ := insertDefinition_eq_ok added
    exact Registry.newestFirst_registers (Registry.registers_commit plan _ _ _)
      (Registry.linked_removeAll h replaced).filled (Registry.newestFirst_removeAll order replaced)
  | removed id => exact Registry.newestFirst_removeAll order [id]
  | cleared => exact .nil

theorem newestFirst_run (options : RouterOptions) (lineage : Nat) (changes : List Change) :
    ((new options lineage).run changes).registry.NewestFirst :=
  run_induction (fun r => r.registry.NewestFirst) .nil newestFirst_outcome changes

/-! ### What entries are made from -/

theorem options_outcome (h : r.registry.Linked) (outcome : Outcome r next) :
    next.options = r.options := by
  cases outcome with
  | unchanged => rfl
  | inserted live added => exact (insertDefinition_inserts h live added).options
  | removed id => rfl
  | cleared => rfl

theorem options_run (options : RouterOptions) (lineage : Nat) (changes : List Change) :
    ((new options lineage).run changes).options = options :=
  run_induction (fun r => r.options = options) rfl
    (fun h same outcome => (options_outcome h outcome).trans same) changes

/-- In a run, the entry with a number was made for a path of a node of an added definition, which
is its primary path or one of its aliases. -/
def Made (options : RouterOptions) (lineage : Nat) (changes : List Change) (n : Nat)
    (node : Definition) (raw : String) : Prop :=
  ∃ before parent d after next id s, changes = before ++ Change.addAt parent d :: after ∧
    ((new options lineage).run before).addAt parent d = .ok (next, id) ∧
    d.at? s = some (node, raw) ∧ n = id + d.place s

theorem Made.concat (made : Made options lineage changes n node raw) (change : Change) :
    Made options lineage (changes ++ [change]) n node raw := by
  obtain ⟨before, parent, d, after, next, id, s, rfl, added, valid, isPlace⟩ := made
  exact ⟨before, parent, d, after ++ [change], next, id, s,
    by rw [List.append_assoc, List.cons_append], added, valid, isPlace⟩

/-- Only additions give out numbers. -/
theorem exists_addAt_or (r : Router) (change : Change) :
    (∃ parent d, change = Change.addAt parent d) ∨
      (r.apply change).registry.nextId = r.registry.nextId := by
  cases change with
  | add d => exact Or.inl ⟨none, d, rfl⟩
  | addUnder parent d => exact Or.inl ⟨some parent, d, rfl⟩
  | remove target => exact Or.inr (nextId_remove r target)
  | dispose handle => exact Or.inr (nextId_remove r (.id handle))
  | clear => exact Or.inr rfl

/-- Every entry was made from something. -/
theorem exists_made (options : RouterOptions) (lineage : Nat) (changes : List Change)
    (found : ((new options lineage).run changes).registry.get? n = some e) :
    ∃ node raw, Made options lineage changes n node raw := by
  induction changes using List.reverseRecOn generalizing e with
  | nil => exact absurd found (by simp [run, new, Registry.empty, Registry.get?])
  | append_singleton changes change ih =>
    have h := linked_run options lineage changes
    rw [run_concat] at found
    have bound := (linked_apply h change).1.lt_nextId found
    rcases Nat.lt_or_ge n ((new options lineage).run changes).registry.nextId with low | high
    · obtain ⟨e₀, -, -, found₀, -⟩ := (later_apply h change).kept found low
      obtain ⟨node, raw, made⟩ := ih found₀
      exact ⟨node, raw, made.concat change⟩
    rcases exists_addAt_or ((new options lineage).run changes) change with ⟨parent, d, rfl⟩ | same
    · rw [apply_addAt] at found bound
      cases added : ((new options lineage).run changes).addAt parent d with
      | error error =>
        simp only [added] at bound
        exact absurd bound (Nat.not_lt.mpr high)
      | ok result =>
        obtain ⟨next, id⟩ := result
        simp only [added] at found
        have i := inserts_of_addAt h added
        obtain ⟨s, node, raw, valid, isPlace⟩ := i.exists_site found (i.first ▸ high)
        exact ⟨node, raw, changes, parent, d, [], next, id, s, rfl, added, valid, isPlace⟩
    · rw [same] at bound
      exact absurd bound (Nat.not_lt.mpr high)

/-- The matcher of an entry is compiled from the path that it was made for, under the pattern of
its parent. -/
theorem Made.compiled (made : Made options lineage changes n node raw)
    (found : ((new options lineage).run changes).registry.get? n = some e) :
    Matcher.ofPattern
        (Path.resolve raw (((new options lineage).run changes).registry.patternOf? e.parent))
        (options.patternOptions node) = .ok e.matcher := by
  obtain ⟨before, parent, d, after, next, id, s, rfl, added, valid, rfl⟩ := made
  have h := linked_run options lineage before
  have i := inserts_of_addAt h added
  have later : ((new options lineage).run (before ++ Change.addAt parent d :: after)) =
      next.run after := by
    rw [run_append]
    show (((new options lineage).run before).apply (Change.addAt parent d)).run after = _
    rw [apply_addAt, added]
  rw [later] at found ⊢
  obtain ⟨own, holds⟩ := i.holds valid
  have linked := i.entered.linked
  have stays := later_run linked after
  have low := linked.lt_nextId holds.found
  obtain ⟨own', children, aliases, found', rfl⟩ := stays.kept found low
  obtain rfl := Option.some.inj (found'.symm.trans holds.found)
  have compiled := holds.compiled
  rw [options_run] at compiled
  -- the parent has the pattern that it had when the entry was made
  have above : (next.run after).registry.patternOf? own'.parent =
      next.registry.patternOf? own'.parent := by
    cases link : own'.parent with
    | none => rfl
    | some p =>
      obtain ⟨older, live, -⟩ := (linked_run_of_linked linked after).parent found link
      have same := stays.matcherAt? live (older.trans low)
      rw [Registry.matcherAt?, Registry.matcherAt?] at same
      simpa only [Registry.patternOf?, Option.bind_some, Option.map_map, Function.comp_def] using
        congrArg (Option.map Matcher.pattern) same
  rw [Entry.extend_parent, above, holds.under]
  exact compiled

/-! ### Children with an empty path -/

/-- After any run, take an entry that was made for an empty path under another one that is there,
and let the definitions that the two were made from have the same effective options.  Then the
child comes before the parent, it recognizes the same paths with the same params, and no path leads
to the parent. -/
theorem empty_child_hides_parent (options : RouterOptions) (lineage : Nat) (changes : List Change) :
    let r := (new options lineage).run changes
    ∀ n p child parent node above raw,
      r.registry.get? n = some child → r.registry.get? p = some parent → child.parent = some p →
      Made options lineage changes n node "" → Made options lineage changes p above raw →
      options.patternOptions node = options.patternOptions above →
        [n, p].Sublist r.registry.ordered ∧
        (∀ path, child.matcher.recognize path = parent.matcher.recognize path) ∧
        ∀ path, (r.resolvePath path).leaf? ≠ some parent.record := by
  intro r n p child parent node above raw foundC foundP link madeC madeP sameOptions
  have h : r.registry.Linked := linked_run options lineage changes
  have order : r.registry.NewestFirst := newestFirst_run options lineage changes
  have compiledC := madeC.compiled foundC
  have compiledP := Matcher.ofPattern_resolve_empty (madeP.compiled foundP)
  have pattern : r.registry.patternOf? child.parent = some parent.matcher.pattern := by
    rw [link, Registry.patternOf?, Option.bind_some, foundP, Option.map_some]
  have same : child.matcher = parent.matcher := by
    rw [pattern, sameOptions, compiledP] at compiledC
    exact (Except.ok.inj compiledC).symm
  have atC : r.registry.matcherAt? n = some child.matcher := by
    rw [Registry.matcherAt?, foundC, Option.map_some]
  have atP : r.registry.matcherAt? p = some parent.matcher := by
    rw [Registry.matcherAt?, foundP, Option.map_some]
  have yields : r.registry.Yields p n := by
    refine ⟨(h.parent foundC link).1, _, _, atP, atC, ?_⟩
    rw [same]
    exact Score.atMost_self _
  refine ⟨order.sublist (h.mem_ordered.mpr ⟨_, foundP⟩) (h.mem_ordered.mpr ⟨_, foundC⟩) yields,
    fun path => by rw [same], fun path isLeaf => ?_⟩
  obtain ⟨e, params, leads, isRecord⟩ := exists_leads (within_run options lineage changes) isLeaf
  have number : e.id = p := by
    have : e.id = parent.id := congrArg (fun record => record.id.number) isRecord
    rw [this, h.number foundP]
  have isParent : e = parent := by
    have live := leads.live
    rw [number, foundP] at live
    exact (Option.some.inj live).symm
  have recognized : (child.matcher.recognize (Path.normalize path)).isSome := by
    rw [same, ← isParent, leads.recognized]
    rfl
  exact order.find?_ne h yields atC recognized params e leads.first number

/-- The paths of the two end with a slash, on which both insist. -/
theorem empty_child_hides_strict_parent : ∃ child parent,
    let r := (new {} 0).run [.add { path := "/:a/", strict := some true, children := [
      { path := "", name := some "n", strict := some true }] }]
    r.registry.get? 1 = some child ∧ r.registry.get? 0 = some parent ∧
      child.record.name = some "n" ∧ [1, 0].Sublist r.registry.ordered ∧
      (∀ path, child.matcher.recognize path = parent.matcher.recognize path) ∧
      (r.resolvePath "/x/").isFound = true ∧ (r.resolvePath "/x/").leaf? ≠ some parent.record := by
  obtain ⟨c, isChild⟩ : ∃ c : Definition,
      c = { path := "", name := some "n", strict := some true } := ⟨_, rfl⟩
  obtain ⟨d, isDefinition⟩ : ∃ d : Definition,
      d = { path := "/:a/", strict := some true, children := [c] } := ⟨_, rfl⟩
  rw [← isChild, ← isDefinition]
  have accepted : (((new {} 0).run []).addAt none d).isOk = true := by
    rw [isDefinition, isChild]
    cbv
  have isFound : (((new {} 0).run [.add d]).resolvePath "/x/").isFound = true := by
    rw [isDefinition, isChild]
    cbv
  obtain ⟨⟨next, id⟩, added⟩ := Pattern.exists_of_isOk accepted
  have isNext : (new {} 0).run [.add d] = next := by
    show ((new {} 0).run []).apply (Change.addAt none d) = next
    rw [apply_addAt, added]
  obtain ⟨_, _, _, _, _, isId⟩ := insertDefinition_eq_ok (addAt_eq_ok added).2
  obtain rfl : id = 0 := isId
  have parentAt : d.at? (.here none) = some (d, "/:a/") := by
    rw [isDefinition]
    rfl
  have childAt : d.at? (.nested none 0 (.here none)) = some (c, "") := by
    rw [isDefinition, isChild]
    rfl
  have places : d.place (.here none) = 0 ∧ d.place (.nested none 0 (.here none)) = 1 := by
    rw [isDefinition]
    simp [Definition.place, Definition.rank, Definition.childPlace, Definition.sitesOfAll]
  have sites := (adds_each_site {} 0 [] none added).2
  obtain ⟨parent, foundP, -⟩ := sites _ _ _ parentAt
  obtain ⟨child, foundC, link, -, -, isRecord, -⟩ := sites _ _ _ childAt
  rw [← isNext, places.1] at foundP
  rw [← isNext, places.2] at foundC
  have made : ∀ {s node raw}, d.at? s = some (node, raw) →
      Made {} 0 [.add d] (0 + d.place s) node raw :=
    fun valid => ⟨[], none, d, [], next, 0, _, rfl, added, valid, rfl⟩
  have madeP := made parentAt
  have madeC := made childAt
  rw [places.1] at madeP
  rw [places.2] at madeC
  have under : child.parent = some 0 := by
    rw [link, Definition.parentAt]
    exact congrArg (fun place => some (0 + place)) places.1
  obtain ⟨before, same, hidden⟩ := empty_child_hides_parent {} 0 [.add d] 1 0 child parent c d "/:a/"
    foundC foundP under madeC madeP (by rw [isDefinition, isChild]; rfl)
  exact ⟨child, parent, foundC, foundP, by rw [isRecord, isChild]; rfl, before, same, isFound,
    hidden "/x/"⟩

end Router
end Waymark
