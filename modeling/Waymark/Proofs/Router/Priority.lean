/-
Which route a path is resolved to.

The entry that is found is the first in the order that recognizes the path.  One that
outranks it may stand behind it, because the comparison of scores is not transitive.
When that can happen depends on the patterns in use; `Reversible` is the exact
condition for patterns of a given kind:

* `ranked_apply` — every change keeps the order descending;
* `finds_best_iff` — whatever is found is the most specific, and its specificity does
  not depend on the order of registration, unless patterns of the kind are reversible;
* `circle_of_reversible` — reversible patterns go through a circle of scores.
-/
import Waymark.Proofs.Matcher.Recognize
import Waymark.Proofs.Pattern.Printing
import Waymark.Proofs.Registry.Ranking
import Waymark.Proofs.Router.Run

namespace Waymark

namespace Matcher

theorem mem_foldl_place {other : Matcher} {ms all : List Matcher} :
    other ∈ ms.foldl (fun all m => m.place all) all ↔ other ∈ ms ∨ other ∈ all := by
  induction ms generalizing all with
  | nil => simp
  | cons m rest ih => rw [List.foldl_cons, ih, mem_place, List.mem_cons, or_left_comm, or_assoc]

theorem pairwise_foldl_place {kind : Matcher → Prop} {ms all : List Matcher}
    (kinds : ∀ m ∈ ms.foldl (fun all m => m.place all) all, kind m)
    (order : all.Pairwise (Descends kind)) :
    (ms.foldl (fun all m => m.place all) all).Pairwise (Descends kind) := by
  induction ms generalizing all with
  | nil => exact order
  | cons m rest ih =>
    rw [List.foldl_cons] at kinds ⊢
    have isKind : ∀ other, other = m ∨ other ∈ all → kind other := fun other member =>
      kinds other (mem_foldl_place.mpr (Or.inr (mem_place.mpr member)))
    exact ih kinds (pairwise_place (isKind m (Or.inl rfl)) (fun other member =>
      isKind other (Or.inr member)) order)

end Matcher

namespace Router

variable {kind : Matcher → Prop} {r : Router}

/-- A router that has come about by changes while all its matchers were of a kind. -/
inductive Within (kind : Matcher → Prop) : Router → Prop
  | new (options : RouterOptions) (lineage : Nat) : Within kind (new options lineage)
  | change {r : Router} (c : Change) : Within kind r →
      (∀ m ∈ (r.apply c).registry.matchers, kind m) → Within kind (r.apply c)

/-- The router finds the most specific entry: none that recognizes the path too outranks it. -/
def FindsBest (r : Router) : Prop :=
  ∀ path e params, r.registry.find? (Path.normalize path) = some (e, params) →
    ∀ o ∈ r.registry.inOrder, (o.matcher.recognize (Path.normalize path)).isSome →
      e.matcher.score.compare o.matcher.score ≠ .lt

/-- Both routers find entries of the same specificity, or both find none. -/
def FindsAlike (r r' : Router) : Prop :=
  ∀ path, (r.registry.find? (Path.normalize path)).map (·.1.matcher.score) =
    (r'.registry.find? (Path.normalize path)).map (·.1.matcher.score)

/-- Among registrable matchers of a kind the scores lead down from one to another that outranks it
and recognizes some path that it recognizes too. -/
def Reversible (kind : Matcher → Prop) : Prop :=
  ∃ m other path, Matcher.Descends (fun m => kind m ∧ m.Registrable) m other ∧
    m.score.compare other.score = .lt ∧
    (m.recognize (Path.normalize path)).isSome ∧ (other.recognize (Path.normalize path)).isSome

/-! ### What every run keeps -/

/-- The registry is linked, and its matchers are registrable, of the kind and descending. -/
structure Ranked (kind : Matcher → Prop) (r : Router) : Prop where
  linked : r.registry.Linked
  kinds : ∀ m ∈ r.registry.matchers, kind m ∧ m.Registrable
  order : r.registry.matchers.Pairwise (Matcher.Descends fun m => kind m ∧ m.Registrable)

theorem ranked_removeAll (h : Ranked kind r) (pending : List Nat) :
    Ranked kind { r with registry := r.registry.removeAll pending } where
  linked := Registry.linked_removeAll h.linked pending
  kinds := fun m member => h.kinds m ((Registry.matchers_removeAll_sublist _ _).subset member)
  order := h.order.sublist (Registry.matchers_removeAll_sublist _ _)

theorem ranked_insertDefinition (h : Ranked kind r) {d : Definition} {parent : Option Entry}
    (live : ∀ e, parent = some e → r.registry.get? e.id = some e) {next : Router} {id : Nat}
    (added : r.insertDefinition d parent = .ok (next, id))
    (kinds : ∀ m ∈ next.registry.matchers, kind m) : Ranked kind next := by
  have linked := (linked_insertDefinition h.linked live added).1
  obtain ⟨plan, replaced, planned, -, rfl, -⟩ := insertDefinition_eq_ok added
  have before := ranked_removeAll h replaced
  obtain ⟨-, entered⟩ := (Registry.registers_commit plan (r.registry.removeAll replaced)
    (parent.map (·.id)) none).matchers before.linked.filled
  have isKind : ∀ m ∈ ((r.registry.removeAll replaced).commit (parent.map (·.id)) none
      plan).matchers, kind m ∧ m.Registrable := by
    intro m member
    refine ⟨kinds m member, ?_⟩
    rw [entered] at member
    rcases Matcher.mem_foldl_place.mp member with new | old
    · obtain ⟨raw, above, settings, compiled⟩ :=
        Plan.ofPattern_of_mem_matchers (Plan.ofDefinition_eq_ok planned).1 new
      exact Matcher.registrable_of_resolve compiled
    · exact (before.kinds m old).2
  refine ⟨linked, isKind, ?_⟩
  show (Registry.matchers _).Pairwise _
  rw [entered] at isKind ⊢
  exact Matcher.pairwise_foldl_place isKind before.order

theorem ranked_clear (kind : Matcher → Prop) (r : Router) : Ranked kind r.clear where
  linked := Registry.linked_clear _
  kinds := fun _ member => absurd member List.not_mem_nil
  order := .nil

theorem ranked_apply (h : Ranked kind r) (c : Change)
    (kinds : ∀ m ∈ (r.apply c).registry.matchers, kind m) : Ranked kind (r.apply c) := by
  have outcome := outcome_apply h.linked c
  generalize r.apply c = next at outcome kinds
  cases outcome with
  | unchanged => exact h
  | inserted live added => exact ranked_insertDefinition h live added kinds
  | removed id => exact ranked_removeAll h [id]
  | cleared => exact ranked_clear kind r

theorem Within.ranked (h : Within kind r) : Ranked kind r := by
  induction h with
  | new options lineage => exact ranked_clear kind (Router.new options lineage)
  | change c _ kinds ih => exact ranked_apply ih c kinds

theorem mem_matchers {m : Matcher} :
    m ∈ r.registry.matchers ↔ ∃ e ∈ r.registry.inOrder, e.matcher = m := List.mem_map

/-- In a descending order only reversible patterns hide a better one. -/
theorem Ranked.findsBest (h : Ranked kind r) (irreversible : ¬ Reversible kind) : r.FindsBest := by
  intro path e params found o member recognized outranked
  have first := Registry.find?_eq_find?_matchers r.registry (Path.normalize path)
  rw [found, Option.map_some] at first
  obtain ⟨recognizes, before, after, split, others⟩ := List.find?_eq_some_iff_append.mp first.symm
  -- the search passed over what stands before, and the order leads down to what stands after
  have memberM : o.matcher ∈ before ++ e.matcher :: after :=
    split ▸ mem_matchers.mpr ⟨o, member, rfl⟩
  rcases List.mem_append.mp memberM with early | late
  · have unrecognized := others _ early
    rw [recognized] at unrecognized
    exact absurd unrecognized (by simp)
  · rcases List.mem_cons.mp late with same | later
    · rw [same, Score.compare_self] at outranked
      exact absurd outranked (by simp)
    · have order := h.order
      rw [split] at order
      have leads := (List.pairwise_cons.mp (List.pairwise_append.mp order).2.1).1 _ later
      exact irreversible ⟨_, _, path, leads, outranked, recognizes, recognized⟩

theorem FindsBest.findsAlike {r' : Router} (best : r.FindsBest) (best' : r'.FindsBest)
    (same : r.registry.matchers.Perm r'.registry.matchers) : FindsAlike r r' := by
  intro path
  -- whatever one of them finds, the other one holds as well
  have crossed : ∀ {a b : Router}, a.FindsBest → a.registry.matchers.Perm b.registry.matchers →
      ∀ {ea eb : Entry} {pa pb : Params},
      a.registry.find? (Path.normalize path) = some (ea, pa) →
      b.registry.find? (Path.normalize path) = some (eb, pb) →
      ea.matcher.score.compare eb.matcher.score ≠ .lt := by
    intro a b bestA perm ea eb pa pb foundA foundB
    have first := Registry.find?_eq_find?_matchers b.registry (Path.normalize path)
    rw [foundB, Option.map_some] at first
    obtain ⟨o, member, isMatcher⟩ := mem_matchers.mp
      (perm.mem_iff.mpr (List.mem_of_find?_eq_some first.symm))
    have recognized := List.find?_some first.symm
    rw [← isMatcher] at recognized ⊢
    exact bestA path ea pa foundA o member recognized
  have unfound : ∀ {a b : Router}, a.registry.matchers.Perm b.registry.matchers →
      a.registry.find? (Path.normalize path) = none →
      b.registry.find? (Path.normalize path) = none := by
    intro a b perm none
    have search := Registry.find?_eq_find?_matchers a.registry (Path.normalize path)
    rw [none, Option.map_none] at search
    rw [← Option.map_eq_none_iff, Registry.find?_eq_find?_matchers, List.find?_eq_none]
    intro m member
    exact List.find?_eq_none.mp search.symm m (perm.mem_iff.mpr member)
  cases found : r.registry.find? (Path.normalize path) with
  | none => rw [unfound same found]
  | some pair =>
    cases found' : r'.registry.find? (Path.normalize path) with
    | none =>
      rw [unfound same.symm found'] at found
      exact absurd found (by simp)
    | some pair' =>
      have notBelow := crossed best same found found'
      have notAbove := crossed best' same.symm found' found
      rw [← Score.compare_swap] at notAbove
      rw [Option.map_some, Option.map_some]
      refine congrArg some (Score.eq_of_compare_eq ?_)
      cases way : pair.1.matcher.score.compare pair'.1.matcher.score with
      | eq => rfl
      | lt => exact absurd way notBelow
      | gt =>
        rw [way] at notAbove
        exact absurd rfl notAbove

/-! ### Reversible patterns -/

/-- A route with a pattern and nothing else. -/
def leaf (raw : String) (settings : PatternOptions) : Definition where
  path := raw
  caseInsensitive := some settings.caseInsensitive
  strict := some settings.strict

/-- To add a route without nested ones and aliases is to register its matcher. -/
theorem apply_single {d : Definition} {m : Matcher} (r : Router) (noChildren : d.children = [])
    (noAliases : d.aliases = []) (free : ∀ name, d.name = some name → r.registry.named? name = none)
    (compiled : Matcher.ofPattern (Path.collapse d.path) (r.options.patternOptions d) = .ok m) :
    r.apply (.add d) = { r with registry := r.registry.register d m none none } := by
  have planned : Plan.ofDefinition r.options d none = .ok (.node d m [] []) := by
    have nested : Plan.routes r.options [] (Plan.parentOf m) = .ok [] := by rw [Plan.routes]
    have names : Pattern.repeatedName? [] d.name.toList = none := by
      cases d.name <;> simp [Pattern.repeatedName?]
    have route : Plan.route r.options d none = .ok (.node d m [] []) := by
      have path : Path.resolve d.path none = Path.collapse d.path := rfl
      rw [Plan.route_eq, noAliases, Plan.variant]
      simp only [Option.map_none, path, compiled, Plan.checkParent, noChildren, nested, Except.map,
        Plan.variants, Plan.withAliases]
    simp only [Plan.ofDefinition, route, Plan.names, Plan.namesOfAll, List.append_nil, names]
  have entered : r.registry.commit none none (.node d m [] []) =
      r.registry.register d m none none := by
    rw [Registry.commit, Registry.commitChildren, Registry.commitAliases]
  have spared : r.conflicts (Plan.node d m [] []).path none (Plan.node d m [] []).names =
      .ok [] := by
    rw [Plan.names, Plan.namesOfAll, List.append_nil]
    cases isName : d.name with
    | none => rfl
    | some name => simp only [Option.toList_some, conflicts, free name isName]
  rw [apply, add, insertDefinition]
  simp only [Option.map_none, planned, spared, List.foldl_nil, entered]

theorem apply_leaf {raw : String} {settings : PatternOptions} {m : Matcher} (r : Router)
    (compiled : Matcher.ofPattern (Path.collapse raw) settings = .ok m) :
    r.apply (.add (leaf raw settings)) =
      { r with registry := r.registry.register (leaf raw settings) m none none } :=
  apply_single r rfl rfl (fun _ named => absurd named (by simp [leaf])) compiled

/-- The router was built by adding routes with nothing on them, the last of which is tried first
and the first of which last. -/
structure Stacked (kind : Matcher → Prop) (r : Router) (top bottom : Matcher) : Prop where
  within : Within kind r
  bare : ∀ id e, r.registry.get? id = some e → e.dependents = []
  head : ∃ id, r.registry.ordered.head? = some id ∧ r.registry.matcherAt? id = some top
  last : ∃ id, r.registry.ordered.getLast? = some id ∧ r.registry.matcherAt? id = some bottom

theorem kinds_apply_leaf (h : Within kind r) {raw : String} {settings : PatternOptions}
    {m : Matcher} (compiled : Matcher.ofPattern (Path.collapse raw) settings = .ok m)
    (isKind : kind m) : Within kind (r.apply (.add (leaf raw settings))) := by
  refine .change _ h fun other member => ?_
  rw [apply_leaf r compiled] at member
  rw [Registry.matchers_register h.ranked.linked.filled] at member
  rcases Matcher.mem_place.mp member with rfl | old
  · exact isKind
  · exact (h.ranked.kinds other old).1

theorem bare_register {r : Registry} (bare : ∀ id e, r.get? id = some e → e.dependents = [])
    (d : Definition) (m : Matcher) :
    ∀ id e, (r.register d m none none).get? id = some e → e.dependents = [] := by
  intro id e found
  by_cases new : id = r.nextId
  · subst new
    rw [Registry.get?_register_self (by simp) (by simp)] at found
    rw [← Option.some.inj found]
    rfl
  · rw [Registry.get?_register_of_ne new] at found
    obtain ⟨e₀, found₀, rfl⟩ := Option.map_eq_some_iff.mp found
    have nothing := bare id e₀ found₀
    simpa [Entry.dependents, Registry.newChild, Registry.newAlias] using nothing

theorem stacked_single {m : Matcher} (isKind : kind m) (registrable : m.Registrable) :
    ∃ r, Stacked kind r m m := by
  obtain ⟨raw, settings, compiled⟩ := registrable
  refine ⟨_, kinds_apply_leaf (.new {} 0) compiled isKind, ?_, ?_, ?_⟩ <;>
    rw [apply_leaf _ compiled]
  · refine bare_register (fun _ _ found => absurd found ?_) _ m
    simp [Router.new, Registry.empty, Registry.get?]
  · exact ⟨_, rfl, Registry.matcherAt?_register_self⟩
  · exact ⟨_, rfl, Registry.matcherAt?_register_self⟩

theorem Stacked.push {top bottom m : Matcher} (h : Stacked kind r top bottom) (isKind : kind m)
    (registrable : m.Registrable) (above : top.score.atMost m.score = true) :
    ∃ r, Stacked kind r m bottom := by
  obtain ⟨raw, settings, compiled⟩ := registrable
  have linked := h.within.ranked.linked
  have known : ∀ id m', r.registry.matcherAt? id = some m' →
      (r.registry.register (leaf raw settings) m none none).matcherAt? id = some m' := by
    intro id m' found
    obtain ⟨e, foundE, -⟩ := Option.map_eq_some_iff.mp found
    rw [Registry.matcherAt?_register_of_ne (Nat.ne_of_lt (linked.lt_nextId foundE)), found]
  obtain ⟨high, isHead, foundH⟩ := h.head
  obtain ⟨low, isLast, foundL⟩ := h.last
  -- the present head is not above the new matcher, which therefore goes before it
  have order : (r.registry.register (leaf raw settings) m none none).ordered =
      r.registry.nextId :: r.registry.ordered := by
    obtain ⟨rest, split⟩ := List.head?_eq_some_iff.mp isHead
    obtain ⟨e, foundE, isTop⟩ := Option.map_eq_some_iff.mp foundH
    have before : r.registry.isAtMost m.score high = true := by
      rw [Registry.isAtMost, foundE, Option.any_some, isTop, above]
    rw [Registry.ordered_register, split, Registry.insertBefore, if_pos before]
  refine ⟨_, kinds_apply_leaf h.within compiled isKind, ?_, ?_, ?_⟩ <;> rw [apply_leaf _ compiled]
  · exact bare_register h.bare _ m
  · refine ⟨_, ?_, Registry.matcherAt?_register_self⟩
    show (Registry.ordered _).head? = _
    rw [order, List.head?_cons]
  · refine ⟨low, ?_, known low bottom foundL⟩
    show (Registry.ordered _).getLast? = _
    rw [order, List.getLast?_cons, isLast, Option.getD_some]

/-- Where the scores lead down step by step, adding routes from the last to the first puts them in
that order. -/
theorem exists_stacked {m other : Matcher}
    (leads : Matcher.Descends (fun m => kind m ∧ m.Registrable) m other) :
    ∃ r, Stacked kind r m other := by
  induction leads using Relation.TransGen.head_induction_on with
  | single step =>
    obtain ⟨⟨isKind, registrable⟩, ⟨isKindO, registrableO⟩, above⟩ := step
    obtain ⟨r, stacked⟩ := stacked_single isKindO registrableO
    exact stacked.push isKind registrable above
  | head step _ ih =>
    obtain ⟨⟨isKind, registrable⟩, -, above⟩ := step
    obtain ⟨r, stacked⟩ := ih
    exact stacked.push isKind registrable above

/-- Removals one after another are changes too. -/
theorem Within.removeAll (h : Within kind r) (ids : List Nat) :
    Within kind { r with registry := r.registry.removeAll ids } := by
  induction ids generalizing r with
  | nil =>
    rw [Registry.removeAll_nil]
    exact h
  | cons id rest ih =>
    have first : r.apply (.remove (.id id)) = { r with registry := r.registry.removeAll [id] } := by
      rw [apply, remove, lookup?]
      -- a number that is gone already makes no difference
      cases found : r.registry.get? id with
      | none => simp only [Registry.removeAll_cons_of_none found, Registry.removeAll_nil]
      | some e => simp only [Registry.remove, h.ranked.linked.number found]
    have step : Within kind { r with registry := r.registry.removeAll [id] } := by
      rw [← first]
      refine .change _ h fun m member => ?_
      rw [first] at member
      exact (h.ranked.kinds m ((Registry.matchers_removeAll_sublist _ _).subset member)).1
    rw [← List.singleton_append, Registry.removeAll_append]
    exact ih step

theorem doomed_of_bare {r : Registry} (bare : ∀ id e, r.get? id = some e → e.dependents = [])
    {pending : List Nat} {id : Nat} (doomed : r.Doomed pending id) : id ∈ pending := by
  obtain ⟨a, member, walk⟩ := doomed
  cases walk with
  | self _ => exact member
  | down found listed _ =>
    rw [bare _ _ found] at listed
    exact absurd listed List.not_mem_nil

/-- Once everything in between is gone, only the first and the last route are left. -/
theorem Stacked.ends {top bottom : Matcher} (h : Stacked kind r top bottom) (apart : top ≠ bottom) :
    ∃ r', Within kind r' ∧ r'.registry.matchers = [top, bottom] := by
  obtain ⟨high, isHead, foundH⟩ := h.head
  obtain ⟨low, isLast, foundL⟩ := h.last
  have linked := h.within.ranked.linked
  -- the first and the last route are different, so they stand apart in the order
  obtain ⟨middle, split⟩ : ∃ middle, r.registry.ordered = high :: (middle ++ [low]) := by
    obtain ⟨rest, split⟩ := List.head?_eq_some_iff.mp isHead
    rw [split] at isLast
    rcases List.eq_nil_or_concat rest with rfl | ⟨middle, last, rfl⟩
    · obtain rfl : high = low := Option.some.inj isLast
      rw [foundH] at foundL
      exact absurd (Option.some.inj foundL) apart
    · rw [List.concat_eq_append, List.getLast?_cons, List.getLast?_concat,
        Option.getD_some] at isLast
      obtain rfl := Option.some.inj isLast
      exact ⟨middle, by rw [split, List.concat_eq_append]⟩
  have distinct := linked.ordered_nodup
  rw [split, List.nodup_cons, List.nodup_append, List.mem_append, List.mem_singleton] at distinct
  obtain ⟨headApart, -, -, lastApart⟩ := distinct
  -- nothing hangs on any of the routes, so a removal takes its own number only
  have stays : ∀ id m, id ∉ middle → r.registry.matcherAt? id = some m →
      (r.registry.removeAll middle).matcherAt? id = some m := by
    intro id m spared found
    obtain ⟨e, foundE, rfl⟩ := Option.map_eq_some_iff.mp found
    have kept := (Registry.get?_removeAll _ middle id e).mpr
      ⟨foundE, fun doomed => spared (doomed_of_bare h.bare doomed)⟩
    rw [Registry.matcherAt?, kept, Option.map_some]
  have gone : ∀ id ∈ middle, (r.registry.removeAll middle).matcherAt? id = none := by
    intro id member
    rw [Registry.matcherAt?, Option.map_eq_none_iff, Option.eq_none_iff_forall_ne_some]
    intro e stays
    obtain ⟨found, spared⟩ := (Registry.get?_removeAll _ _ _ _).mp stays
    exact spared ⟨id, member, .self found⟩
  refine ⟨_, h.within.removeAll middle, ?_⟩
  show (r.registry.removeAll middle).matchers = _
  rw [Registry.matchers_removeAll, split, List.filterMap_cons_some (stays high top ?_ foundH),
    List.filterMap_append, List.filterMap_eq_nil_iff.mpr gone, List.filterMap_cons_some
    (stays low bottom ?_ foundL), List.filterMap_nil, List.nil_append]
  · intro member
    exact lastApart low member low (by simp) rfl
  · intro member
    exact headApart (Or.inl member)

/-! ### The exact condition -/

theorem find?_of_head {m : Matcher} {ms : List Matcher} (order : r.registry.matchers = m :: ms)
    {path : String} (recognized : (m.recognize path).isSome) :
    ∃ e params, r.registry.find? path = some (e, params) ∧ e.matcher = m := by
  have found := Registry.find?_eq_find?_matchers r.registry path
  rw [order, List.find?_cons, recognized] at found
  obtain ⟨⟨e, params⟩, isFound, isMatcher⟩ := Option.map_eq_some_iff.mp found
  exact ⟨e, params, isFound, isMatcher⟩

/-- The two ends of a reversal can be left in either order. -/
theorem Reversible.exists_orders (h : Reversible kind) : ∃ m other path r r',
    Within kind r ∧ r.registry.matchers = [m, other] ∧
    Within kind r' ∧ r'.registry.matchers = [other, m] ∧ m.score.compare other.score = .lt ∧
    (m.recognize (Path.normalize path)).isSome ∧
    (other.recognize (Path.normalize path)).isSome := by
  obtain ⟨m, other, path, leads, outranked, recognized, recognizedO⟩ := h
  have apart : m ≠ other := by
    rintro rfl
    rw [Score.compare_self] at outranked
    exact absurd outranked (by simp)
  obtain ⟨r, stacked⟩ := exists_stacked leads
  obtain ⟨r, within, order⟩ := stacked.ends apart
  -- without the steps in between, the higher one goes before the lower one
  obtain ⟨isKind, registrable⟩ := within.ranked.kinds m (by simp [order])
  obtain ⟨isKindO, registrableO⟩ := within.ranked.kinds other (by simp [order])
  obtain ⟨r', single⟩ := stacked_single isKind registrable
  obtain ⟨r', pushed⟩ := single.push isKindO registrableO (by rw [Score.atMost, outranked]; rfl)
  obtain ⟨r', within', order'⟩ := pushed.ends apart.symm
  exact ⟨m, other, path, r, r', within, order, within', order', outranked, recognized, recognizedO⟩

theorem Reversible.exists_hidden (h : Reversible kind) :
    ∃ r, Within kind r ∧ ¬ r.FindsBest := by
  obtain ⟨m, other, path, r, -, within, order, -, -, outranked, recognized, recognizedO⟩ :=
    h.exists_orders
  refine ⟨r, within, fun best => ?_⟩
  obtain ⟨e, params, found, rfl⟩ := find?_of_head order recognized
  obtain ⟨o, member, rfl⟩ := mem_matchers.mp (show other ∈ r.registry.matchers by simp [order])
  exact best path e params found o member recognizedO outranked

theorem Reversible.exists_not_findsAlike (h : Reversible kind) :
    ∃ r r', Within kind r ∧ Within kind r' ∧ r.registry.matchers.Perm r'.registry.matchers ∧
      ¬ FindsAlike r r' := by
  obtain ⟨m, other, path, r, r', within, order, within', order', outranked, recognized,
    recognizedO⟩ := h.exists_orders
  refine ⟨r, r', within, within', by rw [order, order']; exact .swap _ _ _, fun alike => ?_⟩
  obtain ⟨e, params, found, rfl⟩ := find?_of_head order recognized
  obtain ⟨e', params', found', rfl⟩ := find?_of_head order' recognizedO
  have same := alike path
  rw [found, found', Option.map_some, Option.map_some] at same
  rw [Option.some.inj same, Score.compare_self] at outranked
  exact absurd outranked (by simp)

/-- For matchers of any kind: every router finds the most specific entry if and only if patterns of
the kind are not reversible; and it is the same condition on which the specificity of what is found
does not depend on how the entries came to be there. -/
theorem finds_best_iff (kind : Matcher → Prop) :
    ((∀ r, Within kind r → r.FindsBest) ↔ ¬ Reversible kind) ∧
      ((∀ r r', Within kind r → Within kind r' → r.registry.matchers.Perm r'.registry.matchers →
        FindsAlike r r') ↔ ¬ Reversible kind) := by
  have best : ¬ Reversible kind → ∀ r, Within kind r → r.FindsBest :=
    fun irreversible r h => h.ranked.findsBest irreversible
  refine ⟨⟨fun law reversible => ?_, best⟩, ⟨fun law reversible => ?_, ?_⟩⟩
  · obtain ⟨r, within, errs⟩ := reversible.exists_hidden
    exact errs (law r within)
  · obtain ⟨r, r', within, within', same, differ⟩ := reversible.exists_not_findsAlike
    exact differ (law r r' within within' same)
  · intro irreversible r r' h h' same
    exact (best irreversible r h).findsAlike (best irreversible r' h') same

set_option maxRecDepth 2000 in
/-- The two longer of these patterns are a reversal, which the first one connects; a router with
all three resolves a path of theirs to the longest. -/
theorem exists_not_findsBest : ∃ r, Within (fun _ => True) r ∧ ¬ r.FindsBest := by
  obtain ⟨a, compiledA, tokensA⟩ := @Matcher.exists_ofPattern "/a" [.literal "a"]
    (by cbv) (by decide) (show (Regex.ofSource? "^/a/?$").isSome = true by cbv)
  obtain ⟨b, compiledB, tokensB⟩ := @Matcher.exists_ofPattern "/a/:b*"
    [.literal "a", .param ⟨"b", none, true, true⟩] (by cbv) (by decide)
    (show (Regex.ofSource? "^/a(?:/((?:[^/]+)(?:/(?:[^/]+))*))?/?$").isSome = true by cbv)
  obtain ⟨c, compiledC, tokensC⟩ := @Matcher.exists_ofPattern "/a/:b*/:c*"
    [.literal "a", .param ⟨"b", none, true, true⟩, .param ⟨"c", none, true, true⟩]
    (by cbv) (by decide)
    (show (Regex.ofSource? ("^/a(?:/((?:[^/]+)(?:/(?:[^/]+))*))?" ++
      "(?:/((?:[^/]+)(?:/(?:[^/]+))*))?/?$")).isSome = true by cbv)
  have routeA := Matcher.registrable_of_collapsed (by cbv) compiledA
  have routeB := Matcher.registrable_of_collapsed (by cbv) compiledB
  have routeC := Matcher.registrable_of_collapsed (by cbv) compiledC
  have normal : Path.normalize "/a/x" = "/a/x" := by cbv
  refine Reversible.exists_hidden ⟨c, b, "/a/x",
    .tail (.single ⟨⟨trivial, routeC⟩, ⟨trivial, routeA⟩, ?_⟩)
      ⟨⟨trivial, routeA⟩, ⟨trivial, routeB⟩, ?_⟩,
    ?_, ?_, ?_⟩
  · rw [Matcher.score, Matcher.score, tokensA, tokensC]
    decide
  · rw [Matcher.score, Matcher.score, tokensA, tokensB]
    decide
  · rw [Matcher.score, Matcher.score, tokensB, tokensC]
    decide
  · rw [normal]
    refine @Matcher.isSome_of_divides _ _ _ _ compiledC (by rw [tokensC]; decide)
      [[['a']], [['x']], []] ⟨?_, by simp [Path.IsSegment], [], ?_, rfl⟩
    · rw [tokensC]
      exact .cons ⟨['a'], rfl, rfl⟩ (.cons ⟨by simp, by simp⟩ (.cons ⟨by simp, by simp⟩ .nil))
    · simp [tokensC, Pattern.endings]
  · rw [normal]
    refine @Matcher.isSome_of_divides _ _ _ _ compiledB (by rw [tokensB]; decide)
      [[['a']], [['x']]] ⟨?_, by simp [Path.IsSegment], [], ?_, rfl⟩
    · rw [tokensB]
      exact .cons ⟨['a'], rfl, rfl⟩ (.cons ⟨by simp, by simp⟩ .nil)
    · simp [tokensB, Pattern.endings]

/-- Reversible patterns go through a circle of scores: one pattern, the same with one more segment
that scores below zero, and a longer one that is not higher at that segment. -/
theorem circle_of_reversible (h : Reversible kind) :
    ∃ a b c, kind a ∧ kind b ∧ kind c ∧ Score.Circle a.score b.score c.score := by
  obtain ⟨m, other, path, leads, outranked, -, -⟩ := h
  by_contra noCircle
  -- without a circle the comparison is transitive on the kind
  have atMost : kind m ∧ kind other ∧ other.score.atMost m.score = true := by
    clear outranked
    induction leads with
    | single step => exact ⟨step.1.1, step.2.1.1, step.2.2⟩
    | tail _ step ih =>
      obtain ⟨isKind, isKindB, first⟩ := ih
      obtain ⟨-, ⟨isKindC, -⟩, second⟩ := step
      refine ⟨isKind, isKindC, ?_⟩
      by_contra third
      rcases Score.exists_circle first second third with circle | circle | circle
      · exact noCircle ⟨_, _, _, isKind, isKindB, isKindC, circle⟩
      · exact noCircle ⟨_, _, _, isKindB, isKindC, isKind, circle⟩
      · exact noCircle ⟨_, _, _, isKindC, isKind, isKindB, circle⟩
  exact Score.atMost_iff.mp atMost.2.2 outranked

end Router
end Waymark
