/-
Relative targets.

A relative target without params leads back to the present route: the route is looked up by
its name or, without one, by the path, and its path is built again from the present params.
An alias has the name of the route that it stands for, so the target leads to that route.

* `exists_leads` — a location that was found is that of an entry;
* `present_of_primary`, `present_of_named` — the present entry of such a location;
* `resolve_relative` — a route that is no alias leads back to itself;
* `resolve_relative_alias` — an alias leads to the route that it stands for, if this can be built
  from params with an empty value; and to a path of the route, if this admits what is written.
-/
import Waymark.Proofs.Matcher.Rebuild
import Waymark.Proofs.Router.Aliases
import Waymark.Proofs.Router.Order

namespace Waymark

/-- The constraints in a pattern are enclosed in their groups. -/
def Pattern.Enclosed (pattern : String) : Prop :=
  ∀ tokens, tokenize pattern = .ok tokens → ∀ p ∈ params tokens, p.Enclosed

/-- A pattern with a single param. -/
theorem Pattern.enclosed_of_params_eq {pattern constraint : String} {tokens : List Token}
    {p : Param} (tokenized : tokenize pattern = .ok tokens) (single : params tokens = [p])
    (isConstraint : p.constraint = some constraint) (enclosed : Regex.Enclosed constraint) :
    Enclosed pattern := by
  intro read isRead q member other isOther
  obtain rfl := Except.ok.inj (tokenized.symm.trans isRead)
  rw [single] at member
  obtain rfl := List.mem_singleton.mp member
  rwa [← Option.some.inj (isConstraint.symm.trans isOther)]

theorem Dict.merge_nil {κ α : Type} [DecidableEq κ] (d : Dict κ α) : Dict.merge d [] = d := rfl

namespace Router

variable {r : Router} {e o : Entry} {leaf : Record} {name path : String} {params : Params}
  {location next : Location}

/-! ### Locations that were found -/

/-- The entry comes first among its ancestors. -/
theorem ancestors_eq_cons {r : Registry} {id : Nat} (found : r.get? id = some e) :
    ∃ above, r.ancestors id = e :: above := by
  rw [Registry.ancestors, found]
  simp only
  split
  · exact ⟨[], rfl⟩
  · split
    · exact ⟨_, rfl⟩
    · exact ⟨[], rfl⟩

theorem leaf?_locate (live : r.registry.get? e.id = some e) (path : String) (params : Params) :
    (r.locate e path params).leaf? = some e.record := by
  obtain ⟨above, isAncestors⟩ := ancestors_eq_cons live
  rw [locate, Location.leaf?]
  simp only [isAncestors, List.map_cons, List.getLast?_reverse, List.head?_cons]

/-- The path leads to the entry: this is the first one that recognizes it. -/
structure Leads (r : Router) (path : String) (e : Entry) (params : Params) : Prop where
  live : r.registry.get? e.id = some e
  registrable : e.matcher.Registrable
  labelled : e.record.path = e.matcher.pattern
  recognized : e.matcher.recognize (Path.normalize path) = some params
  first : r.registry.find? (Path.normalize path) = some (e, params)
  location : r.resolvePath path = r.locate e (Path.normalize path) params

/-- A path that is found leads to the entry of the record. -/
theorem exists_leads {kind : Matcher → Prop} (within : Within kind r)
    (found : (r.resolvePath path).leaf? = some leaf) :
    ∃ e params, r.Leads path e params ∧ e.record = leaf := by
  have linked := within.ranked.linked
  cases isFound : r.registry.find? (Path.normalize path) with
  | none =>
    rw [resolvePath] at found
    simp only [isFound] at found
    exact absurd found (by simp [Location.unmatched, Location.leaf?])
  | some pair =>
    obtain ⟨e, params⟩ := pair
    have isLocation : r.resolvePath path = r.locate e (Path.normalize path) params := by
      rw [resolvePath]
      simp only [isFound]
    obtain ⟨live, recognized⟩ := Registry.find?_eq_some linked isFound
    have member := (Registry.mem_inOrder linked).mpr live
    rw [isLocation, leaf?_locate live] at found
    exact ⟨e, params, ⟨live, (within.ranked.kinds _ (mem_matchers.mpr ⟨e, member, rfl⟩)).2,
      labelled_within within e.id e live, recognized, isFound, isLocation⟩, Option.some.inj found⟩

/-- The record of an alias stands for another one, and only such a record does. -/
theorem isAlias_record (linked : r.registry.Linked) (live : r.registry.get? e.id = some e) :
    e.record.isAlias = e.isAlias := by
  rw [Record.isAlias, Entry.isAlias, (linked.recorded live).2, Registry.recordId?]
  cases isAlias : e.aliasOf with
  | none => rfl
  | some original =>
    obtain ⟨-, o, foundO, -⟩ := linked.original live isAlias
    rw [Option.bind_some, foundO]
    rfl

namespace Leads

/-- The params of the location are given values that the path can be built from. -/
theorem given (h : r.Leads path e params) (enclosed : Pattern.Enclosed e.record.path) :
    ∀ p ∈ Pattern.params e.matcher.tokens,
      p.key.Given (p.name ∈ e.matcher.emptyCapable) (params.get? p.name) := by
  rw [h.labelled] at enclosed
  obtain ⟨raw, settings, compiled⟩ := id h.registrable
  exact Matcher.given_of_recognize compiled (enclosed _ h.registrable.tokenize_pattern)
    (Path.hasDoubleSlash_normalize path) h.recognized

/-! ### The present entry -/

/-- The present entry of a route with a name has this name. -/
theorem present_of_named (h : r.Leads path e params) (isName : e.record.name = some name)
    (named : r.registry.named? name = some o) : r.present (r.resolvePath path) = .ok o := by
  rw [h.location, present]
  simp only [locate, isName, require, named]

/-- The present entry of a route that is no alias is the entry of the route. -/
theorem present_of_primary (h : r.Leads path e params) (linked : r.registry.Linked)
    (primary : e.isAlias = false) : r.present (r.resolvePath path) = .ok e := by
  cases isName : e.record.name with
  | none =>
    rw [h.location, present]
    simp only [locate, isName, Path.normalize_normalize, h.first]
  | some name =>
    exact h.present_of_named isName
      ((Registry.named?_eq_some linked).mpr ⟨h.live, primary, isName⟩)

end Leads

/-- Params that were all declared stay as they are. -/
theorem overlay_nil {m : Matcher} (declared : ∀ pair ∈ params, m.declares pair.1 = true) :
    overlay m params [] = params := by
  rw [overlay, List.filter_nil, Dict.merge_nil, List.filter_eq_self]
  exact declared

/-- The relative target without params leads to the present entry, if its path can be built from
the present params. -/
theorem resolve_relative_eq_ok (isPresent : r.present location = .ok e)
    (declared : ∀ pair ∈ location.params, e.matcher.declares pair.1 = true) :
    r.resolve (.relative []) location = .ok next ↔
      ∃ path, e.matcher.build location.params = .ok path ∧
        next = r.locate e path location.params := by
  rw [resolve, isPresent]
  show r.resolveEntry e location.params [] = _ ↔ _
  rw [resolveEntry, overlay_nil declared]
  cases e.matcher.build location.params with
  | error error => simp
  | ok path => simp [eq_comm]

/-! ### Routes that are no aliases -/

/-- After any run, where a path leads to a route that is no alias, the relative target without
params leads to the same route with the same params; provided that the constraints in its pattern
are enclosed, as they are if each is an expression without capturing groups. -/
theorem resolve_relative (options : RouterOptions) (lineage : Nat) (changes : List Change)
    (found : (((new options lineage).run changes).resolvePath path).leaf? = some leaf)
    (primary : leaf.isAlias = false) (enclosed : Pattern.Enclosed leaf.path) :
    ∃ location, ((new options lineage).run changes).resolve (.relative [])
        (((new options lineage).run changes).resolvePath path) = .ok location ∧
      location.name = (((new options lineage).run changes).resolvePath path).name ∧
      location.params = (((new options lineage).run changes).resolvePath path).params ∧
      location.matched = (((new options lineage).run changes).resolvePath path).matched ∧
      location.metadata = (((new options lineage).run changes).resolvePath path).metadata := by
  have within := within_run options lineage changes
  obtain ⟨e, params, leads, rfl⟩ := exists_leads within found
  rw [isAlias_record within.ranked.linked leads.live] at primary
  obtain ⟨built, isBuilt⟩ := Matcher.exists_build_of_given (leads.given enclosed)
  have isPresent := leads.present_of_primary within.ranked.linked primary
  rw [leads.location] at isPresent ⊢
  exact ⟨_, (resolve_relative_eq_ok isPresent fun _ =>
    Matcher.declares_of_mem_recognize leads.recognized).mpr ⟨built, isBuilt, rfl⟩,
    rfl, rfl, rfl, rfl⟩

/-- The constraint lets the empty text through, and the single slash leads to the route. -/
theorem resolve_relative_empty : ∃ leaf location,
    let r := (new {} 0).run [.add { path := "/:a(.*)", name := some "n" }]
    (r.resolvePath "/").leaf? = some leaf ∧ leaf.isAlias = false ∧ Pattern.Enclosed leaf.path ∧
      r.resolve (.relative []) (r.resolvePath "/") = .ok location ∧
      location.name = (r.resolvePath "/").name ∧ location.params = (r.resolvePath "/").params ∧
      location.matched = (r.resolvePath "/").matched ∧
      location.metadata = (r.resolvePath "/").metadata := by
  have found : (((new {} 0).run [.add { path := "/:a(.*)", name := some "n" }]).resolvePath
      "/").leaf?.map (fun leaf => (leaf.path, leaf.isAlias)) = some ("/:a(.*)", false) := by cbv
  obtain ⟨leaf, isLeaf, same⟩ := Option.map_eq_some_iff.mp found
  obtain ⟨isPath, primary⟩ := Prod.mk.inj same
  have enclosed : Pattern.Enclosed leaf.path := by
    rw [isPath]
    exact @Pattern.enclosed_of_params_eq "/:a(.*)" ".*" [.param ⟨"a", some ".*", false, false⟩] _
      (by cbv) rfl rfl ⟨.repetition 0 none true .dot, by cbv, rfl⟩
  obtain ⟨location, resolved, rest⟩ := resolve_relative {} 0
    [.add { path := "/:a(.*)", name := some "n" }] isLeaf primary enclosed
  exact ⟨leaf, location, isLeaf, primary, enclosed, resolved, rest⟩

/-- A group that is taken no times at all is not counted when a constraint is tested, but the
recognizer numbers it: the param that comes next is read from it, and has no value. -/
theorem exists_relative_missing :
    let r := (new {} 0).run [.add { path := "/:a(y(x)\x7b0\x7d)/:b", name := some "n" }]
    (r.resolvePath "/y/z").leaf?.map (·.isAlias) = some false ∧
      r.resolve (.relative []) (r.resolvePath "/y/z") =
        .error (.build (.missingParam "b" "/:a(y(x)\x7b0\x7d)/:b")) := by
  cbv

/-! ### Aliases -/

/-- What an alias declares is declared by the entry that it stands for. -/
theorem declares_of_mirrors (mirrors : e.Mirrors o) {name : String}
    (declared : e.matcher.declares name = true) : o.matcher.declares name = true := by
  obtain ⟨key, member, same⟩ := List.any_eq_true.mp declared
  exact List.any_eq_true.mpr ⟨key, (mirrors.keys key).mp member, same⟩

/-- After any run, where a path leads to an alias with a name, the route of this name is the one that
the alias stands for.  The relative target without params leads somewhere just if no required param
of this route which must not be empty has an empty value; and then it leads to this route, and to a
path that its matcher recognizes unless its pattern has constraints of its own, or they do not admit
what the params are written with.  It is asked that the constraints in the pattern of the alias are
enclosed, and that the matcher of the route lets through a single slash that it has made. -/
theorem resolve_relative_alias (options : RouterOptions) (lineage : Nat) (changes : List Change)
    (found : (((new options lineage).run changes).resolvePath path).leaf? = some leaf)
    (isAlias : leaf.isAlias = true) (isName : leaf.name = some name)
    (enclosed : Pattern.Enclosed leaf.path) :
    ∃ o, ((new options lineage).run changes).registry.named? name = some o ∧
      leaf.primary? ((new options lineage).run changes).records = some o.record ∧
      ((∃ location, ((new options lineage).run changes).resolve (.relative [])
          (((new options lineage).run changes).resolvePath path) = .ok location) ↔
        o.matcher.AllowsEmpty (((new options lineage).run changes).resolvePath path).params) ∧
      ∀ location, ((new options lineage).run changes).resolve (.relative [])
          (((new options lineage).run changes).resolvePath path) = .ok location →
        location.leaf? = some o.record ∧
          (Pattern.Plain o.matcher.tokens → (location.path = "/" → o.matcher.OwnsRoot) →
            (o.matcher.recognize location.path).isSome) ∧
          ∀ settings, o.matcher.Readmits settings
              (((new options lineage).run changes).resolvePath path).params →
            (o.matcher.recognize location.path).isSome := by
  have within := within_run options lineage changes
  have linked := within.ranked.linked
  have mirrored := (mirroring_run options lineage changes).mirrored linked
  generalize (new options lineage).run changes = r at *
  obtain ⟨e, params, leads, rfl⟩ := exists_leads within found
  rw [isAlias_record linked leads.live] at isAlias
  obtain ⟨original, o, standsFor, foundO, -, mirrors, named⟩ := mirrored _ _ leads.live isAlias
  have liveO := ((Registry.named?_eq_some linked).mp (named name isName)).1
  have isPrimary := linked.coherent.original_record _ _ leads.live
  rw [standsFor, Option.bind_some, foundO, Option.map_some] at isPrimary
  have isPresent := leads.present_of_named isName (named name isName)
  have resolved := fun next => @resolve_relative_eq_ok r o (r.resolvePath path) next isPresent (by
    rw [leads.location]
    exact fun pair member => declares_of_mirrors mirrors
      (Matcher.declares_of_mem_recognize leads.recognized member))
  have built := Matcher.exists_build_iff_allowsEmpty (fun key => (mirrors.keys key).mpr)
    (leads.given enclosed)
  have isParams : (r.resolvePath path).params = params := by rw [leads.location]; rfl
  rw [isParams] at resolved ⊢
  refine ⟨o, named name isName, isPrimary, ?_, fun location isNext => ?_⟩
  · rw [← built]
    exact ⟨fun ⟨next, isNext⟩ => ((resolved next).mp isNext).imp fun _ => And.left,
      fun ⟨path, isBuilt⟩ => ⟨_, (resolved _).mpr ⟨path, isBuilt, rfl⟩⟩⟩
  · obtain ⟨next, isBuilt, rfl⟩ := (resolved location).mp isNext
    obtain ⟨-, raw, settings, compiled⟩ := within.ranked.kinds _
      (mem_matchers.mpr ⟨o, (Registry.mem_inOrder linked).mpr liveO, rfl⟩)
    exact ⟨leaf?_locate liveO _ _,
      fun plain root => Matcher.isSome_recognize_of_build compiled plain isBuilt root,
      fun settings readmits => readmits.isSome_recognize isBuilt⟩

/-- The alias has a constraint, and the route that it stands for is caught by a bare asterisk, or
has a constraint of its own which admits what the alias took. -/
theorem resolve_relative_alias_asterisk : (∃ leaf o location,
    let r := (new {} 0).run
      [.add { path := "/*", name := some "n", aliases := ["/:pathMatch(.+)*"] }]
    (r.resolvePath "/b").leaf? = some leaf ∧ leaf.isAlias = true ∧ leaf.name = some "n" ∧
      Pattern.Enclosed leaf.path ∧ r.registry.named? "n" = some o ∧
      leaf.primary? r.records = some o.record ∧
      r.resolve (.relative []) (r.resolvePath "/b") = .ok location ∧
      location.leaf? = some o.record ∧ (o.matcher.recognize location.path).isSome) ∧
    ∃ leaf o location,
      let r := (new {} 0).run
        [.add { path := "/n/:id(a)", name := some "n", aliases := ["/x/:id(.*)"] }]
      (r.resolvePath "/x/a").leaf? = some leaf ∧ leaf.isAlias = true ∧ leaf.name = some "n" ∧
        Pattern.Enclosed leaf.path ∧ r.registry.named? "n" = some o ∧
        o.matcher.Readmits {} (r.resolvePath "/x/a").params ∧
        r.resolve (.relative []) (r.resolvePath "/x/a") = .ok location ∧
        location.leaf? = some o.record ∧ (o.matcher.recognize location.path).isSome := by
  constructor
  · have evaluated :
        let r := (new {} 0).run
          [.add { path := "/*", name := some "n", aliases := ["/:pathMatch(.+)*"] }]
        (r.resolvePath "/b").leaf?.map (fun leaf => (leaf.path, leaf.isAlias, leaf.name)) =
            some ("/:pathMatch(.+)*", true, some "n") ∧
          (r.registry.named? "n").map (·.matcher.tokens) = some [.param Param.catchAll] ∧
          (r.resolve (.relative []) (r.resolvePath "/b")).isOk = true := by cbv
    obtain ⟨found, tokens, leadsOn⟩ := evaluated
    obtain ⟨leaf, isLeaf, same⟩ := Option.map_eq_some_iff.mp found
    obtain ⟨isPath, isAlias, isName⟩ := by simpa only [Prod.mk.injEq] using same
    have enclosed : Pattern.Enclosed leaf.path := by
      rw [isPath]
      exact @Pattern.enclosed_of_params_eq "/:pathMatch(.+)*" ".+"
        [.param ⟨"pathMatch", some ".+", true, true⟩] _ (by cbv) rfl rfl
        ⟨.repetition 1 none true .dot, by cbv, rfl⟩
    obtain ⟨o, named, isPrimary, -, leads⟩ := resolve_relative_alias {} 0
      [.add { path := "/*", name := some "n", aliases := ["/:pathMatch(.+)*"] }] isLeaf isAlias
      isName enclosed
    rw [named, Option.map_some, Option.some.injEq] at tokens
    have plain : Pattern.Plain o.matcher.tokens := by
      rw [tokens]
      exact fun p member => Or.inr (List.mem_singleton.mp member)
    have owns : o.matcher.OwnsRoot := Or.inr (Or.inr (Or.inr (by rw [tokens]; simp)))
    obtain ⟨location, isNext⟩ := Pattern.exists_of_isOk leadsOn
    obtain ⟨isRecord, recognized, -⟩ := leads location isNext
    exact ⟨leaf, o, location, isLeaf, isAlias, isName, enclosed, named, isPrimary, isNext, isRecord,
      recognized plain fun _ => owns⟩
  · have evaluated :
        let r := (new {} 0).run
          [.add { path := "/n/:id(a)", name := some "n", aliases := ["/x/:id(.*)"] }]
        (r.resolvePath "/x/a").leaf?.map (fun leaf => (leaf.path, leaf.isAlias, leaf.name)) =
            some ("/x/:id(.*)", true, some "n") ∧
          (r.registry.named? "n").map (fun o => .ok o.matcher) =
            some (Matcher.ofPattern "/n/:id(a)" {}) ∧
          (r.resolvePath "/x/a").params = [("id", .single "a")] ∧
          (r.resolve (.relative []) (r.resolvePath "/x/a")).isOk = true := by
      cbv
      exact ⟨rfl, trivial⟩
    obtain ⟨found, isMatcher, isParams, leadsOn⟩ := evaluated
    obtain ⟨leaf, isLeaf, same⟩ := Option.map_eq_some_iff.mp found
    obtain ⟨isPath, isAlias, isName⟩ := by simpa only [Prod.mk.injEq] using same
    have enclosed : Pattern.Enclosed leaf.path := by
      rw [isPath]
      exact @Pattern.enclosed_of_params_eq "/x/:id(.*)" ".*"
        [.literal "x", .param ⟨"id", some ".*", false, false⟩] _ (by cbv) rfl rfl
        ⟨.repetition 0 none true .dot, by cbv, rfl⟩
    obtain ⟨o, named, -, -, leads⟩ := resolve_relative_alias {} 0
      [.add { path := "/n/:id(a)", name := some "n", aliases := ["/x/:id(.*)"] }] isLeaf isAlias
      isName enclosed
    rw [named, Option.map_some, Option.some.injEq] at isMatcher
    have isTokens : Pattern.tokenize "/n/:id(a)" =
        .ok [.literal "n", .param ⟨"id", some "a", false, false⟩] := by cbv
    have tokens := Except.ok.inj (isTokens.symm.trans (Matcher.ofPattern_eq_ok isMatcher.symm).1)
    have readmits : o.matcher.Readmits {} [("id", .single "a")] := by
      refine @Matcher.readmits_of_quoted _ _ _ _ isMatcher.symm ?_ "n" (by rw [← tokens]; simp)
      rw [← tokens]
      intro p member
      obtain rfl := List.mem_singleton.mp member
      exact ⟨['a'], by cbv, fun s inShare => List.mem_singleton.mp inShare⟩
    rw [← isParams] at readmits
    obtain ⟨location, isNext⟩ := Pattern.exists_of_isOk leadsOn
    obtain ⟨isRecord, -, recognized⟩ := leads location isNext
    exact ⟨leaf, o, location, isLeaf, isAlias, isName, enclosed, named, readmits, isNext, isRecord,
      recognized {} readmits⟩

/-- A constraint of the route alone: it may keep the path that is generated from being recognized,
and it may keep a path from being generated. -/
theorem exists_relative_alias_unrecognized :
    let r := (new {} 0).run
      [.add { path := "/n/:id(a)", name := some "n", aliases := ["/x/:id(.*)"] }]
    (r.resolvePath "/x/b").leaf?.map (fun leaf => (leaf.isAlias, leaf.name)) =
        some (true, some "n") ∧
      (r.resolve (.relative []) (r.resolvePath "/x/b")).toOption.map (·.path) = some "/n/b" ∧
      (r.registry.named? "n").map (fun o => (o.matcher.recognize "/n/b").isSome) = some false ∧
      (r.resolvePath "/x/").leaf?.map (fun leaf => (leaf.isAlias, leaf.name)) =
        some (true, some "n") ∧
      r.resolve (.relative []) (r.resolvePath "/x/") =
        .error (.build (.missingParam "id" "/n/:id(a)")) := by
  cbv
  exact ⟨rfl, trivial⟩

end Router
end Waymark
