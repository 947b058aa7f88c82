/-
Named targets.

A named target leads to the path of the route with the name.  The present params that the route
declares go into the path, unless other ones are given.  A path hangs on declared params only, so
it makes no difference that the others are left out before the path is built.

* `build_congr` — what a path hangs on;
* `overlay_eq_filter` — the params that a route declares may be picked out first or last;
* `resolve_named` — a named target, and a relative one from a location with the name.
-/
import Waymark.Proofs.Pattern.Tokens
import Waymark.Proofs.Router.Chain

namespace Waymark

/-! ### Maps without some of their keys -/

namespace Dict

variable {κ α : Type} [DecidableEq κ] {kept : κ → Bool} {key : κ}

theorem get?_filter (kept : κ → Bool) (d : Dict κ α) (key : κ) :
    get? (d.filter (kept ·.1)) key = if kept key then d.get? key else none := by
  induction d with
  | nil => simp
  | cons pair d ih =>
    obtain ⟨k, value⟩ := pair
    rw [List.filter_cons]
    by_cases same : k = key
    · subst same
      cases isKept : kept k with
      | true => simp [get?]
      | false => simpa [isKept] using ih
    · cases isKept : kept k with
      | true => simpa [isKept, get?, same] using ih
      | false => simpa [isKept, get?, same] using ih

theorem filter_insert_of_kept (isKept : kept key = true) (d : Dict κ α) (value : α) :
    (d.insert key value).filter (kept ·.1) = insert (d.filter (kept ·.1)) key value := by
  induction d with
  | nil => simp [insert, isKept]
  | cons pair d ih =>
    obtain ⟨k, old⟩ := pair
    by_cases same : k = key
    · subst same
      simp [insert, isKept]
    · cases isKept' : kept k <;> simp [insert, same, isKept', ih]

theorem filter_insert_of_dropped (isDropped : kept key = false) (d : Dict κ α) (value : α) :
    (d.insert key value).filter (kept ·.1) = d.filter (kept ·.1) := by
  induction d with
  | nil => simp [insert, isDropped]
  | cons pair d ih =>
    obtain ⟨k, old⟩ := pair
    by_cases same : k = key
    · subst same
      simp [insert, isDropped]
    · simp [insert, same, List.filter_cons, ih]

/-- It makes no difference whether keys are left out before two maps are merged or after it. -/
theorem filter_merge (kept : κ → Bool) (d other : Dict κ α) :
    (d.merge other).filter (kept ·.1) =
      merge (d.filter (kept ·.1)) (other.filter (kept ·.1)) := by
  induction other generalizing d with
  | nil => rfl
  | cons pair other ih =>
    have step : d.merge (pair :: other) = (d.insert pair.1 pair.2).merge other := rfl
    rw [step, ih]
    cases isKept : kept pair.1 with
    | true =>
      have picked : (pair :: other).filter (kept ·.1) = pair :: other.filter (kept ·.1) :=
        List.filter_cons_of_pos isKept
      rw [filter_insert_of_kept isKept, picked]
      rfl
    | false =>
      have left : (pair :: other).filter (kept ·.1) = other.filter (kept ·.1) :=
        List.filter_cons_of_neg (by simp [isKept])
      rw [filter_insert_of_dropped isKept, left]

end Dict

/-! ### What a path hangs on -/

namespace Matcher

variable {m : Matcher} {params others : Params} {tokens : List Token} {p : Param}

theorem declares_of_mem_params (h : p ∈ Pattern.params m.tokens) : m.declares p.name = true :=
  List.any_eq_true.mpr ⟨p.key, List.mem_map_of_mem h, decide_eq_true rfl⟩

theorem buildParam_congr (same : params.get? p.name = others.get? p.name) :
    m.buildParam params p = m.buildParam others p := by
  rw [buildParam, buildParam, same]

/-- The segments hang on the params of the tokens, and so does the first error among them. -/
theorem buildSegments_congr
    (same : ∀ p ∈ Pattern.params tokens, params.get? p.name = others.get? p.name) :
    m.buildSegments params tokens = m.buildSegments others tokens := by
  induction tokens with
  | nil => rfl
  | cons token tokens ih =>
    cases token with
    | literal text => rw [buildSegments, buildSegments, ih same]; rfl
    | param p =>
      have rest := ih fun q member => same q (List.mem_cons_of_mem _ member)
      rw [buildSegments, buildSegments, buildToken, buildToken,
        buildParam_congr (same p List.mem_cons_self), rest]

/-- A path hangs on the params that its pattern declares. -/
theorem build_congr (same : ∀ name, m.declares name = true → params.get? name = others.get? name) :
    m.build params = m.build others := by
  rw [build, build, buildSegments_congr fun p member => same p.name (declares_of_mem_params member)]

end Matcher

/-! ### Targets -/

namespace Router

variable {r : Router} {e : Entry} {current : Location} {name : String}

/-- The params that an entry declares may be picked out of the merged ones. -/
theorem overlay_eq_filter (m : Matcher) (present given : Params) :
    overlay m present given = (Dict.merge present given).filter (m.declares ·.1) :=
  (Dict.filter_merge m.declares present given).symm

theorem build_overlay (m : Matcher) (present given : Params) :
    m.build (overlay m present given) = m.build (Dict.merge present given) := by
  refine Matcher.build_congr fun name declared => ?_
  rw [overlay_eq_filter, Dict.get?_filter, if_pos declared]

theorem resolve_named_of_require (isEntry : r.require name = .ok e) (given : Params) :
    r.resolve (.named name given) current = r.resolveEntry e current.params given := by
  rw [resolve, isEntry]
  rfl

/-- The path of an entry is built from the merged params, and the params of its location are those
of them that it declares. -/
theorem resolveEntry_eq (e : Entry) (present given : Params) :
    r.resolveEntry e present given =
      match e.matcher.build (Dict.merge present given) with
      | .error error => .error (.build error)
      | .ok path =>
        .ok (r.locate e path ((Dict.merge present given).filter (e.matcher.declares ·.1))) := by
  rw [resolveEntry, build_overlay]
  cases e.matcher.build (Dict.merge present given) with
  | error error => rfl
  | ok path => exact congrArg _ (congrArg _ (overlay_eq_filter e.matcher present given))

/-- A named target leads to the path of the name for the present params with the given ones in their
place, or fails for the same reason; the params are those of them that the route declares.  From a
location with the name, a relative target leads to the same place.  Params that the route does not
declare make no difference to the path, nor to the reason. -/
theorem resolve_named (r : Router) (current : Location) (name : String) (given : Params) :
    (r.resolve (.named name given) current).map (·.path) =
        r.urlFor name (Dict.merge current.params given) ∧
      (∀ location, r.resolve (.named name given) current = .ok location →
        ∃ e, r.registry.named? name = some e ∧
          location.params =
            (Dict.merge current.params given).filter (e.matcher.declares ·.1)) ∧
      (current.name = some name →
        r.resolve (.relative given) current = r.resolve (.named name given) current) ∧
      ∀ current' given', (∀ e, r.registry.named? name = some e → ∀ key,
          e.matcher.declares key = true → (Dict.merge current.params given).get? key =
            (Dict.merge current'.params given').get? key) →
        (r.resolve (.named name given) current).map (·.path) =
          (r.resolve (.named name given') current').map (·.path) := by
  have toPath : ∀ (current : Location) (given : Params),
      (r.resolve (.named name given) current).map (·.path) =
        r.urlFor name (Dict.merge current.params given) := by
    intro current given
    rw [urlFor]
    cases isEntry : r.require name with
    | error error => rw [resolve, isEntry]; rfl
    | ok e =>
      rw [resolve_named_of_require isEntry, resolveEntry_eq]
      simp only
      cases e.matcher.build (Dict.merge current.params given) <;> rfl
  refine ⟨toPath current given, ?_, ?_, ?_⟩
  · intro location resolved
    cases isEntry : r.require name with
    | error error =>
      rw [resolve, isEntry] at resolved
      exact nomatch resolved
    | ok e =>
      rw [resolve_named_of_require isEntry, resolveEntry_eq] at resolved
      split at resolved
      · exact nomatch resolved
      · obtain rfl := Except.ok.inj resolved
        exact ⟨e, require_eq_ok.mp isEntry, rfl⟩
  · intro isName
    rw [resolve, resolve, present, isName]
  · intro current' given' same
    rw [toPath, toPath, urlFor, urlFor]
    cases isEntry : r.require name with
    | error error => rfl
    | ok e =>
      simp only
      rw [Matcher.build_congr (same e (require_eq_ok.mp isEntry))]

/-- An empty value that is given takes the place of the present one, so that the segment drops out.
The third param is not declared. -/
theorem resolve_named_empty : ∃ e location,
    let r := (new {} 0).run [.add { path := "/:a/:b?", name := some "n" }]
    let present : Params := [("a", .single "x"), ("b", .single "y"), ("c", .single "z")]
    let current : Location := ⟨some "n", "/x/y", present, [], []⟩
    let given : Params := [("b", .single "")]
    r.resolve (.named "n" given) current = .ok location ∧ location.path = "/x" ∧
      r.urlFor "n" (Dict.merge present given) = .ok "/x" ∧
      r.registry.named? "n" = some e ∧ e.matcher.declares "c" = false ∧
      location.params = (Dict.merge present given).filter (e.matcher.declares ·.1) ∧
      r.resolve (.relative given) current = .ok location ∧
      (r.resolve (.named "n" given)
        { current with params := [("a", .single "x")] }).map (·.path) = .ok "/x" := by
  have evaluated :
      let r := (new {} 0).run [.add { path := "/:a/:b?", name := some "n" }]
      let present : Params := [("a", .single "x"), ("b", .single "y"), ("c", .single "z")]
      (r.resolve (.named "n" [("b", .single "")])
          ⟨some "n", "/x/y", present, [], []⟩).map (·.path) = .ok "/x" ∧
        (r.registry.named? "n").map (·.matcher.declares "c") = some false := by cbv
  obtain ⟨r, isRouter⟩ : ∃ r, r =
      (new {} 0).run [.add { path := "/:a/:b?", name := some "n" }] := ⟨_, rfl⟩
  rw [← isRouter] at evaluated ⊢
  obtain ⟨leadsOn, undeclared⟩ := evaluated
  obtain ⟨location, resolved, isPath⟩ := Pattern.exists_of_map_eq_ok leadsOn
  obtain ⟨toPath, isParams, relative, declared⟩ := resolve_named r
    ⟨some "n", "/x/y", [("a", .single "x"), ("b", .single "y"), ("c", .single "z")], [], []⟩
    "n" [("b", .single "")]
  obtain ⟨e, isEntry, same⟩ := isParams location resolved
  rw [isEntry, Option.map_some, Option.some.injEq] at undeclared
  have others := declared ⟨some "n", "/x/y", [("a", .single "x")], [], []⟩
    [("b", .single "")] fun e' isEntry' key isDeclared => by
      obtain rfl := Option.some.inj (isEntry.symm.trans isEntry')
      have other : "c" ≠ key := fun same => by
        rw [← same, undeclared] at isDeclared
        exact absurd isDeclared (by simp)
      simp [Dict.merge, Dict.insert, Dict.get?, other]
  exact ⟨e, location, resolved, isPath.symm, toPath.symm.trans leadsOn, isEntry, undeclared, same,
    (relative rfl).trans resolved, others.symm.trans leadsOn⟩

end Router
end Waymark
