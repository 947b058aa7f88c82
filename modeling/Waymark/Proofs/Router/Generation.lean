/-
Generated paths are resolved.

The path of a named route is made by the matcher of its entry, and resolving a path asks
the matchers of all entries.  The path is in canonical form already, and the entry that
made it recognizes it, so resolution finds this entry or one that goes before it.

* `isSome_find?` — what some entry recognizes is found;
* `isFound_resolvePath` — and its location has been found;
* `resolvePath_urlFor` — paths of named routes are resolved as they are.
-/
import Waymark.Proofs.Matcher.Generation
import Waymark.Proofs.Router.Priority
import Waymark.Proofs.Router.Removal

namespace Waymark

namespace Registry

variable {r : Registry} {id : Nat} {e : Entry} {path : String}

/-- What an entry recognizes is found, by this entry or by one before it. -/
theorem isSome_find? (h : Linked r) (found : r.get? id = some e)
    (recognized : (e.matcher.recognize path).isSome) : (r.find? path).isSome := by
  have member : e ∈ r.inOrder := by
    rw [mem_inOrder h, h.number found]
    exact found
  rw [find?, List.findSome?_isSome_iff]
  exact ⟨e, member, by rw [Option.isSome_map]; exact recognized⟩

theorem ancestors_ne_nil (h : Linked r) (found : r.get? id = some e) : r.ancestors id ≠ [] := by
  obtain ⟨root, last, -⟩ := ancestors_linked h found
  intro none
  rw [none] at last
  exact absurd last (by simp)

end Registry

namespace Router

variable {r : Router} {e : Entry} {name path : String} {params : Params}

theorem within_run (options : RouterOptions) (lineage : Nat) (changes : List Change) :
    Within (fun _ => True) ((new options lineage).run changes) := by
  induction changes using List.reverseRecOn with
  | nil => exact .new options lineage
  | append_singleton changes change ih =>
    rw [run_concat]
    exact .change change ih fun _ _ => trivial

/-- The location of a path that is found is that of an entry. -/
theorem isFound_resolvePath (h : r.registry.Linked)
    (found : (r.registry.find? (Path.normalize path)).isSome) :
    (r.resolvePath path).isFound = true := by
  obtain ⟨⟨e, params⟩, isFound⟩ := Option.isSome_iff_exists.mp found
  obtain ⟨o, member, recognized⟩ := List.exists_of_findSome?_eq_some isFound
  obtain ⟨_, -, isPair⟩ := Option.map_eq_some_iff.mp recognized
  obtain rfl : o = e := (Prod.mk.inj isPair).1
  have live := (Registry.mem_inOrder h).mp member
  rw [resolvePath]
  simp only [isFound, locate, Location.isFound]
  simpa using Registry.ancestors_ne_nil h live

theorem path_resolvePath (r : Router) (path : String) :
    (r.resolvePath path).path = Path.normalize path := by
  rw [resolvePath]
  split <;> rfl

theorem urlFor_eq_ok (named : r.registry.named? name = some e) :
    r.urlFor name params = .ok path ↔ e.matcher.build params = .ok path := by
  rw [urlFor, require, named]
  cases isBuilt : e.matcher.build params <;> simp [isBuilt, Except.mapError]

/-! ### Single routes -/

/-- A router with a single route holds its entry under its name. -/
theorem exists_single {options : RouterOptions} {d : Definition} {m : Matcher}
    (isName : d.name = some name) (noChildren : d.children = []) (noAliases : d.aliases = [])
    (compiled : Matcher.ofPattern (Path.collapse d.path) (options.patternOptions d) = .ok m) :
    ∃ e, ((new options 0).run [.add d]).registry.named? name = some e ∧ e.matcher = m ∧
      ((new options 0).run [.add d]).registry.inOrder = [e] := by
  have single : (new options 0).run [.add d] =
      { new options 0 with registry := (Registry.empty 0).register d m none none } :=
    apply_single (new options 0) noChildren noAliases (fun _ _ => rfl) compiled
  have linked := linked_run options 0 [.add d]
  rw [single] at linked ⊢
  exact ⟨⟨Record.ofDefinition d m.pattern ⟨0, 0⟩ none none, m, none, [], [], none⟩,
    (Registry.named?_eq_some linked).mpr ⟨rfl, rfl, isName⟩, rfl, rfl⟩

/-- The path of a single route that its matcher does not recognize leads nowhere. -/
theorem exists_single_unresolved {options : RouterOptions} {d : Definition} {m : Matcher}
    (isName : d.name = some name) (noChildren : d.children = []) (noAliases : d.aliases = [])
    (compiled : Matcher.ofPattern (Path.collapse d.path) (options.patternOptions d) = .ok m)
    (built : m.build params = .ok path) (unrecognized : m.recognize (Path.normalize path) = none) :
    ∃ e, ((new options 0).run [.add d]).registry.named? name = some e ∧ e.matcher = m ∧
      ((new options 0).run [.add d]).urlFor name params = .ok path ∧
      ((new options 0).run [.add d]).resolvePath path = .unmatched (Path.normalize path) := by
  obtain ⟨e, named, rfl, single⟩ := exists_single isName noChildren noAliases compiled
  refine ⟨e, named, rfl, (urlFor_eq_ok named).mpr built, ?_⟩
  rw [resolvePath, Registry.find?, single]
  simp only [List.findSome?_singleton, unrecognized, Option.map_none]

/-! ### Paths of named routes -/

/-- After any run, and under any options, the path of a named route without constraints is resolved
to a route, and it stays as it is; provided that no literal text of the pattern holds a backslash,
and that a pattern which made the single slash has it for a path. -/
theorem resolvePath_urlFor (options : RouterOptions) (lineage : Nat) (changes : List Change)
    (named : ((new options lineage).run changes).registry.named? name = some e)
    (plain : Pattern.Plain e.matcher.tokens)
    (noBackslash : ∀ text, Token.literal text ∈ e.matcher.tokens → '\\' ∉ text.toList)
    (made : ((new options lineage).run changes).urlFor name params = .ok path)
    (root : path = "/" → e.matcher.OwnsRoot) :
    (((new options lineage).run changes).resolvePath path).isFound = true ∧
      (((new options lineage).run changes).resolvePath path).path = path := by
  have ranked := (within_run options lineage changes).ranked
  have live := ((Registry.named?_eq_some ranked.linked).mp named).1
  have member := mem_matchers.mpr ⟨e, (Registry.mem_inOrder ranked.linked).mpr live, rfl⟩
  obtain ⟨-, raw, settings, compiled⟩ := ranked.kinds _ member
  have built := (urlFor_eq_ok named).mp made
  have normal := Matcher.normalize_of_build compiled plain noBackslash built
  have recognized := Matcher.isSome_recognize_of_build compiled plain built root
  refine ⟨isFound_resolvePath ranked.linked ?_, by rw [path_resolvePath, normal]⟩
  rw [normal]
  exact Registry.isSome_find? ranked.linked live recognized

theorem resolvePath_root_of_strict : ∃ e,
    let r := (new { strict := true } 0).run [.add { path := "/:a?/", name := some "n" }]
    r.registry.named? "n" = some e ∧ Pattern.Plain e.matcher.tokens ∧ e.matcher.OwnsRoot ∧
      r.urlFor "n" [] = .ok "/" ∧ (r.resolvePath "/").isFound = true ∧
      (r.resolvePath "/").path = "/" := by
  obtain ⟨m, compiled, isTokens⟩ := @Matcher.exists_ofPattern_of_accepted "/:a?/"
    [.param ⟨"a", none, true, false⟩] ⟨false, true⟩ (by cbv) (by decide)
    (show (Regex.ofSource? "^(?:/((?:[^/]+)))?/$").isSome = true by cbv)
  obtain ⟨e, named, rfl, -⟩ := @exists_single "n" { strict := true }
    { path := "/:a?/", name := some "n" } m rfl rfl rfl (by
      rw [show Path.collapse "/:a?/" = "/:a?/" by cbv]
      exact compiled)
  have trailing : e.matcher.trailingSlash = true := by
    rw [(Matcher.ofPattern_eq_ok compiled).2.1, isTokens]
    decide
  have plain : Pattern.Plain e.matcher.tokens := by
    rw [isTokens]
    exact fun p member => Or.inl (by revert p; decide)
  have owns : e.matcher.OwnsRoot := Or.inr (Or.inl trailing)
  have built : e.matcher.build [] = .ok "/" := by
    simp only [Matcher.build, isTokens, trailing]
    rfl
  have made := (urlFor_eq_ok named).mpr built
  obtain ⟨found, same⟩ := resolvePath_urlFor { strict := true } 0
    [.add { path := "/:a?/", name := some "n" }] named plain (by simp [isTokens]) made fun _ => owns
  exact ⟨e, named, plain, owns, made, found, same⟩

/-- A backslash in literal text is a slash by the time the path is matched, and a strict pattern
without any required segment does not let through the slash that it builds. -/
theorem exists_unresolved :
    (∃ e, let r := (new {} 0).run [.add { path := "/a\\b", name := some "n" }]
      r.registry.named? "n" = some e ∧ Pattern.Plain e.matcher.tokens ∧
        r.urlFor "n" [] = .ok "/a\\b" ∧ (r.resolvePath "/a\\b").isFound = false ∧
        (r.resolvePath "/a\\b").path = "/a/b") ∧
    ∃ e, let r := (new { strict := true } 0).run [.add { path := "/:a?", name := some "n" }]
      r.registry.named? "n" = some e ∧ Pattern.Plain e.matcher.tokens ∧
        r.urlFor "n" [] = .ok "/" ∧ (r.resolvePath "/").isFound = false := by
  constructor
  · obtain ⟨m, compiled, isTokens⟩ := @Matcher.exists_ofPattern "/a\\b" [.literal "a\\b"]
      (by cbv) (by decide) (show (Regex.ofSource? "^/a\\\\b/?$").isSome = true by cbv)
    have free : ∀ p ∈ Pattern.params m.tokens, p.constraint = none := by
      rw [isTokens]
      decide
    have built : m.build [] = .ok "/a\\b" := by
      simp only [Matcher.build, isTokens, (Matcher.ofPattern_eq_ok compiled).2.1]
      rfl
    have unrecognized := Matcher.recognize_normalize_of_backslash compiled free
      (by rw [isTokens]; exact List.mem_cons_self) (by decide) "/a\\b"
    obtain ⟨e, named, rfl, made, unmatched⟩ := @exists_single_unresolved "n" _ _ {}
      { path := "/a\\b", name := some "n" } _ rfl rfl rfl (by
        rw [show Path.collapse "/a\\b" = "/a\\b" by cbv]
        exact compiled) built unrecognized
    refine ⟨e, named, fun p member => Or.inl (free p member), made, by rw [unmatched]; rfl, ?_⟩
    rw [unmatched]
    show Path.normalize "/a\\b" = "/a/b"
    cbv
  · obtain ⟨m, compiled, isTokens⟩ := @Matcher.exists_ofPattern_of_accepted "/:a?"
      [.param ⟨"a", none, true, false⟩] ⟨false, true⟩ (by cbv) (by decide)
      (show (Regex.ofSource? "^(?:/((?:[^/]+)))?$").isSome = true by cbv)
    have free : ∀ p ∈ Pattern.params m.tokens, p.constraint = none := by
      rw [isTokens]
      decide
    have built : m.build [] = .ok "/" := by
      simp only [Matcher.build, isTokens, (Matcher.ofPattern_eq_ok compiled).2.1]
      rfl
    have unrecognized : m.recognize (Path.normalize "/") = none := by
      rw [show Path.normalize "/" = "/" by cbv]
      exact Matcher.recognize_root_of_strict compiled free (by simp [isTokens]) (by decide)
    obtain ⟨e, named, rfl, made, unmatched⟩ := @exists_single_unresolved "n" _ _ { strict := true }
      { path := "/:a?", name := some "n" } _ rfl rfl rfl (by
        rw [show Path.collapse "/:a?" = "/:a?" by cbv]
        exact compiled) built unrecognized
    exact ⟨e, named, fun p member => Or.inl (free p member), made, by rw [unmatched]; rfl⟩

end Router
end Waymark
