/-
A slash at the end of a path, after any run.

If no route that is there is strict or has constraints of its own, each of them recognizes a path
with a slash at its end as it does without, with the same params.  So the search stops at the same
route, and two paths that differ in that slash lead to the same place.

* `Lenient` — the routes that are there after a run, with the definitions that they were made from;
* `resolvePath_append_slash` — what a path leads to with a slash at its end and without.
-/
import Waymark.Proofs.Matcher.FinalSlash
import Waymark.Proofs.Router.EmptyPath

namespace Waymark

namespace Router

/-- Every route that is there was made from a definition that is not strict, and has no constraints;
its last segment may be a bare asterisk. -/
def Lenient (options : RouterOptions) (lineage : Nat) (changes : List Change) : Prop :=
  ∀ n e, ((new options lineage).run changes).registry.get? n = some e →
    (∃ node raw, Made options lineage changes n node raw ∧
      (options.patternOptions node).strict = false) ∧ Pattern.Open e.matcher.tokens

/-- After any run that leaves lenient routes only, a canonical path leads to the same route with
the same params, whether a slash is put at its end or not. -/
theorem resolvePath_append_slash (options : RouterOptions) (lineage : Nat) (changes : List Change)
    (lenient : Lenient options lineage changes) (path : String)
    (canonical : Path.isCanonical path = true) (last : path.toList.getLast? ≠ some '/') :
    let r := (new options lineage).run changes
    r.registry.find? (path ++ "/") = r.registry.find? path ∧ (r.resolvePath path).path = path ∧
      r.resolvePath (path ++ "/") = { r.resolvePath path with path := path ++ "/" } := by
  intro r
  obtain ⟨parts, nonempty, all, plain, isPath⟩ :=
    Path.exists_spell_of_isCanonical canonical last
  have normal : Path.normalize path = path := Path.normalize_of_isCanonical canonical
  have normal' : Path.normalize (path ++ "/") = path ++ "/" := by
    refine Path.normalize_of_isCanonical ?_
    rw [Path.isCanonical, Path.toList_append_slash isPath]
    exact Path.isCanonicalChars_spell nonempty all plain (Or.inr rfl)
  have same : r.registry.find? (path ++ "/") = r.registry.find? path := by
    refine Regex.findSome?_congr fun e member => ?_
    have found := (Registry.mem_inOrder (linked_run options lineage changes)).mp member
    obtain ⟨⟨node, raw, made, loose⟩, free⟩ := lenient e.id e found
    have compiled := made.compiled found
    have isOptions : options.patternOptions node =
        ⟨(options.patternOptions node).caseInsensitive, false⟩ := by rw [← loose]
    rw [isOptions] at compiled
    rw [Matcher.recognize_append_slash compiled free nonempty all isPath]
  refine ⟨same, ?_, ?_⟩
  · rw [resolvePath, normal]
    split <;> rfl
  · rw [resolvePath, resolvePath, normal, normal', same]
    cases r.registry.find? path <;> rfl

/-- What is made by a single addition is part of its definition. -/
theorem Made.exists_site {options : RouterOptions} {lineage n : Nat} {d node : Definition}
    {raw : String} (made : Made options lineage [.add d] n node raw) :
    ∃ s, d.at? s = some (node, raw) := by
  obtain ⟨before, parent, d', after, next, id, s, isChanges, -, valid, -⟩ := made
  cases before with
  | nil =>
    cases parent with
    | none =>
      obtain rfl : d = d' := Change.add.inj (List.cons.inj isChanges).1
      exact ⟨s, valid⟩
    | some parent => exact nomatch (List.cons.inj isChanges).1
  | cons change before =>
    have nothing := (List.cons.inj isChanges).2
    exact absurd nothing.symm (by simp)

/-- The bare asterisk could take the slash, but its value has no empty segments. -/
theorem resolvePath_append_slash_catchAll :
    let r := (new {} 0).run [.add { path := "/:a/*" }]
    Lenient {} 0 [.add { path := "/:a/*" }] ∧
      (r.resolvePath "/x/y/").params = [("a", .single "x"), ("pathMatch", .list ["y"])] ∧
      r.resolvePath "/x/y/" = { r.resolvePath "/x/y" with path := "/x/y/" } := by
  have found : (((new {} 0).run [.add { path := "/:a/*" }]).resolvePath "/x/y/").params =
      [("a", .single "x"), ("pathMatch", .list ["y"])] := by cbv
  have tokenized : Pattern.tokenize "/:a/*" =
      .ok [.param ⟨"a", none, false, false⟩, .param Param.catchAll] := by cbv
  have lenient : Lenient {} 0 [.add { path := "/:a/*" }] := by
    intro n e live
    obtain ⟨node, raw, made⟩ := exists_made {} 0 _ live
    -- the definition has one path only
    obtain ⟨isNode, isRaw⟩ : node = { path := "/:a/*" } ∧ raw = "/:a/*" := by
      obtain ⟨s, valid⟩ := made.exists_site
      cases s with
      | here choice =>
        cases choice with
        | none =>
          obtain ⟨isNode, isRaw⟩ := Prod.mk.inj (Option.some.inj valid)
          exact ⟨isNode.symm, isRaw.symm⟩
        | some place => exact absurd valid (by simp [Definition.at?, Definition.path?])
      | nested choice index below => exact absurd valid (by simp [Definition.at?])
    have compiled := made.compiled live
    have absolute : ∀ above, Path.resolve raw above = "/:a/*" := by
      rw [isRaw]
      rintro (_ | above) <;> cbv
    have isTokens := (Matcher.ofPattern_eq_ok compiled).1
    rw [absolute, tokenized] at isTokens
    refine ⟨⟨node, raw, made, by rw [isNode]; rfl⟩, [.param ⟨"a", none, false, false⟩], ?_, ?_⟩
    · exact Or.inr (Except.ok.inj isTokens).symm
    · decide
  exact ⟨lenient, found,
    (resolvePath_append_slash {} 0 _ lenient "/x/y" (by decide) (by decide)).2.2⟩

end Router
end Waymark
