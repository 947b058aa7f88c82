/-
A route for everything.

A bare asterisk alone is the pattern of a route that takes every path of a single line, and so a
router with such a route finds a route for all of these, this one or another one before it.
Under other literal texts a bare asterisk does the same for what follows them.

* `isSome_recognize_asterisk` — what the pattern `/*` recognizes;
* `catchAll_covers` — which paths are caught, and what is read from them.
-/
import Waymark.Proofs.Matcher.Beneath
import Waymark.Proofs.Router.Relative

namespace Waymark

open Waymark.Path (Boundary spell segments)

namespace Matcher

variable {m : Matcher} {path : String}

/-- A matcher with the pattern `/*` has the asterisk as its only token. -/
theorem ofTokens_of_asterisk (registrable : m.Registrable) (isPattern : m.pattern = "/*") :
    ∃ options, ofTokens [.param Param.catchAll] options false = .ok m := by
  have tokenized := registrable.tokenize_pattern
  have isAsterisk : Pattern.tokenize "/*" = .ok [.param Param.catchAll] := by cbv
  rw [isPattern, isAsterisk, Except.ok.injEq] at tokenized
  have bare : m.trailingSlash = false := by
    rw [pattern, ← tokenized, patternOf] at isPattern
    cases slash : m.trailingSlash with
    | false => rfl
    | true =>
      rw [slash] at isPattern
      exact absurd isPattern (by decide)
  obtain ⟨raw, options, compiled⟩ := registrable
  obtain ⟨read, trailing, -⟩ := ofPattern_eq_ok compiled
  refine ⟨options, ?_⟩
  rw [ofPattern, read] at compiled
  simp only at compiled
  rwa [← trailing, bare, ← tokenized] at compiled

/-- The pattern `/*` recognizes the canonical paths without a newline, under any options. -/
theorem isSome_recognize_asterisk (registrable : m.Registrable) (isPattern : m.pattern = "/*")
    (boundary : Boundary path.toList) :
    (m.recognize path).isSome = true ↔ '\n' ∉ path.toList := by
  obtain ⟨options, compiled⟩ := ofTokens_of_asterisk registrable isPattern
  have recognized := fun params => @recognize_beneath_iff [] options m path params compiled
  rw [Option.isSome_iff_exists]
  constructor
  · rintro ⟨params, isSome⟩
    obtain ⟨taken, rest, isPath, spelled, -, line, -⟩ := (recognized params).mp isSome
    have nothing : taken = [] := List.eq_nil_of_length_eq_zero
      (Recognizer.length_of_spells spelled).symm
    rwa [isPath, nothing]
  · intro line
    exact ⟨_, (recognized _).mpr ⟨[], path.toList, rfl, rfl, boundary, line, rfl⟩⟩

end Matcher

namespace Router

/-- Literal texts with a bare asterisk behind them recognize, with regard to the case of letters,
the canonical paths that are the texts themselves or begin with them and a slash, as long as no
newline follows; the asterisk is given the segments that follow, decoded, and nothing if there are
none.  After any run that leaves a route `/*`, a path without a newline is found, and a path with
one does not lead to this route. -/
theorem catchAll_covers (path : String) :
    (∀ (texts : List String) (strict : Bool) (m : Matcher) (params : Params),
      Matcher.ofTokens (texts.map .literal ++ [.param Param.catchAll]) ⟨false, strict⟩ false =
          .ok m →
        Path.isCanonical path = true →
          (m.recognize path = some params ↔ ∃ rest,
            path.toList = spell (texts.map String.toList) ++ rest ∧ Boundary rest ∧ '\n' ∉ rest ∧
              params = if segments rest = [] then []
                else [("pathMatch", .list ((segments rest).map decodedSegment))])) ∧
    ∀ (options : RouterOptions) (lineage : Nat) (changes : List Change),
      let r := (new options lineage).run changes
      (∃ record ∈ r.records, record.path = "/*") →
        ('\n' ∉ path.toList → (r.resolvePath path).isFound = true) ∧
        ('\n' ∈ path.toList → ∀ leaf, (r.resolvePath path).leaf? = some leaf →
          leaf.path ≠ "/*") := by
  refine ⟨fun texts strict m params compiled canonical =>
    Matcher.recognize_beneath_of_isCanonical rfl compiled canonical, ?_⟩
  intro options lineage changes r present
  have within := within_run options lineage changes
  have linked := within.ranked.linked
  have newline : '\n' ∈ (Path.normalize path).toList ↔ '\n' ∈ path.toList := by
    rw [Path.normalize, String.toList_ofList]
    exact Path.mem_normalizeChars_iff (by decide) (by decide)
  have boundary : Boundary (Path.normalize path).toList := by
    rw [Path.normalize, String.toList_ofList]
    exact Path.boundary_of_isCanonicalChars (Path.isCanonicalChars_normalizeChars _)
  constructor
  · intro line
    obtain ⟨record, member, isPath⟩ := present
    obtain ⟨e, inOrder, rfl⟩ := List.mem_map.mp member
    have live := (Registry.mem_inOrder linked).mp inOrder
    have registrable := (within.ranked.kinds _ (mem_matchers.mpr ⟨e, inOrder, rfl⟩)).2
    rw [labelled_within within e.id e live] at isPath
    have recognized := (Matcher.isSome_recognize_asterisk registrable isPath boundary).mpr
      (mt newline.mp line)
    exact isFound_resolvePath linked (Registry.isSome_find? linked live recognized)
  · intro inPath leaf isLeaf same
    obtain ⟨e, params, leads, rfl⟩ := exists_leads within isLeaf
    rw [leads.labelled] at same
    have line := (Matcher.isSome_recognize_asterisk leads.registrable same boundary).mp
      (leads.recognized ▸ rfl)
    exact line (newline.mpr inPath)

/-- The segments are decoded, and the slash at the end of a path makes no further one. -/
theorem catchAll_covers_encoded :
    (∃ m, Matcher.ofTokens [.literal "a", .param Param.catchAll] ⟨false, false⟩ false = .ok m ∧
      m.recognize "/a/b%20c/" = some [("pathMatch", .list ["b c"])]) ∧
    (((new {} 0).run [.add { path := "/*" }]).resolvePath "x//y").isFound = true := by
  obtain ⟨recognizer, isSource⟩ := Option.isSome_iff_exists.mp
    (show (Regex.ofSource? "^/a(?:/((?:.*)(?:/(?:.*))*))?/?$").isSome = true by cbv)
  have probed : Matcher.probeAll [Param.catchAll] = .ok ["pathMatch"] := by cbv
  have compiled : Matcher.ofTokens [.literal "a", .param Param.catchAll] ⟨false, false⟩ false =
      .ok ⟨[.literal "a", .param Param.catchAll], false, recognizer, ["pathMatch"]⟩ :=
    Matcher.ofTokens_eq_ok.mpr ⟨rfl, rfl, probed, isSource⟩
  have present : ((new {} 0).run [.add { path := "/*" }]).records.map (·.path) = ["/*"] := by cbv
  have route : "/*" ∈ ((new {} 0).run [.add { path := "/*" }]).records.map (·.path) := by
    rw [present]
    exact List.mem_singleton_self _
  obtain ⟨record, member, isPath⟩ := List.mem_map.mp route
  have line : '\n' ∉ "x//y".toList := by decide
  have values : [("pathMatch", ParamValue.list ["b c"])] =
      [("pathMatch", .list ((segments "/b%20c/".toList).map decodedSegment))] := by cbv
  have recognized := (catchAll_covers "/a/b%20c/").1 ["a"] false _ [("pathMatch", .list ["b c"])]
    compiled (by decide)
  have isFound := ((catchAll_covers "x//y").2 {} 0 [.add { path := "/*" }]
    ⟨record, member, isPath⟩).1 line
  refine ⟨⟨_, compiled, recognized.mpr ?_⟩, isFound⟩
  exact ⟨"/b%20c/".toList, by decide, Path.boundary_slash _, by decide, values⟩

/-- A dot is no newline. -/
theorem exists_newline_not_caught : Path.isCanonical "/a\nb" = true ∧
    (Matcher.ofTokens [.param Param.catchAll] ⟨false, false⟩ false).toOption.map
      (·.recognize "/a\nb") = some none ∧
    (((new {} 0).run [.add { path := "/*" }]).resolvePath "/a\nb").isFound = false := by
  cbv

end Router
end Waymark
