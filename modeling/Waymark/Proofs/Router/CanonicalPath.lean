/-
The canonical form of a path.

A text that is canonical already is returned as it is.  That only saves work: its segments, written
one after the other, are the text again, so all texts can be taken to be rebuilt.  A rebuilt text is
spelled by the segments and what closes them, and these can be read off it.  So the canonical form
tells two texts apart exactly when they differ in their segments or, if there are any, in whether a
slash is at the end.

* `normalizeChars_eq` — the short cut changes nothing;
* `rebuild_eq_iff` — texts that are rebuilt alike;
* `normalize_isCanonicalForm` — the canonical form, and the locations that depend on it.
-/
import Waymark.Proofs.Router.Generation

namespace Waymark

namespace Path

variable {cs ds tail : List Char} {parts : List (List Char)} {a b : String}

/-! ### Segments and what closes them -/

/-- What is behind the segments in a canonical form. -/
def closing (cs : List Char) : List Char :=
  if segments cs = [] ∨ cs.getLast? = some '/' then ['/'] else []

theorem closing_eq (cs : List Char) : closing cs = [] ∨ closing cs = ['/'] := by
  rw [closing]
  split
  · exact Or.inr rfl
  · exact Or.inl rfl

theorem rebuild_eq (cs : List Char) : rebuild cs = spell (segments cs) ++ closing cs := by
  rw [rebuild, closing]
  cases segments cs with
  | nil => rfl
  | cons s rest =>
    rw [spell_eq_cons]
    simp

/-- A text is rebuilt from its segments and what closes them, so these determine it. -/
theorem rebuild_eq_iff : rebuild cs = rebuild ds ↔ segments cs = segments ds ∧
    (segments cs ≠ [] → (cs.getLast? = some '/' ↔ ds.getLast? = some '/')) := by
  have place : ∀ cs, Boundary (closing cs) ∧ nextSegment? (closing cs) = none := by
    intro cs
    rcases closing_eq cs with nothing | slash
    · rw [nothing]
      exact ⟨boundary_nil, rfl⟩
    · rw [slash]
      exact ⟨boundary_slash _, rfl⟩
  rw [rebuild_eq, rebuild_eq]
  constructor
  · intro same
    obtain ⟨sameSegments, sameClosing⟩ := spell_append_inj
      (fun _ member => isSegment_of_mem_segments member)
      (fun _ member => isSegment_of_mem_segments member)
      (place cs).1 (place ds).1 (place cs).2 (place ds).2 same
    refine ⟨sameSegments, fun nonempty => ?_⟩
    rw [closing, closing, ← sameSegments] at sameClosing
    by_cases last : cs.getLast? = some '/' <;> by_cases last' : ds.getLast? = some '/' <;>
      simp_all
  · rintro ⟨sameSegments, sameLast⟩
    have sameClosing : closing cs = closing ds := by
      rw [closing, closing, ← sameSegments]
      by_cases nothing : segments cs = []
      · rw [if_pos (Or.inl nothing), if_pos (Or.inl nothing)]
      · simp only [nothing, false_or, sameLast nothing]
    rw [sameSegments, sameClosing]

/-! ### Canonical texts -/

theorem rebuild_of_isCanonicalChars (canonical : isCanonicalChars cs = true) :
    rebuild cs = cs := by
  obtain ⟨parts, tail, rfl, all, ending⟩ := exists_spell_of_isCanonicalChars canonical
  have last := getLast?_spell fun s member => ⟨(all s member).compact.1, (all s member).compact.2.2.1⟩
  rcases ending with rfl | rfl
  · -- there is a segment, since the text begins with a slash
    have nonempty : parts ≠ [] := by
      rintro rfl
      exact absurd canonical (by decide)
    rw [List.append_nil, rebuild_eq, closing, segments_spell all, if_neg, List.append_nil]
    rintro (nothing | isSlash)
    · exact nonempty nothing
    · exact last isSlash
  · rw [rebuild_eq, closing, segments_append_slash, segments_spell all, if_pos]
    exact Or.inr (by rw [List.getLast?_concat])

theorem unifySlashes_of_not_mem (plain : '\\' ∉ cs) : unifySlashes cs = cs := by
  refine (List.map_congr_left fun c member => ?_).trans (List.map_id cs)
  show (if c = '\\' then '/' else c) = c
  rw [if_neg]
  rintro rfl
  exact plain member

/-- A canonical text, which is returned as it is, would be rebuilt as it is. -/
theorem normalizeChars_eq (cs : List Char) : normalizeChars cs = rebuild (unifySlashes cs) := by
  rw [normalizeChars]
  by_cases canonical : isCanonicalChars cs = true
  · rw [if_pos canonical, unifySlashes_of_not_mem (isCanonicalChars_iff.mp canonical).2.2,
      rebuild_of_isCanonicalChars canonical]
  · rw [if_neg canonical]

/-- With slashes for backslashes, the texts have the same segments, and both or neither have a slash
at the end, unless there are no segments. -/
def Alike (a b : String) : Prop :=
  segments (unifySlashes a.toList) = segments (unifySlashes b.toList) ∧
  (segments (unifySlashes a.toList) ≠ [] →
    ((unifySlashes a.toList).getLast? = some '/' ↔ (unifySlashes b.toList).getLast? = some '/'))

theorem normalize_eq_iff : normalize a = normalize b ↔ Alike a b := by
  rw [normalize, normalize, String.ofList_inj, normalizeChars_eq, normalizeChars_eq, rebuild_eq_iff,
    Alike]

end Path

namespace Router

open Waymark.Path (Alike)

/-- The location of a path determines its canonical form. -/
theorem resolvePath_eq_iff (r : Router) (a b : String) :
    r.resolvePath a = r.resolvePath b ↔ Alike a b := by
  rw [← Path.normalize_eq_iff]
  constructor
  · intro same
    rw [← path_resolvePath r a, ← path_resolvePath r b, same]
  · intro same
    rw [resolvePath, resolvePath, same]

/-- The canonical form of a path is canonical, and a canonical path is its own.  It can always be
rebuilt from the segments, and it is the same for paths that are alike and for no others.  So are the
locations of two paths, in every router. -/
theorem normalize_isCanonicalForm :
    (∀ path, Path.isCanonical (Path.normalize path) = true) ∧
    (∀ path, Path.isCanonical path = true → Path.normalize path = path) ∧
    (∀ path, Path.normalize path = String.ofList (Path.rebuild (Path.unifySlashes path.toList))) ∧
    (∀ a b, Path.normalize a = Path.normalize b ↔ Alike a b) ∧
    ∀ (r : Router) (a b : String), r.resolvePath a = r.resolvePath b ↔ Alike a b := by
  refine ⟨Path.isCanonical_normalize, fun path => Path.normalize_of_isCanonical, fun path => ?_,
    fun a b => Path.normalize_eq_iff, resolvePath_eq_iff⟩
  rw [Path.normalize, Path.normalizeChars_eq]

end Router
end Waymark
