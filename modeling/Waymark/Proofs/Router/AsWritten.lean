/-
Paths as they are written.

The path of a route is collapsed before it is compiled.  That changes nothing, unless a constraint
of the path holds two slashes in a row: the constraint is part of the path too, so it loses one of
them, and then it may match other texts.

* `toOption_ofPattern_collapse` — a collapsed path is compiled into the same matcher;
* `reads_as_written_iff` — exactly which paths are read as they are written, and the matchers of
  their routes after any run;
* `exists_not_read_as_written` — a constraint that matches another text when it is collapsed.
-/
import Waymark.Proofs.Pattern.Collapse
import Waymark.Proofs.Router.EmptyPath

namespace Waymark

namespace Matcher

variable {raw : String} {tokens : List Token}

theorem eq_ok_of_toOption {ε α : Type} {x : Except ε α} {a : α} (h : x.toOption = some a) :
    x = .ok a := by
  cases x with
  | error e => exact absurd h (by simp [Except.toOption])
  | ok b => rw [Option.some.inj h]

theorem endsWithSlash_collapse (tokenized : Pattern.tokenize raw = .ok tokens)
    (nonempty : tokens ≠ []) : endsWithSlash (Path.collapse raw) = endsWithSlash raw := by
  have some : raw.toList ≠ [] := by
    intro none
    have read := (Pattern.tokenize_eq_ok tokenized).1
    rw [none, Pattern.readTokens] at read
    exact nonempty (Except.ok.inj read).symm
  rw [endsWithSlash, endsWithSlash, Path.getLast?_collapse some]

/-- If no constraint has two slashes in a row, the collapsed path is compiled into the same matcher,
or neither is compiled. -/
theorem toOption_ofPattern_collapse
    (single : ∀ tokens, Pattern.tokenize raw = .ok tokens → Pattern.SingleSlashed tokens)
    (options : PatternOptions) :
    (ofPattern (Path.collapse raw) options).toOption = (ofPattern raw options).toOption := by
  have same := (Pattern.toOption_tokenize_collapse_eq_iff raw).mpr single
  cases tokenized : Pattern.tokenize raw with
  | error error =>
    rw [tokenized] at same
    cases collapsed : Pattern.tokenize (Path.collapse raw) with
    | error error' => simp only [ofPattern, tokenized, collapsed, Except.toOption]
    | ok tokens =>
      rw [collapsed] at same
      exact absurd same (by simp [Except.toOption])
  | ok tokens =>
    rw [tokenized] at same
    have collapsed := eq_ok_of_toOption same
    have slash : (options.strict && !tokens.isEmpty && endsWithSlash (Path.collapse raw)) =
        (options.strict && !tokens.isEmpty && endsWithSlash raw) := by
      by_cases nonempty : tokens = []
      · rw [nonempty, List.isEmpty_nil, Bool.not_true, Bool.and_false, Bool.false_and,
          Bool.false_and]
      · rw [endsWithSlash_collapse tokenized nonempty]
    simp only [ofPattern, tokenized, collapsed, slash]

end Matcher

namespace Router

/-- Collapsing a path collapses its constraints, and does nothing else to its tokens.  So a path
without a parent is read as it is written if and only if none of its constraints holds two slashes
in a row.  Then it is compiled as it is written too, and so are, after any run, the entries that were
made for it and have no parent. -/
theorem reads_as_written_iff (raw : String) :
    (Pattern.tokenize (Path.resolve raw none)).toOption =
        (Pattern.tokenize raw).toOption.map (List.map Token.squeeze) ∧
      ((Pattern.tokenize (Path.resolve raw none)).toOption = (Pattern.tokenize raw).toOption ↔
        ∀ tokens, Pattern.tokenize raw = .ok tokens → Pattern.SingleSlashed tokens) ∧
      ((∀ tokens, Pattern.tokenize raw = .ok tokens → Pattern.SingleSlashed tokens) →
        (∀ settings, (Matcher.ofPattern (Path.resolve raw none) settings).toOption =
          (Matcher.ofPattern raw settings).toOption) ∧
        ∀ options lineage changes n node e, Made options lineage changes n node raw →
          ((new options lineage).run changes).registry.get? n = some e → e.parent = none →
            Matcher.ofPattern raw (options.patternOptions node) = .ok e.matcher) := by
  refine ⟨Pattern.toOption_tokenize_collapse raw, Pattern.toOption_tokenize_collapse_eq_iff raw,
    fun single => ⟨Matcher.toOption_ofPattern_collapse single, ?_⟩⟩
  intro options lineage changes n node e made found top
  have compiled := made.compiled found
  have noParent : ((new options lineage).run changes).registry.patternOf? e.parent = none := by
    rw [top]
    rfl
  have same := Matcher.toOption_ofPattern_collapse single (options.patternOptions node)
  rw [noParent] at compiled
  rw [show Path.collapse raw = Path.resolve raw none from rfl, compiled] at same
  exact Matcher.eq_ok_of_toOption same.symm

/-- The constraint is there to match a slash or several, but when the path is collapsed it matches
no slash at all too. -/
theorem exists_not_read_as_written :
    Pattern.tokenize "/:a(x//*y)" = .ok [.param ⟨"a", some "x//*y", false, false⟩] ∧
      Pattern.tokenize (Path.resolve "/:a(x//*y)" none) =
        .ok [.param ⟨"a", some "x/*y", false, false⟩] ∧
      (∃ m, Matcher.ofPattern "/:a(x//*y)" ⟨false, false⟩ = .ok m ∧ m.recognize "/xy" = none) ∧
      (((new {} 0).run [.add { path := "/:a(x//*y)" }]).resolvePath "/xy").isFound = true := by
  have evaluated : (Matcher.ofPattern "/:a(x//*y)" ⟨false, false⟩).map (fun m =>
      m.recognize "/xy") = .ok none := by
    cbv
  obtain ⟨m, compiled, missed⟩ := Pattern.exists_of_map_eq_ok evaluated
  exact ⟨by cbv, by cbv, ⟨m, compiled, missed.symm⟩, by cbv⟩

end Router
end Waymark
