/-
Relative paths under a pattern.

A relative path is put under the text of its parent's pattern: the slashes at the end of the
pattern go, a slash and the path follow, and the whole is read anew.  The reader comes to the path
with nothing left open, because the text of a pattern is that of its tokens, and each of them ends
at the slash behind it.  From there it reads what it reads of the path alone, but for the slashes
that are collapsed in constraints.

* `Matcher.tokenize_nested_iff` — the tokens under a pattern are its own and those of the path;
* `InUse` — the matchers under which something may be nested;
* `nested_is_append` — tokens, keys and score of a relative path without repeated slashes in its
  constraints.
-/
import Waymark.Proofs.Pattern.Collapse
import Waymark.Proofs.Router.Inheritance
import Waymark.Proofs.Score.Tokens

namespace Waymark

namespace Pattern

variable {pattern : String} {tokens own : List Token}

theorem tokenize_eq_ok_iff : tokenize pattern = .ok tokens ↔
    readTokens pattern.toList = .ok tokens ∧ ((params tokens).map (·.name)).Nodup := by
  refine ⟨fun h => ⟨(tokenize_eq_ok h).1, names_nodup_of_tokenize h⟩, fun ⟨read, distinct⟩ => ?_⟩
  have unrepeated := @repeatedName?_of_nodup _ [] distinct fun _ _ => List.not_mem_nil
  simp only [tokenize, read, unrepeated]

theorem params_append (tokens own : List Token) :
    params (tokens ++ own) = params tokens ++ params own := List.filterMap_append

end Pattern

namespace Matcher

variable {m child : Matcher} {raw : String} {tokens : List Token}

theorem declares_eq_false_iff {name : String} :
    m.declares name = false ↔ name ∉ (Pattern.params m.tokens).map (·.name) := by
  rw [declares, List.any_eq_false, keys, List.forall_mem_map, List.mem_map, not_exists]
  refine forall_congr' fun p => ?_
  rw [not_and, decide_eq_true_iff]
  rfl

/-- The names that a pattern and a path under it declare are different exactly if those of the path
are, and none of them is declared by the pattern. -/
theorem nodup_names_append_iff (registrable : m.Registrable) (own : List Token) :
    ((Pattern.params (m.tokens ++ own)).map (·.name)).Nodup ↔
      ((Pattern.params own).map (·.name)).Nodup ∧
        ∀ p ∈ Pattern.params own, m.declares p.name = false := by
  have distinct := Pattern.names_nodup_of_tokenize registrable.tokenize_pattern
  rw [Pattern.params_append, List.map_append, List.nodup_append']
  simp only [distinct, true_and, declares_eq_false_iff]
  rw [List.disjoint_comm, List.disjoint_left, List.forall_mem_map]

/-- A relative path is read under a pattern exactly if it is read alone and declares no param of the
pattern.  Its tokens come after those of the pattern. -/
theorem tokenize_nested_iff (registrable : m.Registrable) (relative : raw.toList.head? ≠ some '/') :
    Pattern.tokenize (Path.resolve raw (some m.pattern)) = .ok tokens ↔
      ∃ own, Pattern.tokenize raw = .ok own ∧
        (∀ p ∈ Pattern.params own, m.declares p.name = false) ∧
        tokens = m.tokens ++ own.map Token.squeeze := by
  rw [Pattern.tokenize_eq_ok_iff, Matcher.pattern,
    readTokens_resolve registrable.wellFormed registrable.compact _ relative,
    Pattern.readTokens_collapseFrom]
  have names : ∀ own : List Token, ((Pattern.params (m.tokens ++ own.map Token.squeeze)).map
      (·.name)) = (Pattern.params (m.tokens ++ own)).map (·.name) := by
    intro own
    rw [Pattern.params_append, Pattern.params_append, List.map_append, List.map_append,
      Pattern.names_map_squeeze]
  constructor
  · rintro ⟨read, distinct⟩
    obtain ⟨own, readOwn, rfl⟩ : ∃ own, Pattern.readTokens raw.toList = .ok own ∧
        tokens = m.tokens ++ own.map Token.squeeze := by
      cases readOwn : Pattern.readTokens raw.toList with
      | error fault =>
        rw [readOwn] at read
        exact absurd read (by simp [Except.map, Except.mapError])
      | ok own =>
        rw [readOwn] at read
        exact ⟨own, rfl, (Except.ok.inj read).symm⟩
    rw [names, nodup_names_append_iff registrable] at distinct
    exact ⟨own, Pattern.tokenize_eq_ok_iff.mpr ⟨readOwn, distinct.1⟩, distinct.2, rfl⟩
  · rintro ⟨own, tokenized, apart, rfl⟩
    obtain ⟨readOwn, distinct⟩ := Pattern.tokenize_eq_ok_iff.mp tokenized
    rw [readOwn, names, nodup_names_append_iff registrable]
    exact ⟨rfl, distinct, apart⟩

end Matcher

namespace Router

/-- A matcher under which something may be nested: one that was made for a plan, even for one that
fails afterwards, or one that is in the registry after some run. -/
inductive InUse : Matcher → Prop
  | planned {options : RouterOptions} {d : Definition} {above : Option Plan.Parent} {raw : String}
      {m : Matcher} (compiled : Matcher.ofPattern (Path.resolve raw (above.map (·.path)))
        (options.patternOptions d) = .ok m) : InUse m
  | registered {options : RouterOptions} {lineage : Nat} {changes : List Change} {id : Nat}
      {e : Entry} (found : ((new options lineage).run changes).registry.get? id = some e) :
      InUse e.matcher

theorem InUse.registrable {m : Matcher} (h : InUse m) : m.Registrable := by
  cases h with
  | planned compiled => exact Matcher.registrable_of_resolve compiled
  | registered found => exact (inherited_run _ _ _).registrable found

/-- A relative path without repeated slashes in its constraints is put under a pattern token by
token.  It is read there exactly if it is read alone and shares no param with the pattern, and what
is compiled has the tokens, keys and entries of the score of both, one after the other. -/
theorem nested_is_append {m : Matcher} (inUse : InUse m) {raw : String}
    (relative : raw.toList.head? ≠ some '/')
    (single : ∀ tokens, Pattern.tokenize raw = .ok tokens → Pattern.SingleSlashed tokens) :
    (∀ tokens, Pattern.tokenize (Path.resolve raw (some m.pattern)) = .ok tokens ↔
      ∃ own, Pattern.tokenize raw = .ok own ∧
        (∀ p ∈ Pattern.params own, m.declares p.name = false) ∧ tokens = m.tokens ++ own) ∧
    ∀ settings child,
      Matcher.ofPattern (Path.resolve raw (some m.pattern)) settings = .ok child →
        ∃ own, Pattern.tokenize raw = .ok own ∧ child.tokens = m.tokens ++ own ∧
          child.keys = m.keys ++ (Pattern.params own).map Param.key ∧
          child.score = m.score.followedBy (Score.ofTokens own) := by
  have nested : ∀ tokens, Pattern.tokenize (Path.resolve raw (some m.pattern)) = .ok tokens ↔
      ∃ own, Pattern.tokenize raw = .ok own ∧
        (∀ p ∈ Pattern.params own, m.declares p.name = false) ∧ tokens = m.tokens ++ own := by
    intro tokens
    rw [Matcher.tokenize_nested_iff inUse.registrable relative]
    refine exists_congr fun own => and_congr_right fun tokenized => ?_
    rw [Pattern.map_squeeze_eq_self_iff.mpr (single own tokenized)]
  refine ⟨nested, fun settings child compiled => ?_⟩
  obtain ⟨own, tokenized, -, isTokens⟩ := (nested _).mp (Matcher.ofPattern_eq_ok compiled).1
  refine ⟨own, tokenized, isTokens, Matcher.keys_of_tokens_append isTokens, ?_⟩
  rw [Matcher.score, isTokens, Score.ofTokens_append, Matcher.score]

/-- The parent is strict and ends in a slash, and a constraint of the child has a slash of its own. -/
theorem nested_is_append_strict : ∃ m child, InUse m ∧ m.pattern = "/:a/" ∧
    Matcher.ofPattern (Path.resolve ":b(x/y)?" (some m.pattern)) ⟨false, false⟩ = .ok child ∧
      ∃ own, Pattern.tokenize ":b(x/y)?" = .ok own ∧ child.tokens = m.tokens ++ own ∧
        child.keys = m.keys ++ (Pattern.params own).map Param.key ∧
        child.score = m.score.followedBy (Score.ofTokens own) := by
  obtain ⟨m, planned, isTokens⟩ := @Matcher.exists_ofPattern_of_accepted "/:a/"
    [.param ⟨"a", none, false, false⟩] ⟨false, true⟩ (by cbv) (by decide)
    (show (Regex.ofSource? "^/((?:[^/]+))/$").isSome = true by cbv)
  have isPattern : m.pattern = "/:a/" := by
    rw [Matcher.pattern, (Matcher.ofPattern_eq_ok planned).2.1, isTokens]
    decide
  have isPath : Path.resolve ":b(x/y)?" (some m.pattern) = "/:a/:b(x/y)?" := by
    rw [isPattern]
    decide
  obtain ⟨child, compiled⟩ := Pattern.exists_of_isOk
    (show (Matcher.ofPattern "/:a/:b(x/y)?" ⟨false, false⟩).isOk = true by cbv)
  rw [← isPath] at compiled
  have resolved : Path.resolve "/:a/" none = "/:a/" := by decide
  rw [← resolved] at planned
  have inUse : InUse m := @InUse.planned { strict := true } { path := "/:a/" } none _ _ planned
  have isOwn : Pattern.tokenize ":b(x/y)?" = .ok [.param ⟨"b", some "x/y", true, false⟩] := by cbv
  have single : ∀ tokens, Pattern.tokenize ":b(x/y)?" = .ok tokens →
      Pattern.SingleSlashed tokens := by
    intro tokens tokenized
    obtain rfl := Except.ok.inj (isOwn.symm.trans tokenized)
    intro p member source isSource
    obtain rfl := List.mem_singleton.mp member
    obtain rfl := Option.some.inj isSource
    decide
  exact ⟨m, child, inUse, isPattern, compiled,
    (nested_is_append inUse (by decide) single).2 _ _ compiled⟩

end Router
end Waymark
