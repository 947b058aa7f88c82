/-
Reading the tokens of a pattern.

A segment that begins with a colon is a param: a name, then perhaps a constraint in
parentheses, then perhaps one of the marks `?`, `+` and `*`.  In a constraint a slash
does not end the segment, parentheses nest, and a backslash takes the next character
with it.  Every other segment is literal text, except that a bare asterisk stands for
the catch-all param.
-/
import Waymark.Error
import Waymark.Pattern.Token

namespace Waymark.Pattern

/-- Whether the name of a param may hold the character. -/
def isNameChar (c : Char) : Bool := c.isAlphanum || c = '_'

/-- Reads a constraint up to the parenthesis that closes it; `depth` more parentheses are open
inside of it.  `none` if it never closes. -/
def readConstraint (depth : Nat) : List Char → Option (List Char × List Char)
  | [] => none
  | '\\' :: cs =>
    match cs with
    | [] => none
    | c :: rest => (readConstraint depth rest).map fun (source, after) =>
      ('\\' :: c :: source, after)
  | c :: rest =>
    if c = ')' then
      match depth with
      | 0 => some ([], rest)
      | depth + 1 => (readConstraint depth rest).map fun (source, after) => (c :: source, after)
    else
      (readConstraint (if c = '(' then depth + 1 else depth) rest).map fun (source, after) =>
        (c :: source, after)

/-- Reads what may follow the name of a param, up to its mark. -/
def readConstraint? (name : String) (cs : List Char) :
    Except PatternFault (Option String × List Char) :=
  match cs with
  | '(' :: rest =>
    match readConstraint 0 rest with
    | none => .error (.unterminated name)
    | some ([], _) => .error (.emptyConstraint name)
    | some (source, after) => .ok (some (String.ofList source), after)
  | _ => .ok (none, cs)

/-- Reads the mark after a param: whether it is optional and whether it is repeatable. -/
def readModifier (cs : List Char) : (Bool × Bool) × List Char :=
  match cs with
  | '?' :: rest => ((true, false), rest)
  | '+' :: rest => ((false, true), rest)
  | '*' :: rest => ((true, true), rest)
  | _ => ((false, false), cs)

/-- Reads a param, its colon read already.  A slash or the end of the pattern follows it. -/
def readParam (cs : List Char) : Except PatternFault (Param × List Char) := do
  let name := String.ofList (cs.takeWhile isNameChar)
  if name.isEmpty then throw .missingName
  let (constraint, rest) ← readConstraint? name (cs.dropWhile isNameChar)
  let ((optional, repeatable), rest) := readModifier rest
  match rest with
  | [] => return (⟨name, constraint, optional, repeatable⟩, [])
  | '/' :: _ => return (⟨name, constraint, optional, repeatable⟩, rest)
  | _ => throw (.strayText (String.ofList rest) name)

/-- The token of a segment without a colon in front. -/
def literalToken (text : List Char) : Token :=
  if text = ['*'] then .param Param.catchAll else .literal (String.ofList text)

/-- What comes before the next slash. -/
def untilSlash (cs : List Char) : List Char := cs.takeWhile (· ≠ '/')

/-- What is left from the next slash on. -/
def fromSlash (cs : List Char) : List Char := cs.dropWhile (· ≠ '/')

theorem length_readConstraint {depth : Nat} {cs source after : List Char}
    (h : readConstraint depth cs = some (source, after)) : after.length < cs.length := by
  fun_induction readConstraint depth cs generalizing source with
  | case1 => simp at h
  | case2 => simp at h
  | case3 depth c rest ih =>
    obtain ⟨⟨source', after'⟩, found, same⟩ := Option.map_eq_some_iff.1 h
    cases same
    have := ih found
    simp only [List.length_cons]
    omega
  | case4 => simp_all
  | case5 rest depth _ ih =>
    obtain ⟨⟨source', after'⟩, found, same⟩ := Option.map_eq_some_iff.1 h
    cases same
    have := ih found
    simp only [List.length_cons]
    omega
  | case6 depth c rest _ _ ih =>
    obtain ⟨⟨source', after'⟩, found, same⟩ := Option.map_eq_some_iff.1 h
    cases same
    have := ih found
    simp only [List.length_cons]
    omega

theorem length_readConstraint? {name : String} {cs after : List Char} {c : Option String}
    (h : readConstraint? name cs = .ok (c, after)) : after.length ≤ cs.length := by
  unfold readConstraint? at h
  split at h
  · split at h
    · simp at h
    · simp at h
    · rename_i found
      cases h
      have := length_readConstraint found
      simp only [List.length_cons]
      omega
  · cases h
    exact Nat.le_refl _

theorem length_readModifier (cs : List Char) : (readModifier cs).2.length ≤ cs.length := by
  unfold readModifier
  split <;> simp

theorem length_dropWhile_le (p : Char → Bool) (cs : List Char) :
    (cs.dropWhile p).length ≤ cs.length := (List.dropWhile_sublist p).length_le

theorem length_readParam {cs after : List Char} {p : Param}
    (h : readParam cs = .ok (p, after)) : after.length ≤ cs.length := by
  unfold readParam at h
  simp only [bind, Except.bind, pure, Except.pure, throw, throwThe, MonadExceptOf.throw] at h
  split at h
  · simp at h
  · split at h
    · simp at h
    · rename_i found
      have bound := length_readConstraint? found
      have modifier := length_readModifier (Prod.snd ‹_›)
      have name := length_dropWhile_le isNameChar cs
      split at h
      · cases h
        simp
      · cases h
        omega
      · simp at h

/-- Reads the tokens of a text. -/
def readTokens (cs : List Char) : Except PatternFault (List Token) :=
  match cs with
  | [] => .ok []
  | '/' :: rest => readTokens rest
  | ':' :: rest =>
    match h : readParam rest with
    | .error fault => .error fault
    | .ok (p, after) =>
      have : after.length < (':' :: rest).length := Nat.lt_succ_of_le (length_readParam h)
      (readTokens after).map (.param p :: ·)
  | c :: rest =>
    have : (fromSlash rest).length < (c :: rest).length :=
      Nat.lt_succ_of_le (length_dropWhile_le _ rest)
    (readTokens (fromSlash rest)).map (literalToken (c :: untilSlash rest) :: ·)
termination_by cs.length
decreasing_by all_goals first | assumption | exact Nat.lt_succ_self _

/-- The first name that comes a second time. -/
def repeatedName? (seen : List String) : List String → Option String
  | [] => none
  | name :: rest => if seen.contains name then some name else repeatedName? (name :: seen) rest

/-- The tokens of a pattern, whose params have names of their own. -/
def tokenize (pattern : String) : Except DefinitionError (List Token) :=
  match readTokens pattern.toList with
  | .error fault => .error (.invalidPattern pattern fault)
  | .ok tokens =>
    match repeatedName? [] ((params tokens).map (·.name)) with
    | some name => .error (.invalidPattern pattern (.repeatedParam name))
    | none => .ok tokens

end Waymark.Pattern
