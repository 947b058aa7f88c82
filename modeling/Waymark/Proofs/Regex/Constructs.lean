/-
The constructs of an expression.

What a construct does to the state of the reader (`Action`) is told apart from the text that
it is read from: the state matters for the reading only by its mode.  So a construct, the
start of a capturing group apart, is read from every longer text.

* `readConstruct_eq` — a construct is read and then done;
* `readAll_eq` — a text is read construct by construct;
* `readAction_append` — a construct in a longer text.
-/
import Waymark.Proofs.Regex.Classes

namespace Waymark.Regex

variable {extended : Bool} {c : Char} {cs rest after : List Char} {r r' : Reading}

/-- What a construct does to the state of the reader. -/
inductive Action
  | push (tree : Tree)
  | setFlags (changes : FlagChanges)
  | openGroup (changes : FlagChanges)
  | capture (name : Option String)
  | close
  | alternate
  | repeatLast (least : Nat) (most : Option Nat) (greedy : Bool)

/-- The state after a construct. -/
def Action.act? (r : Reading) : Action → Option Reading
  | .push tree => some (r.push tree)
  | .setFlags changes =>
    some ({ r with extended := (changes.lookup Flag.ignoreWhitespace).getD r.extended }.push
      (.flags changes))
  | .openGroup changes => some (r.openGroup none changes)
  | .capture none => some r.openCapture
  | .capture (some name) =>
    if r.names.contains name then none
    else some { r.openCapture with names := name :: r.names }
  | .close => r.closeGroup?
  | .alternate => some r.alternate
  | .repeatLast least most greedy => r.repeatLast? least most greedy

/-- Reads what an opening parenthesis starts. -/
def readGroupAction (extended : Bool) (cs : List Char) : Option (Action × List Char) :=
  match skipBlank extended cs with
  | '?' :: '=' :: _ => none
  | '?' :: '!' :: _ => none
  | '?' :: '<' :: '=' :: _ => none
  | '?' :: '<' :: '!' :: _ => none
  | '?' :: 'P' :: '<' :: rest =>
    (readGroupName rest).map fun name => (.capture (some (String.ofList name.1)), name.2)
  | '?' :: '<' :: rest =>
    (readGroupName rest).map fun name => (.capture (some (String.ofList name.1)), name.2)
  | '?' :: rest =>
    (readFlags true false [] rest).bind fun flags =>
      if flags.2.1 = ':' then some (.openGroup flags.1, flags.2.2)
      else if flags.1.isEmpty then none
      else some (.setFlags flags.1, flags.2.2)
  | rest => some (.capture none, rest)

theorem readGroupStart_eq (r : Reading) (cs : List Char) :
    readGroupStart r cs = (readGroupAction r.extended cs).bind fun step =>
      (step.1.act? r).map fun r' => (r', step.2) := by
  have named : ∀ rest, r.openNamed? rest = ((readGroupName rest).map fun name =>
      (Action.capture (some (String.ofList name.1)), name.2)).bind fun step =>
        (step.1.act? r).map fun r' => (r', step.2) := by
    intro rest
    rw [Reading.openNamed?]
    cases readGroupName rest with
    | none => rfl
    | some name =>
      simp only [Option.map_some, Option.bind_some, Action.act?]
      show (if r.names.contains (String.ofList name.1) then none else _) = _
      split <;> rfl
  unfold readGroupStart readGroupAction
  generalize skipBlank r.extended cs = start
  split
  all_goals try simp only
  case h_5 => exact named _
  case h_6 => exact named _
  case h_7 rest _ _ _ _ _ _ =>
    cases readFlags true false [] rest with
    | none => rfl
    | some flags =>
      obtain ⟨changes, last, after⟩ := flags
      simp only [Option.bind_some]
      show (if last = ':' then _ else _) = _
      split
      · rfl
      · split <;> rfl
  all_goals rfl

/-- Reads the construct that begins with `c`. -/
def readAction (extended : Bool) (c : Char) (rest : List Char) : Option (Action × List Char) :=
  match c with
  | '(' => readGroupAction extended rest
  | ')' => some (.close, rest)
  | '|' => some (.alternate, rest)
  | '[' => (readBracket extended rest).map fun class_ =>
      (.push (.bracketed class_.1 class_.2.1), class_.2.2)
  | '?' => some (.repeatLast 0 (some 1) (readGreed rest).1, (readGreed rest).2)
  | '*' => some (.repeatLast 0 none (readGreed rest).1, (readGreed rest).2)
  | '+' => some (.repeatLast 1 none (readGreed rest).1, (readGreed rest).2)
  | '{' => (readBounds extended rest).map fun bounds =>
      (.repeatLast bounds.1 bounds.2.1 (readGreed bounds.2.2).1, (readGreed bounds.2.2).2)
  | '\\' => (readEscape extended rest).map fun escape => (.push escape.1.tree, escape.2)
  | '.' => some (.push .dot, rest)
  | '^' => some (.push (.assertion .startLine), rest)
  | '$' => some (.push (.assertion .endLine), rest)
  | c => some (.push (.literal ⟨c, false⟩), rest)

theorem readConstruct_eq (r : Reading) (c : Char) (rest : List Char) :
    readConstruct r c rest = (readAction r.extended c rest).bind fun step =>
      (step.1.act? r).map fun r' => (r', step.2) := by
  unfold readConstruct readAction
  split
  rename_i greedy after isGreed
  split
  case h_1 => exact readGroupStart_eq r rest
  case h_4 =>
    simp only
    cases readBracket r.extended rest <;> rfl
  case h_8 =>
    simp only
    cases readBounds r.extended rest <;> rfl
  case h_9 =>
    simp only
    cases readEscape r.extended rest <;> rfl
  case h_13 =>
    simp only
    rfl
  case h_5 | h_6 | h_7 =>
    simp only [isGreed]
    rfl
  all_goals rfl

theorem readAll_eq (r : Reading) (cs : List Char) :
    readAll r cs =
      match skipBlank r.extended cs with
      | [] => r.finish?
      | c :: rest =>
        (readAction r.extended c rest).bind fun step =>
          (step.1.act? r).bind fun r' =>
            if step.2.length < cs.length then readAll r' step.2 else none := by
  rw [readAll.eq_def]
  generalize skipBlank r.extended cs = start
  cases start with
  | nil => rfl
  | cons c rest =>
    simp only [readConstruct_eq]
    cases readAction r.extended c rest with
    | none => rfl
    | some step =>
      simp only [Option.bind_some]
      cases step.1.act? r <;> rfl

/-! ### Constructs in longer texts -/

theorem readGroupAction_append {action : Action}
    (read : readGroupAction extended cs = some (action, after))
    (noCapture : ∀ name, action ≠ .capture name) (t : List Char) :
    readGroupAction extended (cs ++ t) = some (action, after ++ t) := by
  unfold readGroupAction at read ⊢
  have nonempty : skipBlank extended cs ≠ [] := by
    intro empty
    rw [empty] at read
    cases read
    exact noCapture none rfl
  rw [skipBlank_append nonempty]
  generalize skipBlank extended cs = start at read
  split at read
  case h_5 =>
    obtain ⟨name, -, same⟩ := Option.map_eq_some_iff.mp read
    cases same
    exact absurd rfl (noCapture _)
  case h_6 =>
    obtain ⟨name, -, same⟩ := Option.map_eq_some_iff.mp read
    cases same
    exact absurd rfl (noCapture _)
  case h_7 rest _ _ _ _ _ _ =>
    obtain ⟨⟨changes, last, left⟩, isFlags, found⟩ := Option.bind_eq_some_iff.mp read
    have longer := readFlags_append isFlags t
    cases rest with
    | nil => exact absurd isFlags (by simp [readFlags])
    | cons d rest =>
      -- no flag is one of the characters that may begin another kind of group
      have letters : d ≠ '=' ∧ d ≠ '!' ∧ d ≠ '<' ∧ d ≠ 'P' := by
        refine ⟨?_, ?_, ?_, ?_⟩ <;> rintro rfl <;>
          exact absurd isFlags (by simp [readFlags, Flag.ofLetter?])
      rw [List.cons_append, List.cons_append]
      rw [List.cons_append] at longer
      have second : ∀ {e tail}, '?' :: d :: (rest ++ t) = '?' :: e :: tail → d = e :=
        fun same => (List.cons.inj (List.cons.inj same).2).1
      split
      case h_1 same => exact absurd (second same) letters.1
      case h_2 same => exact absurd (second same) letters.2.1
      case h_3 same => exact absurd (second same) letters.2.2.1
      case h_4 same => exact absurd (second same) letters.2.2.1
      case h_5 same => exact absurd (second same) letters.2.2.2
      case h_6 same => exact absurd (second same) letters.2.2.1
      case h_7 same =>
        cases same
        rw [longer, Option.bind_some]
        simp only at found ⊢
        split at found
        · rename_i colon
          cases found
          rw [if_pos colon]
        · rename_i noColon
          rw [if_neg noColon]
          split at found
          · exact absurd found (by simp)
          · rename_i some
            cases found
            rw [if_neg some]
      case h_8 other => exact absurd rfl (other _)
  case h_8 =>
    cases read
    exact absurd rfl (noCapture none)
  all_goals exact absurd read (by simp)

theorem readGreed_append (h : rest ≠ []) (t : List Char) :
    readGreed (rest ++ t) = ((readGreed rest).1, (readGreed rest).2 ++ t) := by
  obtain ⟨c, cs, rfl⟩ := List.exists_cons_of_ne_nil h
  rw [List.cons_append]
  unfold readGreed
  split
  · rename_i same
    cases same
    rfl
  · rename_i noMark
    split
    · rename_i same
      exact absurd (by rw [(List.cons.inj same).1]) (noMark (cs ++ t))
    · rfl

/-- A construct is read from every longer text, if it does not capture; where it does not close a
group, some of the text must be left. -/
theorem readAction_append {action : Action}
    (read : readAction extended c rest = some (action, after))
    (noCapture : ∀ name, action ≠ .capture name) (more : action = .close ∨ after ≠ [])
    (t : List Char) : readAction extended c (rest ++ t) = some (action, after ++ t) := by
  have marks : (readGreed rest).2 = after → after ≠ [] →
      readGreed (rest ++ t) = ((readGreed rest).1, after ++ t) := by
    intro isAfter nonempty
    have goes : rest ≠ [] := by
      rintro rfl
      exact nonempty isAfter.symm
    rw [readGreed_append goes, isAfter]
  unfold readAction at read ⊢
  split at read
  case h_1 => exact readGroupAction_append read noCapture t
  case h_4 =>
    obtain ⟨⟨negated, body, left⟩, isClass, same⟩ := Option.map_eq_some_iff.mp read
    cases same
    simp only
    rw [readBracket_append isClass]
    rfl
  case h_8 =>
    obtain ⟨⟨least, most, left⟩, isBounds, same⟩ := Option.map_eq_some_iff.mp read
    cases same
    have nonempty := more.resolve_left (by simp)
    have goes : left ≠ [] := by
      rintro rfl
      exact nonempty rfl
    simp only
    rw [readBounds_append isBounds goes, Option.map_some, readGreed_append goes]
  case h_9 =>
    obtain ⟨⟨escape, left⟩, isEscape, same⟩ := Option.map_eq_some_iff.mp read
    cases same
    simp only
    rw [local_readEscape isEscape (more.resolve_left (by simp))]
    rfl
  case h_13 =>
    cases read
    simp only
  case h_5 | h_6 | h_7 =>
    cases read
    simp only [marks rfl (more.resolve_left (by simp))]
  all_goals
    cases read
    rfl

end Waymark.Regex
