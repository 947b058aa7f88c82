/-
Readers do not look past what they read.

A reader that stops before the end of a text has decided on the characters that it
went over and at most one more.  So it reads the same from a longer text (`Local`).

* `local_readEscape` — what a backslash introduces;
* `readBounds_append` — the bounds of a counted repetition;
* `readFlags_append` — the letters of a flag group.
-/
import Mathlib.Data.List.TakeWhile
import Waymark.Regex.Read

namespace Waymark.Regex

variable {α β : Type} {extended : Bool} {cs ds after t : List Char}

/-- What is read before the end of a text is read from every longer text. -/
def Local (read : List Char → Option (α × List Char)) : Prop :=
  ∀ ⦃cs a after⦄, read cs = some (a, after) → after ≠ [] →
    ∀ t, read (cs ++ t) = some (a, after ++ t)

/-! ### Blank text -/

theorem dropWhile_append_of_ne_nil {p : Char → Bool} (h : cs.dropWhile p ≠ []) (t : List Char) :
    (cs ++ t).dropWhile p = cs.dropWhile p ++ t := by
  induction cs with
  | nil => exact absurd rfl h
  | cons c cs ih =>
    rw [List.cons_append, List.dropWhile_cons, List.dropWhile_cons]
    rw [List.dropWhile_cons] at h
    split
    · rename_i dropped
      rw [if_pos dropped] at h
      exact ih h
    · rfl

mutual

theorem dropBlank_append (cs t : List Char) (h : dropBlank cs ≠ []) :
    dropBlank (cs ++ t) = dropBlank cs ++ t := by
  match cs with
  | [] => exact absurd rfl h
  | c :: cs =>
    rw [dropBlank] at h
    rw [List.cons_append, dropBlank, dropBlank]
    split
    · rename_i blank
      rw [if_pos blank] at h
      exact dropBlank_append cs t h
    · rename_i visible
      rw [if_neg visible] at h
      split
      · rename_i comment
        rw [if_pos comment] at h
        exact dropComment_append cs t h
      · rfl

theorem dropComment_append (cs t : List Char) (h : dropComment cs ≠ []) :
    dropComment (cs ++ t) = dropComment cs ++ t := by
  match cs with
  | [] => exact absurd rfl h
  | c :: cs =>
    rw [dropComment] at h
    rw [List.cons_append, dropComment, dropComment]
    split
    · rename_i lineEnd
      rw [if_pos lineEnd] at h
      exact dropBlank_append cs t h
    · rename_i inside
      rw [if_neg inside] at h
      exact dropComment_append cs t h

end

theorem skipBlank_append (h : skipBlank extended cs ≠ []) (t : List Char) :
    skipBlank extended (cs ++ t) = skipBlank extended cs ++ t := by
  unfold skipBlank at h ⊢
  split
  · rename_i isExtended
    rw [if_pos isExtended] at h
    exact dropBlank_append cs t h
  · rfl

theorem skipBlank_append_of_cons {c : Char} {rest : List Char}
    (h : skipBlank extended cs = c :: rest) (t : List Char) :
    skipBlank extended (cs ++ t) = c :: (rest ++ t) := by
  rw [skipBlank_append (by simp [h]), h, List.cons_append]

theorem skipBlank?_append (h : skipBlank? extended cs = some ds) (t : List Char) :
    skipBlank? extended (cs ++ t) = some (ds ++ t) := by
  unfold skipBlank? at h
  split at h
  · exact absurd h (by simp)
  · rename_i c rest isRest
    obtain rfl := Option.some.inj h
    rw [skipBlank?, skipBlank_append_of_cons isRest, List.cons_append]

theorem skipBlank_nil (extended : Bool) : skipBlank extended [] = [] := by
  cases extended <;> rfl

/-! ### Numbers -/

theorem readDigits_append {digits : List Char} (h : readDigits extended cs = (digits, after))
    (more : after ≠ []) (t : List Char) :
    readDigits extended (cs ++ t) = (digits, after ++ t) := by
  fun_induction readDigits extended cs generalizing digits with
  | case1 =>
    cases h
    exact absurd rfl more
  | case2 c cs isDigit shorter rest last read ih =>
    cases h
    have nonempty : skipBlank extended cs ≠ [] := by
      intro empty
      rw [empty, readDigits] at read
      exact more (Prod.mk.inj read).2.symm
    rw [List.cons_append, readDigits, if_pos isDigit, skipBlank_append nonempty]
    simp only [ih read]
  | case3 c cs other =>
    cases h
    rw [List.cons_append, readDigits, if_neg other]

theorem local_readCount : Local (readCount extended) := by
  intro cs n after h more t
  rw [readCount] at h
  generalize read : readDigits extended (cs.dropWhile isBlank) = pair at h
  obtain ⟨digits, rest⟩ := pair
  simp only at h
  split at h
  · exact absurd h (by simp)
  · rename_i isCount
    cases h
    -- every stretch that was passed over ends before the text does
    have last : rest.dropWhile isBlank ≠ [] := fun empty => more (by rw [empty, skipBlank_nil])
    have middle : rest ≠ [] := fun empty => last (by rw [empty]; rfl)
    have first : cs.dropWhile isBlank ≠ [] := by
      intro empty
      rw [empty, readDigits] at read
      exact middle (Prod.mk.inj read).2.symm
    rw [readCount, dropWhile_append_of_ne_nil first, readDigits_append read middle]
    simp only [if_neg isCount]
    rw [dropWhile_append_of_ne_nil last, skipBlank_append more]

theorem local_readHexFixed (count value : Nat) : Local (readHexFixed extended count value) := by
  intro cs n after h more t
  induction count generalizing value cs with
  | zero =>
    cases h
    rfl
  | succ count ih =>
    cases cs with
    | nil => exact absurd h (by simp [readHexFixed])
    | cons c cs =>
      rw [readHexFixed] at h
      obtain ⟨digit, isDigit, read⟩ := Option.bind_eq_some_iff.mp h
      have nonempty : skipBlank extended cs ≠ [] := by
        intro empty
        rw [empty] at read
        cases count with
        | zero =>
          cases read
          exact more rfl
        | succ count => exact absurd read (by simp [readHexFixed])
      rw [List.cons_append, readHexFixed, isDigit, skipBlank_append nonempty]
      exact ih _ read

theorem readHexBraced_eq (seen : Bool) (value : Nat) (cs : List Char) :
    readHexBraced extended seen value cs =
      match skipBlank extended cs with
      | [] => none
      | c :: rest =>
        if c = '}' then if seen then some (value, skipBlank extended rest) else none
        else (Digit.hexValue? c).bind fun digit =>
          readHexBraced extended true (value * 16 + digit) rest := by
  rw [readHexBraced]
  split <;> rename_i isRest <;> simp only [isRest]
  cases Digit.hexValue? _ <;> rfl

theorem local_readHexBraced (seen : Bool) (value : Nat) :
    Local (readHexBraced extended seen value) := by
  intro cs n after h more t
  fun_induction readHexBraced extended seen value cs with
  | case1 => exact absurd h (by simp)
  | case2 value cs rest isRest =>
    cases h
    rw [readHexBraced_eq, skipBlank_append_of_cons isRest]
    simp only [if_true]
    rw [skipBlank_append more]
  | case3 => exact absurd h (by simp)
  | case4 => exact absurd h (by simp)
  | case5 seen value cs c rest isRest inside shorter digit isDigit ih =>
    rw [readHexBraced_eq, skipBlank_append_of_cons isRest]
    simp only [if_neg inside, isDigit, Option.bind_some]
    exact ih h

/-! ### Names -/

theorem readPropertyName_eq (cs : List Char) :
    readPropertyName extended cs =
      match skipBlank extended cs with
      | [] => none
      | c :: rest =>
        if c = '}' then some ([], rest)
        else (readPropertyName extended rest).map fun read => (c :: read.1, read.2) := by
  rw [readPropertyName]
  split <;> rename_i isRest <;> simp only [isRest]
  cases readPropertyName extended _ <;> rfl

theorem readPropertyName_append {name : List Char}
    (h : readPropertyName extended cs = some (name, after)) (t : List Char) :
    readPropertyName extended (cs ++ t) = some (name, after ++ t) := by
  fun_induction readPropertyName extended cs generalizing name with
  | case1 => exact absurd h (by simp)
  | case2 cs rest isRest =>
    cases h
    rw [readPropertyName_eq, skipBlank_append_of_cons isRest]
    simp
  | case3 => exact absurd h (by simp)
  | case4 cs c rest isRest inside shorter inner left read ih =>
    cases h
    rw [readPropertyName_eq, skipBlank_append_of_cons isRest]
    simp only [if_neg inside, ih read, Option.map_some]

theorem local_readProperty : Local (readProperty extended) := by
  intro cs query after h _ t
  unfold readProperty at h ⊢
  have nonempty : skipBlank extended cs ≠ [] := by
    intro empty
    rw [empty] at h
    exact absurd h (by simp)
  rw [skipBlank_append nonempty]
  split at h
  · exact absurd h (by simp)
  · rename_i rest isRest
    obtain ⟨⟨text, left⟩, read, found⟩ := Option.bind_eq_some_iff.mp h
    cases found
    rw [isRest]
    show (readPropertyName extended (rest ++ t)).bind _ = _
    rw [readPropertyName_append read]
    rfl
  · rename_i c rest noBrace isRest
    rw [isRest, List.cons_append]
    split at h
    · exact absurd h (by simp)
    · rename_i plain
      cases h
      split
      · exact absurd ‹_› (by simp)
      · exact absurd (List.cons.inj ‹_›).1 noBrace
      · rename_i same
        cases same
        rw [if_neg plain]

theorem readHyphenated_append {name : List Char} (h : readHyphenated extended cs = (name, after))
    (more : after ≠ []) (t : List Char) :
    readHyphenated extended (cs ++ t) = (name, after ++ t) := by
  fun_induction readHyphenated extended cs generalizing name with
  | case1 =>
    cases h
    exact absurd rfl more
  | case2 c cs isLetter shorter rest last read ih =>
    cases h
    have nonempty : skipBlank extended cs ≠ [] := by
      intro empty
      rw [empty, readHyphenated] at read
      exact more (Prod.mk.inj read).2.symm
    rw [List.cons_append, readHyphenated, if_pos isLetter, skipBlank_append nonempty]
    simp only [ih read]
  | case3 c cs other =>
    cases h
    rw [List.cons_append, readHyphenated, if_neg other]

theorem local_readWordBoundary : Local (readWordBoundary extended) := by
  intro cs kind after h more t
  unfold readWordBoundary at h ⊢
  split at h
  · rename_i rest
    rw [List.cons_append]
    simp only
    split at h
    · exact absurd h (by simp)
    · rename_i c tail isRest
      rw [skipBlank_append_of_cons isRest]
      simp only
      split at h
      · rename_i isName
        rw [if_pos isName]
        split at h
        rename_i name left read
        split at h
        · rename_i rest'
          have longer : readHyphenated extended (c :: (tail ++ t)) = (name, '}' :: (rest' ++ t)) :=
            readHyphenated_append read (by simp) t
          simp only [longer]
          split at h
          case h_5 => exact absurd h (by simp)
          all_goals
            cases h
            rfl
        · exact absurd h (by simp)
      · rename_i noName
        cases h
        rw [if_neg noName]
        rfl
  · rename_i other
    cases h
    obtain ⟨c, rest, rfl⟩ := List.exists_cons_of_ne_nil more
    rw [List.cons_append]
    split
    · rename_i same
      exact absurd (by rw [(List.cons.inj same).1]) (other rest)
    · rfl

/-! ### Escapes -/

/-- A reader that is followed by a step which reads nothing. -/
theorem Local.filterMap {read : List Char → Option (α × List Char)} (h : Local read)
    (f : α → Option β) :
    Local fun cs => (read cs).bind fun pair => (f pair.1).map fun b => (b, pair.2) := by
  intro cs b after found more t
  obtain ⟨⟨a, left⟩, isRead, found⟩ := Option.bind_eq_some_iff.mp found
  obtain ⟨b, isResult, same⟩ := Option.map_eq_some_iff.mp found
  cases same
  show (read (cs ++ t)).bind _ = _
  rw [h isRead more t, Option.bind_some, isResult]
  rfl

theorem Local.map {read : List Char → Option (α × List Char)} (h : Local read) (f : α → β) :
    Local fun cs => (read cs).map fun pair => (f pair.1, pair.2) := by
  simpa [Option.map_eq_bind, Function.comp_def] using h.filterMap fun a => some (f a)

/-- The character with a code, as an escape. -/
def charEscape? (short : Bool) (value : Nat) : Option Escape :=
  (charOfCode? value).map fun c => .literal ⟨c, short⟩

theorem bind_charOfCode? (short : Bool) (value : Nat) (after : List Char) :
    ((charOfCode? value).bind fun c => some (Escape.literal ⟨c, short⟩, after)) =
      (charEscape? short value).map fun escape => (escape, after) := by
  rw [charEscape?]
  cases charOfCode? value <;> rfl

theorem readHexEscape_of_brace (digits : Nat) {rest : List Char}
    (isStart : skipBlank extended cs = '{' :: rest) :
    readHexEscape extended digits cs =
      (readHexBraced extended false 0 rest).bind fun pair =>
        (charEscape? false pair.1).map fun escape => (escape, pair.2) := by
  unfold readHexEscape
  rw [isStart]
  exact congrArg (Option.bind _) (funext fun pair => bind_charOfCode? _ _ _)

theorem readHexEscape_of_no_brace (digits : Nat)
    (noBrace : ∀ rest, skipBlank extended cs ≠ '{' :: rest) :
    readHexEscape extended digits cs =
      (readHexFixed extended digits 0 (skipBlank extended cs)).bind fun pair =>
        (charEscape? (digits == 2) pair.1).map fun escape => (escape, pair.2) := by
  unfold readHexEscape
  split
  · rename_i isStart
    exact absurd isStart (noBrace _)
  · exact congrArg (Option.bind _) (funext fun pair => bind_charOfCode? _ _ _)

theorem local_readHexEscape (digits : Nat) : Local (readHexEscape extended digits) := by
  intro cs escape after h more t
  by_cases brace : ∃ rest, skipBlank extended cs = '{' :: rest
  · obtain ⟨rest, isStart⟩ := brace
    rw [readHexEscape_of_brace digits isStart] at h
    rw [readHexEscape_of_brace digits (skipBlank_append_of_cons isStart t)]
    exact (local_readHexBraced false 0).filterMap (charEscape? false) h more t
  · have noBrace := not_exists.mp brace
    rw [readHexEscape_of_no_brace digits noBrace] at h
    have nonempty : skipBlank extended cs ≠ [] := by
      intro empty
      rw [empty] at h
      obtain ⟨⟨value, left⟩, read, h⟩ := Option.bind_eq_some_iff.mp h
      obtain ⟨_, -, same⟩ := Option.map_eq_some_iff.mp h
      cases same
      cases digits with
      | zero =>
        cases read
        exact more rfl
      | succ digits => exact absurd read (by simp [readHexFixed])
    have noBrace' : ∀ rest, skipBlank extended (cs ++ t) ≠ '{' :: rest := by
      obtain ⟨d, tail, isStart⟩ := List.exists_cons_of_ne_nil nonempty
      rw [skipBlank_append_of_cons isStart]
      exact fun rest same => noBrace tail (by rw [isStart, (List.cons.inj same).1])
    rw [readHexEscape_of_no_brace digits noBrace', skipBlank_append nonempty]
    exact (local_readHexFixed digits 0).filterMap (charEscape? (digits == 2)) h more t

theorem local_readEscape : Local (readEscape extended) := by
  intro cs escape after h more t
  unfold readEscape at h
  split at h
  case h_1 => exact absurd h (by simp)
  case h_2 => exact local_readHexEscape 2 h more t
  case h_3 => exact local_readHexEscape 4 h more t
  case h_4 => exact local_readHexEscape 8 h more t
  case h_5 => exact local_readProperty.map (Escape.property · false) h more t
  case h_6 => exact local_readProperty.map (Escape.property · true) h more t
  case h_21 => exact local_readWordBoundary.map Escape.assertion h more t
  case h_25 =>
    split at h
    · rename_i escapable
      cases h
      unfold readEscape
      rw [List.cons_append]
      split
      case h_1 same => cases same
      case h_25 same =>
        cases same
        exact if_pos escapable
      all_goals
        rename_i same
        cases same
        contradiction
    · exact absurd h (by simp)
  all_goals
    cases h
    rfl

/-! ### Repetitions -/

/-- The upper bound that a comma asks for; there may be none. -/
def readUpper (extended : Bool) (cs : List Char) : Option (Option Nat × List Char) :=
  match cs with
  | '}' :: rest => some (none, '}' :: rest)
  | _ => (readCount extended cs).map fun pair => (some pair.1, pair.2)

/-- The upper bound of a counted repetition, given the lower one. -/
def readMost (extended : Bool) (least : Nat) (cs : List Char) : Option (Option Nat × List Char) :=
  match cs with
  | ',' :: rest => (skipBlank? extended rest).bind (readUpper extended)
  | _ => some (some least, cs)

theorem readBounds_eq (cs : List Char) :
    readBounds extended cs =
      (skipBlank? extended cs).bind fun start => (readCount extended start).bind fun lower =>
        (readMost extended lower.1 lower.2).bind fun upper =>
          match upper.2 with
          | '}' :: rest =>
            if upper.1.all (lower.1 ≤ ·) then some (lower.1, upper.1, skipBlank extended rest)
            else none
          | _ => none := by
  refine congrArg (Option.bind _) (funext fun start =>
    congrArg (Option.bind _) (funext fun lower => ?_))
  obtain ⟨least, rest⟩ := lower
  dsimp only
  split
  · rename_i rest'
    rw [readMost, Option.bind_assoc]
    refine congrArg (Option.bind _) (funext fun start => ?_)
    split
    · rfl
    · rename_i noBrace
      rw [readUpper]
      · cases readCount extended start <;> rfl
      · exact noBrace
  · rename_i noComma
    rw [readMost]
    · rfl
    · exact noComma

theorem local_readUpper : Local (readUpper extended) := by
  intro cs most after h more t
  unfold readUpper at h
  split at h
  · cases h
    rfl
  · rename_i noBrace
    obtain ⟨⟨n, left⟩, read, same⟩ := Option.map_eq_some_iff.mp h
    cases same
    have nonempty : cs ≠ [] := by
      rintro rfl
      exact absurd read (by simp [readCount, readDigits])
    obtain ⟨c, rest, rfl⟩ := List.exists_cons_of_ne_nil nonempty
    have longer := local_readCount read more t
    rw [List.cons_append] at longer ⊢
    rw [readUpper, longer]
    · rfl
    · exact fun rest' same => noBrace rest (by rw [(List.cons.inj same).1])

theorem local_readMost (least : Nat) : Local (readMost extended least) := by
  intro cs most after h more t
  unfold readMost at h
  split at h
  · obtain ⟨start, isStart, isUpper⟩ := Option.bind_eq_some_iff.mp h
    rw [List.cons_append, readMost, skipBlank?_append isStart]
    exact local_readUpper isUpper more t
  · rename_i noComma
    cases h
    obtain ⟨c, rest, rfl⟩ := List.exists_cons_of_ne_nil more
    rw [List.cons_append, readMost]
    exact fun rest' same => noComma rest (by rw [(List.cons.inj same).1])

theorem readBounds_append {least : Nat} {most : Option Nat}
    (h : readBounds extended cs = some (least, most, after)) (more : after ≠ []) (t : List Char) :
    readBounds extended (cs ++ t) = some (least, most, after ++ t) := by
  rw [readBounds_eq] at h ⊢
  obtain ⟨start, isStart, h⟩ := Option.bind_eq_some_iff.mp h
  obtain ⟨⟨lower, rest⟩, readLower, h⟩ := Option.bind_eq_some_iff.mp h
  obtain ⟨⟨upper, rest'⟩, readUpper, h⟩ := Option.bind_eq_some_iff.mp h
  simp only at readUpper h
  have closes : rest' ≠ [] := by
    rintro rfl
    exact absurd h (by simp)
  have goes : rest ≠ [] := by
    rintro rfl
    cases readUpper
    exact closes rfl
  rw [skipBlank?_append isStart, Option.bind_some, local_readCount readLower goes, Option.bind_some,
    local_readMost _ readUpper closes, Option.bind_some]
  simp only
  split at h
  · rename_i left
    rw [List.cons_append]
    simp only
    split at h
    · rename_i inOrder
      cases h
      rw [if_pos inOrder, skipBlank_append more]
    · exact absurd h (by simp)
  · exact absurd h (by simp)

/-! ### Flags -/

theorem readFlags_append {on dangling : Bool} {changes result : FlagChanges} {last : Char}
    (h : readFlags on dangling changes cs = some (result, last, after)) (t : List Char) :
    readFlags on dangling changes (cs ++ t) = some (result, last, after ++ t) := by
  induction cs generalizing on dangling changes with
  | nil => exact absurd h (by simp [readFlags])
  | cons c cs ih =>
    rw [readFlags] at h
    rw [List.cons_append, readFlags]
    split at h
    · rename_i ends
      rw [if_pos ends]
      split at h
      · exact absurd h (by simp)
      · rename_i complete
        cases h
        rw [if_neg complete]
    · rename_i goes
      rw [if_neg goes]
      split at h
      · rename_i minus
        rw [if_pos minus]
        split at h
        · rename_i first
          rw [if_pos first]
          exact ih h
        · exact absurd h (by simp)
      · rename_i letter
        rw [if_neg letter]
        split at h
        · exact absurd h (by simp)
        · rename_i flag isFlag
          split at h
          · exact absurd h (by simp)
          · rename_i fresh
            rw [if_neg fresh]
            exact ih h

end Waymark.Regex
