/-
Reading expressions piece by piece.

A text writes parts of a sequence (`Writes`) if the reader, wherever it meets the text
outside of extended mode, adds just these parts to what it has read.  Texts that do so are
put together:

* `writes_append` — one text after the other;
* `writes_group`, `writes_capture`, `writes_repeated` — a text in parentheses;
* `writes_quoted` — text in which every character stands for itself.

`readAll_of_writes` gives the tree of a whole text.
-/
import Waymark.Regex.Basic

namespace Waymark.Regex

variable {r r' : Reading} {c : Char} {cs ds rest after : List Char} {trees others : List Tree}
  {index opened opened' : Nat}

/-- The reading with further parts, on the way to which capturing groups were opened. -/
def Reading.grow (r : Reading) (trees : List Tree) (opened : Nat) : Reading :=
  { r with parts := trees.reverse ++ r.parts, groups := r.groups + opened }

/-- The text writes the given parts, with `opened` capturing groups that are numbered from `index`
on.  No question mark may follow it. -/
def Writes (index : Nat) (cs : List Char) (trees : List Tree) (opened : Nat) : Prop :=
  ∀ r rest, r.extended = false → r.groups + 1 = index → rest.head? ≠ some '?' →
    readAll r (cs ++ rest) = readAll (r.grow trees opened) rest

/-! ### Single constructs -/

theorem readAll_cons (plain : r.extended = false)
    (h : readConstruct r c rest = some (r', after)) (shorter : after.length ≤ rest.length) :
    readAll r (c :: rest) = readAll r' after := by
  rw [readAll, plain, skipBlank, if_neg (by simp)]
  simp only [h]
  exact dif_pos (Nat.lt_succ_of_le shorter)

/-- The text adds one part, whatever follows it. -/
def Adds (cs : List Char) (tree : Tree) : Prop :=
  ∀ r rest, r.extended = false → readAll r (cs ++ rest) = readAll (r.push tree) rest

theorem Adds.writes {tree : Tree} (h : Adds cs tree) : Writes index cs [tree] 0 :=
  fun r rest plain _ _ => h r rest plain

/-- A construct of one character that adds a part. -/
theorem adds_singleton {tree : Tree}
    (h : ∀ r rest, readConstruct r c rest = some (r.push tree, rest)) : Adds [c] tree :=
  fun r rest plain => readAll_cons plain (h r rest) (Nat.le_refl _)

theorem head?_append_ne (first : cs.head? ≠ some c) (second : ds.head? ≠ some c) :
    (cs ++ ds).head? ≠ some c := by
  cases cs with
  | nil => exact second
  | cons d cs => exact first

theorem writes_nil : Writes index [] [] 0 := fun _ _ _ _ _ => rfl

theorem writes_append (first : Writes index cs trees opened)
    (second : Writes (index + opened) ds others opened') (head : ds.head? ≠ some '?') :
    Writes index (cs ++ ds) (trees ++ others) (opened + opened') := by
  intro r rest plain isIndex follows
  have follows' := head?_append_ne head follows
  have count : (r.grow trees opened).groups + 1 = index + opened := by
    rw [← isIndex]
    exact Nat.add_right_comm _ _ _
  rw [List.append_assoc, first r (ds ++ rest) plain isIndex follows',
    second (r.grow trees opened) rest plain count follows]
  congr 1
  simp [Reading.grow, Nat.add_assoc]

/-! ### Groups -/

theorem readAll_close {before : List Tree} {number : Option Nat} {changes : FlagChanges}
    {extended : Bool} {frames : List Frame} (plain : r.extended = false)
    (h : r.frames = .group before number changes extended :: frames) :
    readAll r (')' :: rest) =
      readAll { r with
        extended := extended
        frames := frames
        parts := .group number changes r.sequence :: before } rest := by
  refine readAll_cons plain ?_ (Nat.le_refl _)
  show Option.map _ r.closeGroup? = _
  rw [Reading.closeGroup?, Reading.body, h]
  rfl

theorem sequence_grow (h : r.parts = []) :
    (r.grow trees opened).sequence = Tree.inSequence trees := by
  rw [Reading.sequence, Reading.grow, h, List.append_nil, List.reverse_reverse]

theorem readAll_open (plain : r.extended = false) :
    readAll r ('(' :: '?' :: ':' :: rest) = readAll (r.openGroup none []) rest := by
  refine readAll_cons plain (?_ : _ = some (r.openGroup none [], rest)) ?_
  · show readGroupStart r _ = _
    rw [readGroupStart, plain]
    rfl
  · rw [List.length_cons, List.length_cons]
    omega

theorem readAll_group (body : Writes index cs trees opened) (plain : r.extended = false)
    (isIndex : r.groups + 1 = index) :
    readAll r ('(' :: '?' :: ':' :: (cs ++ ')' :: rest)) =
      readAll (r.grow [.group none [] (.inSequence trees)] opened) rest := by
  have inside : ((r.openGroup none []).grow trees opened).extended = false := plain
  rw [readAll_open plain, body (r.openGroup none []) _ plain isIndex (by simp),
    readAll_close inside rfl, sequence_grow rfl]
  rfl

/-- A group that does not capture. -/
theorem writes_group (body : Writes index cs trees opened) :
    Writes index ('(' :: '?' :: ':' :: (cs ++ [')'])) [.group none [] (.inSequence trees)]
      opened := by
  intro r rest plain isIndex _
  rw [List.cons_append, List.cons_append, List.cons_append, List.append_assoc]
  exact readAll_group body plain isIndex

/-- A parenthesis opens the next capturing group, unless a question mark follows it. -/
theorem readAll_capture (plain : r.extended = false) (head : cs.head? ≠ some '?') :
    readAll r ('(' :: cs) = readAll r.openCapture cs := by
  refine readAll_cons plain (?_ : _ = some (r.openCapture, cs)) (Nat.le_refl _)
  show readGroupStart r cs = _
  rw [readGroupStart, plain]
  cases cs with
  | nil => rfl
  | cons c cs =>
    rw [List.head?_cons, ne_eq, Option.some.injEq] at head
    simp only [skipBlank]
    split
    case h_8 => rfl
    all_goals exact absurd (List.cons.inj ‹_›).1 head

/-- A group that captures. -/
theorem writes_capture (body : Writes (index + 1) cs trees opened) (head : cs.head? ≠ some '?') :
    Writes index ('(' :: (cs ++ [')'])) [.group (some index) [] (.inSequence trees)]
      (opened + 1) := by
  intro r rest plain isIndex _
  have count : r.openCapture.groups + 1 = index + 1 := congrArg (· + 1) isIndex
  have inside : (r.openCapture.grow trees opened).extended = false := plain
  have open_ := @readAll_capture r (cs ++ ')' :: rest) plain (head?_append_ne head (by simp))
  rw [List.cons_append, List.append_assoc, List.singleton_append, open_,
    body r.openCapture _ plain count (by simp), readAll_close inside rfl, sequence_grow rfl]
  congr 1
  rw [← isIndex]
  simp only [Reading.grow, Reading.openCapture, Reading.openGroup, List.reverse_cons,
    List.reverse_nil, List.nil_append, List.singleton_append]
  rw [Nat.add_assoc, Nat.add_comm 1]

/-! ### Repetitions -/

/-- How often the part in front of a mark is taken. -/
def bounds? : Char → Option (Nat × Option Nat)
  | '?' => some (0, some 1)
  | '*' => some (0, none)
  | '+' => some (1, none)
  | _ => none

theorem readAll_mark {least : Nat} {most : Option Nat} (h : bounds? c = some (least, most))
    {tree : Tree} {parts : List Tree} (isParts : r.parts = tree :: parts)
    (repeatable : tree ≠ .empty ∧ ∀ changes, tree ≠ .flags changes)
    (plain : r.extended = false) (follows : rest.head? ≠ some '?') :
    readAll r (c :: rest) =
      readAll { r with parts := .repetition least most true tree :: parts } rest := by
  -- a question mark behind the mark would make it lazy
  have greedy : readGreed rest = (true, rest) := by
    unfold readGreed
    split
    · exact absurd rfl follows
    · rfl
  have repeated : r.repeatLast? least most true =
      some { r with parts := .repetition least most true tree :: parts } := by
    rw [Reading.repeatLast?, isParts]
    cases tree <;> first | rfl | exact absurd rfl repeatable.1 | exact absurd rfl (repeatable.2 _)
  refine readAll_cons plain ?_ (Nat.le_refl _)
  unfold bounds? at h
  split at h <;> cases h <;> simp only [readConstruct, greedy, repeated, Option.map_some]

/-- A group that may be taken as often as a mark says. -/
theorem writes_repeated {least : Nat} {most : Option Nat} (h : bounds? c = some (least, most))
    (body : Writes index cs trees opened) :
    Writes index ('(' :: '?' :: ':' :: (cs ++ [')', c]))
      [.repetition least most true (.group none [] (.inSequence trees))] opened := by
  intro r rest plain isIndex follows
  rw [List.cons_append, List.cons_append, List.cons_append, List.append_assoc]
  exact (readAll_group body plain isIndex).trans
    (readAll_mark h rfl ⟨by simp, by simp⟩ plain follows)

/-- A character or class with a mark. -/
theorem writes_marked {least : Nat} {most : Option Nat} (h : bounds? c = some (least, most))
    {tree : Tree} (body : Adds cs tree)
    (repeatable : tree ≠ .empty ∧ ∀ changes, tree ≠ .flags changes) :
    Writes index (cs ++ [c]) [.repetition least most true tree] 0 := by
  intro r rest plain _ follows
  rw [List.append_assoc, body r _ plain]
  exact readAll_mark h rfl repeatable plain follows

/-! ### Text that stands for itself -/

theorem adds_of_not_isMeta (h : isMeta c = false) : Adds [c] (.literal ⟨c, false⟩) := by
  refine adds_singleton fun r rest => ?_
  simp only [readConstruct]
  split <;> first | exact absurd h (by decide) | rfl

theorem adds_escape (h : isMeta c = true) : Adds ['\\', c] (.literal ⟨c, false⟩) := by
  intro r rest plain
  have plainEscape : readEscape false (c :: rest) = some (.literal ⟨c, false⟩, rest) := by
    have escapable : isEscapable c = true := by rw [isEscapable, h, Bool.true_or]
    unfold readEscape
    split
    case h_1 same => cases same
    case h_25 same =>
      cases same
      exact if_pos escapable
    -- letters and angle brackets have no meaning without a backslash
    all_goals
      rename_i same
      cases same
      exact absurd h (by decide)
  refine readAll_cons plain (?_ : _ = some (r.push (.literal ⟨c, false⟩), rest)) ?_
  · show (readEscape r.extended (c :: rest)).map _ = _
    rw [plain, plainEscape]
    rfl
  · exact Nat.le_succ _

/-- Quoted text does not begin with a mark. -/
theorem head_quoted (cs : List Char) : (quoted cs).head? ≠ some '?' := by
  cases cs with
  | nil => simp [quoted]
  | cons c cs =>
    rw [quoted, List.flatMap_cons]
    split
    · simp
    · rename_i ordinary
      intro same
      obtain rfl := Option.some.inj same
      exact ordinary (by decide)

/-- Quoted text writes its characters. -/
theorem writes_quoted (cs : List Char) :
    Writes index (quoted cs) (cs.map fun c => .literal ⟨c, false⟩) 0 := by
  induction cs with
  | nil => exact writes_nil
  | cons c cs ih =>
    rw [quoted, List.flatMap_cons]
    split
    · rename_i special
      exact writes_append (adds_escape special).writes ih (head_quoted cs)
    · rename_i ordinary
      exact writes_append (adds_of_not_isMeta (Bool.not_eq_true _ ▸ ordinary)).writes ih
        (head_quoted cs)

/-! ### Whole texts -/

theorem sequence_of_several (several : 2 ≤ trees.length) :
    Tree.inSequence trees = .concat trees := by
  cases trees with
  | nil => exact absurd several (by simp)
  | cons first rest =>
    cases rest with
    | nil => exact absurd several (by simp)
    | cons second rest => rfl

/-- The tree of a text that writes at least two parts. -/
theorem readAll_of_writes (h : Writes 1 cs trees opened) (several : 2 ≤ trees.length)
    (plain : r.extended = false) (outside : r.frames = []) (isFirst : r.groups = 0) :
    readAll r cs = some (.concat (r.parts.reverse ++ trees)) := by
  have whole := h r [] plain (congrArg (· + 1) isFirst) (by simp)
  rw [List.append_nil] at whole
  have inside : (r.grow trees opened).extended = false := plain
  have body : (r.grow trees opened).body = ((r.grow trees opened).sequence, []) := by
    have frames : (r.grow trees opened).frames = [] := outside
    simp only [Reading.body, frames]
  rw [whole, readAll, inside]
  show (r.grow trees opened).finish? = _
  rw [Reading.finish?, body]
  have parts : (r.grow trees opened).parts.reverse = r.parts.reverse ++ trees := by
    rw [Reading.grow, List.reverse_append, List.reverse_reverse]
  show some (Tree.inSequence (r.grow trees opened).parts.reverse) = _
  rw [parts]
  -- a sequence of one part would be that part itself
  generalize r.parts.reverse = before
  rw [sequence_of_several]
  rw [List.length_append]
  omega

end Waymark.Regex
