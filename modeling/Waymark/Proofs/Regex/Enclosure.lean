/-
Expressions in a group of their own.

A text in parentheses that is read as one group without a number, and without a capturing group
inside, is read so wherever it stands.  The reader's state inside the group
is that of a reading of its own, on top of what was there before (`Reading.inside`); every
construct but the last one acts on the upper part only.  That the group which is opened first
is closed last follows from what is read: whatever comes behind a closed group makes it part of
something larger (`Reading.Compound`).

* `readAll_eq_some`, `exists_finish_of_readAll` — a text is read construct by construct, and
  what constructs preserve holds at the end;
* `numbers_of_ofTree?` — where no group captures, none has a number;
* `act?_inside`, `readAll_inside` — constructs and whole texts inside a group;
* `adds_of_enclosed`, `writes_of_contained` — texts that stay in their groups (`Enclosed`,
  `Contained`).
-/
import Mathlib
import Waymark.Proofs.Regex.Constructs
import Waymark.Proofs.Regex.Ends
import Waymark.Proofs.Regex.Reading

namespace Waymark.Regex

variable {r r' o p : Reading} {action : Action} {cs after : List Char} {tree : Tree}

/-! ### Runs -/

theorem readAll_nil (r : Reading) : readAll r [] = r.finish? := by
  rw [readAll_eq, skipBlank_nil]

/-- The first construct is read and done, and then what is left is read. -/
theorem readAll_of_act? {c : Char} {rest : List Char}
    (isStart : skipBlank r.extended cs = c :: rest)
    (isAction : readAction r.extended c rest = some (action, after))
    (applied : action.act? r = some r') (shorter : after.length < cs.length) :
    readAll r cs = readAll r' after := by
  rw [readAll_eq, isStart]
  simp only [isAction, applied, Option.bind_some, if_pos shorter]

/-- A text that is read is at its end, or it begins with a construct. -/
theorem readAll_eq_some (read : readAll r cs = some tree) :
    (skipBlank r.extended cs = [] ∧ r.finish? = some tree) ∨
      ∃ c rest action after r', skipBlank r.extended cs = c :: rest ∧
        readAction r.extended c rest = some (action, after) ∧ action.act? r = some r' ∧
        after.length < cs.length ∧ readAll r' after = some tree := by
  rw [readAll_eq] at read
  split at read
  · rename_i isEnd
    exact Or.inl ⟨isEnd, read⟩
  · rename_i c rest isStart
    obtain ⟨⟨action, after⟩, isAction, read⟩ := Option.bind_eq_some_iff.mp read
    obtain ⟨r', applied, read⟩ := Option.bind_eq_some_iff.mp read
    split at read
    · rename_i shorter
      exact Or.inr ⟨c, rest, action, after, r', isStart, isAction, applied, shorter, read⟩
    · exact absurd read (by simp)

/-- What every construct preserves still holds when the text is at its end. -/
theorem exists_finish_of_readAll {P : Reading → Prop}
    (step : ∀ r (action : Action) r', P r → action.act? r = some r' → P r') (start : P r)
    (read : readAll r cs = some tree) : ∃ r', P r' ∧ r'.finish? = some tree := by
  induction len : cs.length using Nat.strong_induction_on generalizing r cs with
  | _ length ih =>
    rcases readAll_eq_some read with
      ⟨-, finished⟩ | ⟨c, rest, action, after, r', -, -, applied, shorter, read⟩
    · exact ⟨r, start, finished⟩
    · exact ih after.length (len ▸ shorter) (step r action r' start applied) read rfl

/-! ### What constructs do -/

/-- A capturing group is opened alike with a name and without, but for the names that are kept. -/
theorem exists_of_capture {name : Option String}
    (applied : (Action.capture name).act? r = some r') :
    ∃ names, r' = { r.openCapture with names } := by
  cases name with
  | none => exact ⟨_, (Option.some.inj applied).symm⟩
  | some name =>
    simp only [Action.act?] at applied
    split at applied
    · exact absurd applied (by simp)
    · exact ⟨_, (Option.some.inj applied).symm⟩

/-- A closing parenthesis makes a part of what has been read since the innermost group was
opened. -/
theorem exists_of_close (applied : Action.close.act? r = some r') :
    ∃ tree before index changes extended frames,
      r.body = (tree, .group before index changes extended :: frames) ∧
        r' = { r with extended, frames, parts := .group index changes tree :: before } := by
  simp only [Action.act?, Reading.closeGroup?] at applied
  split at applied
  · rename_i isBody
    exact ⟨_, _, _, _, _, _, isBody, (Option.some.inj applied).symm⟩
  · exact absurd applied (by simp)

/-- A repetition takes the place of the last part. -/
theorem exists_of_repeatLast {least : Nat} {most : Option Nat} {greedy : Bool}
    (applied : (Action.repeatLast least most greedy).act? r = some r') :
    ∃ last parts, r.parts = last :: parts ∧
      r' = { r with parts := .repetition least most greedy last :: parts } := by
  simp only [Action.act?, Reading.repeatLast?] at applied
  split at applied
  case h_4 isParts => exact ⟨_, _, isParts, (Option.some.inj applied).symm⟩
  all_goals exact absurd applied (by simp)

/-! ### Capturing groups -/

mutual

/-- How many capturing groups are written in an expression. -/
def Tree.captures : Tree → Nat
  | .repetition _ _ _ sub => sub.captures
  | .group index _ sub => index.toList.length + sub.captures
  | .alternation branches => Tree.capturesAll branches
  | .concat parts => Tree.capturesAll parts
  | _ => 0

/-- How many capturing groups are written in expressions. -/
def Tree.capturesAll : List Tree → Nat
  | [] => 0
  | tree :: rest => tree.captures + Tree.capturesAll rest

end

/-- How many capturing groups are open at a frame or stand before it. -/
def Frame.captures : Frame → Nat
  | .group before index _ _ => index.toList.length + Tree.capturesAll before
  | .branches trees => Tree.capturesAll trees

/-- How many capturing groups have been opened. -/
def Reading.captures (r : Reading) : Nat :=
  (r.frames.map Frame.captures).sum + Tree.capturesAll r.parts

theorem capturesAll_append (trees others : List Tree) :
    Tree.capturesAll (trees ++ others) = Tree.capturesAll trees + Tree.capturesAll others := by
  induction trees with
  | nil => simp [Tree.capturesAll]
  | cons tree trees ih => rw [List.cons_append, Tree.capturesAll, Tree.capturesAll, ih]; omega

theorem capturesAll_reverse (trees : List Tree) :
    Tree.capturesAll trees.reverse = Tree.capturesAll trees := by
  induction trees with
  | nil => rfl
  | cons tree trees ih =>
    rw [List.reverse_cons, capturesAll_append, ih, Tree.capturesAll, Tree.capturesAll,
      Tree.capturesAll]
    omega

theorem captures_inSequence (trees : List Tree) :
    (Tree.inSequence trees).captures = Tree.capturesAll trees := by
  unfold Tree.inSequence
  split
  · rfl
  · simp [Tree.capturesAll]
  · rw [Tree.captures]

theorem Reading.captures_sequence (r : Reading) :
    r.sequence.captures = Tree.capturesAll r.parts := by
  rw [sequence, captures_inSequence, capturesAll_reverse]

/-- Taking the branches together loses no group. -/
theorem Reading.captures_body (r : Reading) :
    (r.body.2.map Frame.captures).sum + r.body.1.captures = r.captures := by
  rw [Reading.captures, body]
  split
  · rename_i trees frames isFrames
    rw [isFrames, Tree.captures, capturesAll_reverse, Tree.capturesAll, captures_sequence,
      List.map_cons, List.sum_cons, Frame.captures]
    simp only
    omega
  · rw [captures_sequence]

theorem captures_finish (finished : r.finish? = some tree) : tree.captures = r.captures := by
  rw [← r.captures_body]
  unfold Reading.finish? at finished
  split at finished
  · rename_i isBody
    cases finished
    rw [isBody]
    simp
  · exact absurd finished (by simp)

/-- A construct keeps the capturing groups that have been opened, and may open one. -/
theorem captures_act? (applied : action.act? r = some r') :
    r.captures + (match action with | .capture _ => 1 | _ => 0) ≤ r'.captures := by
  cases action with
  | push tree =>
    cases applied
    simp only [Reading.push, Reading.captures, Tree.capturesAll]
    omega
  | setFlags changes =>
    cases applied
    simp only [Reading.push, Reading.captures, Tree.capturesAll, Tree.captures]
    omega
  | openGroup changes =>
    cases applied
    simp only [Reading.openGroup, Reading.captures, Tree.capturesAll, Frame.captures, List.map_cons,
      List.sum_cons, Option.toList_none, List.length_nil]
    omega
  | capture name =>
    obtain ⟨names, rfl⟩ := exists_of_capture applied
    simp only [Reading.openCapture, Reading.openGroup, Reading.captures, Tree.capturesAll,
      Frame.captures, List.map_cons, List.sum_cons, Option.toList_some, List.length_singleton]
    omega
  | close =>
    have whole := r.captures_body
    obtain ⟨tree, before, index, changes, extended, frames, isBody, rfl⟩ := exists_of_close applied
    rw [isBody] at whole
    simp only [Reading.captures, Tree.capturesAll, Tree.captures, Frame.captures, List.map_cons,
      List.sum_cons] at whole ⊢
    omega
  | alternate =>
    cases applied
    show r.captures + 0 ≤ _
    unfold Reading.alternate
    split
    · rename_i isFrames
      simp only [Reading.captures, isFrames, Frame.captures, List.map_cons, List.sum_cons,
        Tree.capturesAll, Reading.captures_sequence]
      omega
    · simp only [Reading.captures, Frame.captures, List.map_cons, List.sum_cons,
        Tree.capturesAll, Reading.captures_sequence]
      omega
  | repeatLast least most greedy =>
    obtain ⟨last, parts, isParts, rfl⟩ := exists_of_repeatLast applied
    simp only [Reading.captures, isParts, Tree.capturesAll, Tree.captures]
    omega

theorem captures_le_of_readAll (read : readAll r cs = some tree) : r.captures ≤ tree.captures := by
  obtain ⟨r', kept, finished⟩ := exists_finish_of_readAll
    (P := fun r' => r.captures ≤ r'.captures)
    (fun _ _ _ before applied => (Nat.le_add_right _ _).trans
      ((Nat.add_le_add_right before _).trans (captures_act? applied)))
    (le_refl _) read
  rw [captures_finish finished]
  exact kept

theorem Expr.numbers_repeated {e : Expr} (least : Nat) (most : Option Nat) (greedy : Bool)
    (none : e.numbers = []) : (Expr.repeated least most greedy e).numbers = [] := by
  rw [repeated]
  generalize (if e.consumesNothing then min least 1 else least) = least
  generalize (if e.consumesNothing then some ((most.map (min 1)).getD 1) else most) = most
  split
  · rfl
  · split <;> exact none

mutual

/-- A tree without capturing groups stands for an expression without numbered groups. -/
theorem numbers_of_ofTree? {f f' : Flags} {e : Expr} (tree : Tree)
    (found : Expr.ofTree? f tree = some (e, f'))
    (none : tree.captures = 0) : e.numbers = [] := by
  match tree with
  | .empty | .flags _ | .assertion _ =>
    rw [Expr.ofTree?] at found
    cases found
    rfl
  | .literal l =>
    rw [Expr.ofTree?] at found
    obtain ⟨e', isExpr, same⟩ := Option.bind_eq_some_iff.mp found
    cases same
    unfold Literal.expr? at isExpr
    split at isExpr
    · exact absurd isExpr (by simp)
    · split at isExpr <;> cases isExpr <;> rfl
  | .dot | .short .. | .property .. =>
    rw [Expr.ofTree?] at found
    obtain ⟨s, -, same⟩ := Option.bind_eq_some_iff.mp found
    cases same
    rfl
  | .bracketed negated body =>
    rw [Expr.ofTree?] at found
    obtain ⟨s, -, found⟩ := Option.bind_eq_some_iff.mp found
    obtain ⟨t, -, same⟩ := Option.bind_eq_some_iff.mp found
    cases same
    rfl
  | .repetition least most greedy sub =>
    rw [Expr.ofTree?] at found
    obtain ⟨⟨body, after⟩, isBody, same⟩ := Option.bind_eq_some_iff.mp found
    cases same
    exact Expr.numbers_repeated _ _ _ (numbers_of_ofTree? sub isBody none)
  | .group index changes sub =>
    rw [Expr.ofTree?] at found
    obtain ⟨⟨body, after⟩, isBody, same⟩ := Option.bind_eq_some_iff.mp found
    rw [Tree.captures, Nat.add_eq_zero_iff] at none
    have inner := numbers_of_ofTree? sub isBody none.2
    cases index with
    | none =>
      cases same
      exact inner
    | some index => exact absurd none.1 (by simp)
  | .alternation branches =>
    rw [Expr.ofTree?] at found
    exact numbers_of_anyOf? branches found none
  | .concat parts =>
    rw [Expr.ofTree?] at found
    exact numbers_of_allOf? parts found none

theorem numbers_of_allOf? {f f' : Flags} {e : Expr} (trees : List Tree)
    (found : Expr.allOf? f trees = some (e, f'))
    (none : Tree.capturesAll trees = 0) : e.numbers = [] := by
  match trees with
  | [] =>
    cases found
    rfl
  | tree :: rest =>
    rw [Expr.allOf?] at found
    obtain ⟨⟨first, after⟩, isFirst, found⟩ := Option.bind_eq_some_iff.mp found
    obtain ⟨⟨second, last⟩, isSecond, same⟩ := Option.bind_eq_some_iff.mp found
    cases same
    rw [Tree.capturesAll, Nat.add_eq_zero_iff] at none
    rw [Expr.numbers, numbers_of_ofTree? tree isFirst none.1,
      numbers_of_allOf? rest isSecond none.2]
    rfl

theorem numbers_of_anyOf? {f f' : Flags} {e : Expr} (trees : List Tree)
    (found : Expr.anyOf? f trees = some (e, f'))
    (none : Tree.capturesAll trees = 0) : e.numbers = [] := by
  match trees with
  | [] =>
    cases found
    rfl
  | tree :: rest =>
    rw [Expr.anyOf?] at found
    obtain ⟨⟨preferred, after⟩, isPreferred, found⟩ := Option.bind_eq_some_iff.mp found
    obtain ⟨⟨other, last⟩, isOther, same⟩ := Option.bind_eq_some_iff.mp found
    cases same
    rw [Tree.capturesAll, Nat.add_eq_zero_iff] at none
    rw [Expr.numbers, numbers_of_ofTree? tree isPreferred none.1,
      numbers_of_anyOf? rest isOther none.2]
    rfl

end

/-! ### Behind a closed group -/

/-- The parts, outside of all groups, or the outermost frame are more than a single group. -/
def CompoundAt : Option Frame → List Tree → Prop
  | none, parts => 2 ≤ parts.length ∨
      ∃ least most greedy sub, parts = [.repetition least most greedy sub]
  | some (.branches _), _ => True
  | some (.group before _ _ _), _ => before ≠ []

/-- What has been read is more than a single group. -/
def Reading.Compound (r : Reading) : Prop := CompoundAt r.frames.getLast? r.parts

theorem CompoundAt.longer {last : Option Frame} {parts : List Tree} (h : CompoundAt last parts)
    (tree : Tree) : CompoundAt last (tree :: parts) := by
  cases last with
  | none =>
    refine Or.inl ?_
    rcases h with several | ⟨least, most, greedy, sub, rfl⟩
    · exact several.trans (by simp)
    · exact le_refl 2
  | some frame => cases frame <;> exact h

theorem CompoundAt.ne_nil {parts : List Tree} (h : CompoundAt none parts) : parts ≠ [] := by
  rintro rfl
  rcases h with several | ⟨_, _, _, _, same⟩
  · exact absurd several (by simp)
  · cases same

/-- A group that is opened inside of something larger is in something larger. -/
theorem CompoundAt.opened {frames : List Frame} {parts : List Tree}
    (h : CompoundAt frames.getLast? parts) (index : Option Nat) (changes : FlagChanges)
    (extended : Bool) :
    CompoundAt (.group parts index changes extended :: frames : List Frame).getLast? [] := by
  rw [List.getLast?_cons]
  cases isLast : frames.getLast? with
  | none =>
    rw [isLast] at h
    exact h.ne_nil
  | some frame =>
    rw [isLast] at h
    cases frame <;> exact h

/-- So is what stands behind it. -/
theorem CompoundAt.closed {frames : List Frame} {before parts : List Tree} {index : Option Nat}
    {changes : FlagChanges} {extended : Bool}
    (h : CompoundAt (.group before index changes extended :: frames : List Frame).getLast? parts)
    (tree : Tree) : CompoundAt frames.getLast? (tree :: before) := by
  rw [List.getLast?_cons] at h
  cases isLast : frames.getLast? with
  | none =>
    rw [isLast] at h
    refine Or.inl ?_
    obtain ⟨first, rest, rfl⟩ := List.exists_cons_of_ne_nil h
    simp
  | some frame =>
    rw [isLast] at h
    cases frame <;> exact h

theorem CompoundAt.parts {frame : Frame} {parts : List Tree} (h : CompoundAt (some frame) parts)
    (others : List Tree) : CompoundAt (some frame) others := by
  cases frame <;> exact h

/-- Branches are something larger themselves, or they are in what was so before. -/
theorem CompoundAt.branched {frames : List Frame} (parts : List Tree)
    (h : ∀ frame, frames.getLast? = some frame → CompoundAt (some frame) parts)
    (trees others : List Tree) :
    CompoundAt (.branches trees :: frames : List Frame).getLast? others := by
  rw [List.getLast?_cons]
  cases isLast : frames.getLast? with
  | none => trivial
  | some frame => exact (h frame isLast).parts _

/-- Taking the branches together leaves the outermost frame, unless there is no other. -/
theorem Reading.getLast?_frames_of_body {frame : Frame} {frames : List Frame}
    (h : r.body = (tree, frame :: frames)) :
    r.frames.getLast? = (frame :: frames).getLast? := by
  unfold Reading.body at h
  split at h
  · rename_i isFrames
    cases h
    rw [isFrames, List.getLast?_cons_cons]
  · rw [(Prod.mk.inj h).2]

/-- What is more than a single group stays so. -/
theorem compound_act? (h : r.Compound) (applied : action.act? r = some r') : r'.Compound := by
  cases action with
  | push tree =>
    cases applied
    exact h.longer tree
  | setFlags changes =>
    cases applied
    exact h.longer _
  | openGroup changes =>
    cases applied
    exact h.opened _ _ _
  | capture name =>
    obtain ⟨names, rfl⟩ := exists_of_capture applied
    exact h.opened _ _ _
  | close =>
    obtain ⟨tree, before, index, changes, extended, frames, isBody, rfl⟩ := exists_of_close applied
    rw [Reading.Compound, Reading.getLast?_frames_of_body isBody] at h
    exact h.closed _
  | alternate =>
    cases applied
    unfold Reading.Compound at h
    unfold Reading.alternate
    split
    · rename_i trees frames isFrames
      rw [isFrames, List.getLast?_cons] at h
      refine CompoundAt.branched r.parts (fun frame isLast => ?_) _ _
      rwa [isLast] at h
    · exact CompoundAt.branched r.parts (fun frame isLast => isLast ▸ h) _ _
  | repeatLast least most greedy =>
    obtain ⟨last, parts, isParts, rfl⟩ := exists_of_repeatLast applied
    unfold Reading.Compound at h ⊢
    simp only
    cases isLast : r.frames.getLast? with
    | none =>
      rw [isLast, isParts] at h
      rcases h with several | ⟨_, _, _, _, same⟩
      · exact Or.inl several
      · cases same
        exact Or.inr ⟨_, _, _, _, rfl⟩
    | some frame =>
      rw [isLast] at h
      exact h.parts _

/-- Whatever comes behind a single tree makes something larger of it. -/
theorem compound_of_single (outside : r.frames = []) (single : r.parts = [tree])
    (applied : action.act? r = some r') : r'.Compound := by
  unfold Reading.Compound
  cases action with
  | push tree =>
    cases applied
    simp only [Reading.push, outside, single]
    exact Or.inl (le_refl 2)
  | setFlags changes =>
    cases applied
    simp only [Reading.push, outside, single]
    exact Or.inl (le_refl 2)
  | openGroup changes =>
    cases applied
    simp only [Reading.openGroup, outside, single]
    exact List.cons_ne_nil _ _
  | capture name =>
    obtain ⟨names, rfl⟩ := exists_of_capture applied
    simp only [Reading.openCapture, Reading.openGroup, outside, single]
    exact List.cons_ne_nil _ _
  | close =>
    simp only [Action.act?, Reading.closeGroup?, Reading.body, outside] at applied
    exact absurd applied (by simp)
  | alternate =>
    cases applied
    simp only [Reading.alternate, outside]
    trivial
  | repeatLast least most greedy =>
    obtain ⟨last, parts, isParts, rfl⟩ := exists_of_repeatLast applied
    obtain ⟨rfl, rfl⟩ := List.cons.inj (single.symm.trans isParts)
    simp only [outside]
    exact Or.inr ⟨_, _, _, _, rfl⟩

theorem Reading.Compound.ne_group (h : r.Compound) (finished : r.finish? = some tree)
    (index : Option Nat) (changes : FlagChanges) (sub : Tree) :
    tree ≠ .group index changes sub := by
  unfold Reading.Compound at h
  unfold Reading.finish? Reading.body at finished
  split at finished
  · rename_i isBody
    cases finished
    split at isBody
    · cases isBody
      simp
    · obtain ⟨rfl, outside⟩ := Prod.mk.inj isBody
      rw [outside] at h
      rcases h with several | ⟨_, _, _, _, single⟩
      · rw [Reading.sequence, sequence_of_several (by rwa [List.length_reverse])]
        simp
      · rw [Reading.sequence, single]
        simp [Tree.inSequence]
  · exact absurd finished (by simp)

/-- A group with text behind it is not all that is read. -/
theorem readAll_ne_group (plain : r.extended = false) (outside : r.frames = [])
    (single : r.parts = [tree]) (nonempty : cs ≠ []) (index : Option Nat) (changes : FlagChanges)
    (sub : Tree) : readAll r cs ≠ some (.group index changes sub) := by
  intro read
  rcases readAll_eq_some read with
    ⟨isEnd, -⟩ | ⟨c, rest, action, after, r', -, -, applied, -, read⟩
  · rw [plain, skipBlank, if_neg (by simp)] at isEnd
    exact nonempty isEnd
  · obtain ⟨last, compound, finished⟩ := exists_finish_of_readAll (P := Reading.Compound)
      (fun _ _ _ => compound_act?) (compound_of_single outside single applied) read
    exact compound.ne_group finished index changes sub rfl

/-! ### Inside a group -/

/-- The state of a reading that goes on in a group which another one has opened; the group has a
number if it captures. -/
def Reading.inside (o : Reading) (index : Option Nat) (p : Reading) : Reading :=
  { p with
    frames := p.frames ++ .group o.parts index [] o.extended :: o.frames
    groups := o.groups + index.toList.length
    names := o.names }

variable {index number : Option Nat}

theorem body_inside (o p : Reading) : (o.inside index p).body =
    (p.body.1, p.body.2 ++ .group o.parts index [] o.extended :: o.frames) := by
  unfold Reading.body Reading.inside
  cases isFrames : p.frames with
  | nil => rfl
  | cons frame frames => cases frame <;> rfl

theorem finish?_inside (o p : Reading) : (o.inside index p).finish? = none := by
  unfold Reading.finish?
  rw [body_inside]
  split
  · rename_i same
    exact absurd (Prod.mk.inj same).2 (by simp)
  · rfl

/-- Where no group is left open inside, a closing parenthesis ends the group. -/
theorem closeGroup?_inside_of_body (o : Reading) (h : p.body.2 = []) :
    (o.inside index p).closeGroup? =
      some (o.grow [.group index [] p.body.1] index.toList.length) := by
  unfold Reading.closeGroup?
  rw [body_inside, h]
  rfl

/-- Every other construct acts inside as it does by itself. -/
theorem act?_inside (o p : Reading) (noCapture : ∀ name, action ≠ .capture name)
    (opened : action = .close → p.body.2 ≠ []) :
    action.act? (o.inside index p) = (action.act? p).map (o.inside index) := by
  cases action with
  | push tree => rfl
  | setFlags changes => rfl
  | openGroup changes => rfl
  | capture name => exact absurd rfl (noCapture name)
  | close =>
    simp only [Action.act?, Reading.closeGroup?]
    rw [body_inside]
    have open_ := opened rfl
    cases isBody : p.body.2 with
    | nil => exact absurd isBody open_
    | cons frame frames =>
      rw [show p.body = (p.body.1, frame :: frames) from Prod.ext rfl isBody]
      cases frame <;> rfl
  | alternate =>
    simp only [Action.act?, Option.map_some, Option.some.injEq]
    unfold Reading.alternate Reading.inside
    cases isFrames : p.frames with
    | nil => rfl
    | cons frame frames => cases frame <;> rfl
  | repeatLast least most greedy =>
    simp only [Action.act?]
    unfold Reading.repeatLast?
    rw [show (o.inside index p).parts = p.parts from rfl]
    cases isParts : p.parts with
    | nil => rfl
    | cons last parts => cases last <;> rfl

/-- The group itself captures if it has a number. -/
theorem le_captures_inside (o p : Reading) :
    index.toList.length ≤ (o.inside index p).captures := by
  simp only [Reading.captures, Reading.inside, List.map_append, List.map_cons, List.sum_append,
    List.sum_cons, Frame.captures]
  omega

/-- What is read as one group without a capturing group inside is read so wherever the group has
been opened. -/
theorem readAll_inside (noCapture : tree.captures = 0)
    (read : readAll (({} : Reading).inside index p) cs = some (.group index [] tree)) (o : Reading)
    (number : Option Nat) (t : List Char) :
    readAll (o.inside number p) (cs ++ t) =
      readAll (o.grow [.group number [] tree] number.toList.length) t := by
  induction len : cs.length using Nat.strong_induction_on generalizing p cs with
  | _ length ih =>
    obtain ⟨-, finished⟩ |
      ⟨c, rest, action, after, r', isStart, isAction, applied, shorter, found⟩ :=
        readAll_eq_some read
    · rw [finish?_inside] at finished
      exact absurd finished (by simp)
    have free : ∀ name, action ≠ .capture name := by
      rintro name rfl
      have own := @le_captures_inside index {} p
      have opened := captures_act? applied
      have kept := captures_le_of_readAll found
      rw [Tree.captures, noCapture] at kept
      simp only at opened
      omega
    have isStart' : skipBlank (o.inside number p).extended (cs ++ t) = c :: (rest ++ t) :=
      skipBlank_append_of_cons isStart t
    have shorter' : (after ++ t).length < (cs ++ t).length := by
      rw [List.length_append, List.length_append]
      exact Nat.add_lt_add_right shorter _
    by_cases closes : action = .close ∧ p.body.2 = []
    · obtain ⟨rfl, atEnd⟩ := closes
      obtain rfl := Option.some.inj ((closeGroup?_inside_of_body _ atEnd).symm.trans applied)
      have atLast : after = [] := by
        by_contra more
        exact readAll_ne_group rfl rfl rfl more index [] tree found
      subst atLast
      obtain rfl : p.body.1 = tree := by
        rw [readAll_nil] at found
        have same : some (Tree.group index [] p.body.1) = some (.group index [] tree) := found
        simpa using same
      exact readAll_of_act? isStart' (readAction_append isAction free (Or.inl rfl) t)
        (closeGroup?_inside_of_body o atEnd) shorter'
    · have opened : action = .close → p.body.2 ≠ [] := fun isClose none => closes ⟨isClose, none⟩
      rw [act?_inside _ _ free opened] at applied
      obtain ⟨p', applied', rfl⟩ := Option.map_eq_some_iff.mp applied
      have more : after ≠ [] := by
        rintro rfl
        rw [readAll_nil, finish?_inside] at found
        exact absurd found (by simp)
      have applied'' : action.act? (o.inside number p) = some (o.inside number p') := by
        rw [act?_inside _ _ free opened, applied', Option.map_some]
      rw [readAll_of_act? isStart' (readAction_append isAction free (Or.inr more) t) applied''
        shorter']
      exact ih _ (by omega) found rfl

/-! ### Enclosed texts -/

/-- In a group of its own the text is read as this group, and no group inside of it captures. -/
def Enclosed (source : String) : Prop :=
  ∃ tree, Tree.ofSource? ('(' :: '?' :: ':' :: (source.toList ++ [')'])) =
    some (.group none [] tree) ∧ tree.captures = 0

/-- An enclosed text in a group of its own adds the same group wherever it stands. -/
theorem adds_of_enclosed {source : String} (enclosed : Enclosed source) :
    ∃ tree, Adds ('(' :: '?' :: ':' :: (source.toList ++ [')'])) (.group none [] tree) ∧
      tree.captures = 0 := by
  obtain ⟨tree, isTree, noCapture⟩ := enclosed
  obtain ⟨whole, read, isWhole⟩ := Option.bind_eq_some_iff.mp isTree
  have same : whole = .group none [] tree := by
    split at isWhole
    · exact Option.some.inj isWhole
    · exact absurd isWhole (by simp)
  rw [same, readAll_open rfl] at read
  refine ⟨tree, fun r rest plain => ?_, noCapture⟩
  have opened : r.openGroup none [] = r.inside none {} := by
    simp [Reading.openGroup, Reading.inside, plain]
  rw [List.cons_append, List.cons_append, List.cons_append, readAll_open plain, opened]
  exact readAll_inside noCapture read r none rest

/-- In parentheses the text is read as one capturing group, and no group inside of it captures. -/
def Contained (cs : List Char) (tree : Tree) : Prop :=
  readAll {} ('(' :: (cs ++ [')'])) = some (.group (some 1) [] tree) ∧ tree.captures = 0

/-- A contained text in parentheses writes this group wherever it stands. -/
theorem writes_of_contained {index : Nat} (contained : Contained cs tree)
    (head : cs.head? ≠ some '?') :
    Writes index ('(' :: (cs ++ [')'])) [.group (some index) [] tree] 1 := by
  obtain ⟨read, noCapture⟩ := contained
  have inside : (cs ++ [')']).head? ≠ some '?' := head?_append_ne head (by simp)
  rw [readAll_capture rfl inside] at read
  change readAll (({} : Reading).inside (some 1) {}) _ = _ at read
  intro r rest plain isIndex _
  have opened : r.openCapture = r.inside (some index) {} := by
    simp [Reading.openCapture, Reading.openGroup, Reading.inside, plain, isIndex]
  rw [List.cons_append, readAll_capture plain
    (List.append_assoc cs _ _ ▸ head?_append_ne head (by simp)), opened]
  exact readAll_inside noCapture read r (some index) rest

end Waymark.Regex
