/-
Bracketed classes in longer texts.

A class is read construct by construct (`readClassMembers_eq`).  A construct may only be
taken for another one in a longer text if the class does not end, and where no class ends
(`Unclosed`) none is read.

* `readClassAction_append` — a single construct;
* `readBracket_append` — a whole class.
-/
import Waymark.Proofs.Regex.ClassMembers

namespace Waymark.Regex

variable {extended : Bool} {cs ds after t : List Char}

/-! ### Members of classes -/

/-- What a construct between brackets does. -/
inductive ClassAction
  | member (item : ClassItem)
  | open (negated : Bool) (first : List ClassItem)
  | close
  | operation (kind : ClassOperation)

/-- The reader's state between two constructs in brackets: the open classes, and the sign and the
members of the innermost one. -/
abbrev ClassState := List ClassFrame × Bool × List ClassItem

/-- The state after a construct, or the class that it ends. -/
def ClassAction.apply (state : ClassState) : ClassAction → ClassState ⊕ Bool × ClassBody
  | .member item => .inl (state.1, state.2.1, item :: state.2.2)
  | .open negated first => .inl (.outer state.2.2 state.2.1 :: state.1, negated, first)
  | .close =>
    match closeOperation state.1 (.union state.2.2.reverse) with
    | (body, .outer items negated :: frames) =>
      .inl (frames, negated, .bracketed state.2.1 body :: items)
    | (body, _) => .inr (state.2.1, body)
  | .operation kind =>
    let (body, frames) := closeOperation state.1 (.union state.2.2.reverse)
    .inl (.left kind body :: frames, state.2.1, [])

/-- A class ends at a closing bracket only. -/
theorem ClassAction.exists_apply_eq_inl {action : ClassAction} (noClose : action ≠ .close)
    (state : ClassState) : ∃ state', action.apply state = .inl state' := by
  cases action with
  | close => exact absurd rfl noClose
  | member item => exact ⟨_, rfl⟩
  | «open» negated first => exact ⟨_, rfl⟩
  | operation kind => exact ⟨_, rfl⟩

/-- Reads one construct between brackets. -/
def readClassAction (extended : Bool) (cs : List Char) : Option (ClassAction × List Char) :=
  match skipBlank extended cs with
  | [] => none
  | '[' :: rest =>
    match readAsciiClass? rest with
    | some (item, after) => some (.member item, after)
    | none => (readClassStart extended rest).map fun start => (.open start.1 start.2.1, start.2.2)
  | ']' :: rest => some (.close, rest)
  | '&' :: '&' :: rest => some (.operation .intersection, rest)
  | '-' :: '-' :: rest => some (.operation .difference, rest)
  | '~' :: '~' :: rest => some (.operation .symmetricDifference, rest)
  | start => (readClassMember extended start).map fun pair => (.member pair.1, pair.2)

theorem readClassMembers_eq (frames : List ClassFrame) (negated : Bool) (items : List ClassItem)
    (cs : List Char) :
    readClassMembers extended frames negated items cs =
      (readClassAction extended cs).bind fun step =>
        match step.1.apply (frames, negated, items) with
        | .inl state =>
          if step.2.length < cs.length then
            readClassMembers extended state.1 state.2.1 state.2.2 step.2
          else none
        | .inr (negated, body) => some (negated, body, step.2) := by
  rw [readClassMembers.eq_def]
  split
  rename_i body others isClosed
  unfold readClassAction
  generalize skipBlank extended cs = start
  split
  · rfl
  · rename_i rest
    simp only
    cases readAsciiClass? rest with
    | some pair => rfl
    | none =>
      simp only
      cases readClassStart extended rest <;> rfl
  · simp only [Option.bind_some, ClassAction.apply, isClosed]
    cases others with
    | nil => rfl
    | cons frame others => cases frame <;> rfl
  · simp only [Option.bind_some, ClassAction.apply, isClosed]
    rfl
  · simp only [Option.bind_some, ClassAction.apply, isClosed]
    rfl
  · simp only [Option.bind_some, ClassAction.apply, isClosed]
    rfl
  · simp only
    cases readClassMember extended start <;> rfl

/-- Neither a closing bracket nor a backslash stands in the text. -/
def Unclosed (cs : List Char) : Prop := ∀ c ∈ cs, c ≠ ']' ∧ c ≠ '\\'

theorem not_unclosed : ¬ Unclosed cs ↔ ∃ c ∈ cs, c = ']' ∨ c = '\\' := by
  simp only [Unclosed, not_forall, not_and_or, not_not, exists_prop]

theorem Unclosed.of_subset (h : Unclosed cs) (subset : ds ⊆ cs) : Unclosed ds :=
  fun c member => h c (subset member)

mutual

theorem dropBlank_subset (cs : List Char) : dropBlank cs ⊆ cs := by
  match cs with
  | [] => exact List.Subset.refl _
  | c :: cs =>
    rw [dropBlank]
    split
    · exact List.Subset.trans (dropBlank_subset cs) (List.subset_cons_self c cs)
    · split
      · exact List.Subset.trans (dropComment_subset cs) (List.subset_cons_self c cs)
      · exact List.Subset.refl _

theorem dropComment_subset (cs : List Char) : dropComment cs ⊆ cs := by
  match cs with
  | [] => exact List.Subset.refl _
  | c :: cs =>
    rw [dropComment]
    split
    · exact List.Subset.trans (dropBlank_subset cs) (List.subset_cons_self c cs)
    · exact List.Subset.trans (dropComment_subset cs) (List.subset_cons_self c cs)

end

theorem skipBlank_subset (extended : Bool) (cs : List Char) : skipBlank extended cs ⊆ cs := by
  cases extended with
  | false => exact List.Subset.refl _
  | true => exact dropBlank_subset cs

theorem skipBlank?_subset (h : skipBlank? extended cs = some ds) : ds ⊆ cs := by
  unfold skipBlank? at h
  split at h
  · exact absurd h (by simp)
  · rename_i isRest
    cases h
    rw [← isRest]
    exact skipBlank_subset extended cs

theorem readLeadingHyphens_subset {items result : List ClassItem}
    (h : readLeadingHyphens extended items cs = some (result, after)) : after ⊆ cs := by
  induction len : cs.length using Nat.strong_induction_on generalizing cs items with
  | _ length ih =>
    rw [readLeadingHyphens_eq] at h
    split at h
    · rename_i rest
      split at h
      · exact absurd h (by simp)
      · have bound := length_skipBlank_le extended rest
        rw [List.length_cons] at len
        exact List.subset_cons_of_subset _
          (List.Subset.trans (ih _ (by omega) h rfl) (skipBlank_subset extended rest))
    · cases h
      exact List.Subset.refl _

theorem readSign_subset {negated : Bool} (h : readSign extended cs = some (negated, after)) :
    after ⊆ cs := by
  unfold readSign at h
  split at h
  · obtain ⟨_, isSkipped, same⟩ := Option.map_eq_some_iff.mp h
    cases same
    exact List.subset_cons_of_subset _ (skipBlank?_subset isSkipped)
  · cases h
    exact List.Subset.refl _

theorem readFirstBracket_subset {items first : List ClassItem}
    (h : readFirstBracket extended items cs = some (first, after)) : after ⊆ cs := by
  unfold readFirstBracket at h
  split at h
  · obtain ⟨_, isSkipped, same⟩ := Option.map_eq_some_iff.mp h
    cases same
    exact List.subset_cons_of_subset _ (skipBlank?_subset isSkipped)
  · cases h
    exact List.Subset.refl _

theorem readClassStart_subset {negated : Bool} {items : List ClassItem}
    (h : readClassStart extended cs = some (negated, items, after)) : after ⊆ cs := by
  obtain ⟨start, body, hyphens, rest, isStart, isBody, isRest, isLast⟩ :=
    readClassStart_eq_some.mp h
  have ofBody : after ⊆ body :=
    List.Subset.trans (readFirstBracket_subset isLast) (readLeadingHyphens_subset isRest)
  exact List.Subset.trans (List.Subset.trans ofBody (readSign_subset isBody))
    (skipBlank?_subset isStart)

namespace Unclosed

/-- Without a backslash a member is a character or a range. -/
theorem readClassAtom_subset (h : Unclosed cs) {first : Escape}
    (read : readClassAtom extended cs = some (first, after)) : after ⊆ cs := by
  unfold readClassAtom at read
  split at read
  · exact absurd read (by simp)
  · exact absurd rfl (h _ List.mem_cons_self).2
  · cases read
    exact List.subset_cons_self _ _

theorem readMemberEnd_subset (h : Unclosed cs) {first : Escape} {item : ClassItem}
    (read : readMemberEnd extended first cs = some (item, after)) : after ⊆ cs := by
  unfold readMemberEnd at read
  split at read
  · rename_i past
    split at read
    · obtain ⟨member, isMember, same⟩ := Option.map_eq_some_iff.mp read
      cases same
      exact List.Subset.refl _
    · obtain ⟨⟨second, left⟩, isSecond, read⟩ := Option.bind_eq_some_iff.mp read
      obtain ⟨low, isLow, read⟩ := Option.bind_eq_some_iff.mp read
      obtain ⟨high, isHigh, read⟩ := Option.bind_eq_some_iff.mp read
      split at read
      · cases read
        have ofPast : skipBlank extended past ⊆ '-' :: past :=
          List.subset_cons_of_subset _ (skipBlank_subset extended past)
        exact List.Subset.trans ((h.of_subset ofPast).readClassAtom_subset isSecond) ofPast
      · exact absurd read (by simp)
  · obtain ⟨member, isMember, same⟩ := Option.map_eq_some_iff.mp read
    cases same
    exact List.Subset.refl _

theorem readClassMember_subset (h : Unclosed cs) {item : ClassItem}
    (read : readClassMember extended cs = some (item, after)) : after ⊆ cs := by
  obtain ⟨first, rest, start, isFirst, isStart, isEnd⟩ := readClassMember_eq_some.mp read
  have ofStart : start ⊆ cs :=
    List.Subset.trans (skipBlank?_subset isStart) (h.readClassAtom_subset isFirst)
  exact List.Subset.trans ((h.of_subset ofStart).readMemberEnd_subset isEnd) ofStart

theorem readClassAction_subset (h : Unclosed cs) {action : ClassAction}
    (read : readClassAction extended cs = some (action, after)) :
    action ≠ .close ∧ after ⊆ cs := by
  have ofStart := skipBlank_subset extended cs
  unfold readClassAction at read
  split at read
  · exact absurd read (by simp)
  · rename_i rest isStart
    rw [isStart] at ofStart
    have ofRest : rest ⊆ cs := List.Subset.trans (List.subset_cons_self _ _) ofStart
    split at read
    · rename_i isAscii
      obtain ⟨negated, name, kind, -, -, rfl⟩ := readAsciiClass?_eq_some.mp isAscii
      exact absurd rfl (h ']' (ofRest (by simp))).1
    · obtain ⟨⟨negated, items, left⟩, isOpen, same⟩ := Option.map_eq_some_iff.mp read
      cases same
      exact ⟨by simp, List.Subset.trans (readClassStart_subset isOpen) ofRest⟩
  · rename_i isStart
    rw [isStart] at ofStart
    exact absurd rfl (h ']' (ofStart List.mem_cons_self)).1
  case h_7 =>
    obtain ⟨⟨item, left⟩, isMember, same⟩ := Option.map_eq_some_iff.mp read
    cases same
    exact ⟨by simp,
      List.Subset.trans ((h.of_subset ofStart).readClassMember_subset isMember) ofStart⟩
  all_goals
    rename_i isStart
    rw [isStart] at ofStart
    cases read
    exact ⟨by simp, List.Subset.trans
      (List.subset_cons_of_subset _ (List.subset_cons_self _ _)) ofStart⟩

/-- No class ends in the text. -/
theorem readClassMembers_eq_none (h : Unclosed cs) (frames : List ClassFrame) (negated : Bool)
    (items : List ClassItem) : readClassMembers extended frames negated items cs = none := by
  induction len : cs.length using Nat.strong_induction_on generalizing cs frames negated items with
  | _ length ih =>
    rw [readClassMembers_eq]
    cases read : readClassAction extended cs with
    | none => rfl
    | some step =>
      obtain ⟨action, after⟩ := step
      obtain ⟨noClose, subset⟩ := h.readClassAction_subset read
      obtain ⟨state, isState⟩ := ClassAction.exists_apply_eq_inl noClose (frames, negated, items)
      simp only [Option.bind_some, isState]
      split
      · exact ih _ (by omega) (h.of_subset subset) _ _ _ rfl
      · rfl

end Unclosed

theorem exists_of_readClassMember {item : ClassItem}
    (read : readClassMember extended cs = some (item, after)) :
    ∃ c d tail, cs = c :: d :: tail := by
  obtain ⟨first, rest, start, isFirst, isStart, -⟩ := readClassMember_eq_some.mp read
  match cs, isFirst with
  | c :: d :: tail, _ => exact ⟨c, d, tail, rfl⟩
  | [c], isFirst =>
    unfold readClassAtom at isFirst
    split at isFirst
    · exact absurd isFirst (by simp)
    · rename_i same
      cases same
      exact absurd isFirst (by simp [readEscape])
    · rename_i same
      cases same
      cases isFirst
      exact absurd isStart (by simp [skipBlank?, skipBlank_nil])

/-- A construct between brackets is read from every longer text, if it is the bracket that closes
the class or the class is closed later. -/
theorem readClassAction_append {action : ClassAction}
    (read : readClassAction extended cs = some (action, after))
    (closed : action = .close ∨ ¬ Unclosed after) (t : List Char) :
    readClassAction extended (cs ++ t) = some (action, after ++ t) := by
  have nonempty : skipBlank extended cs ≠ [] := by
    intro empty
    rw [readClassAction, empty] at read
    exact absurd read (by simp)
  have more : action ≠ .close → after ≠ [] := by
    rintro noClose rfl
    exact (closed.resolve_left noClose) fun c member => absurd member List.not_mem_nil
  unfold readClassAction at read ⊢
  rw [skipBlank_append nonempty]
  split at read
  · exact absurd read (by simp)
  · rename_i rest isStart
    rw [isStart, List.cons_append]
    simp only
    split at read
    · rename_i isAscii
      cases read
      rw [readAsciiClass?_append isAscii]
    · rename_i noAscii
      obtain ⟨⟨negated, items, left⟩, isOpen, same⟩ := Option.map_eq_some_iff.mp read
      cases same
      obtain ⟨c, member, ends⟩ := not_unclosed.mp (closed.resolve_left (by simp))
      have has : ∃ c ∈ rest, c = ']' ∨ c = '\\' :=
        ⟨c, readClassStart_subset isOpen member, ends⟩
      rw [readAsciiClass?_append_eq_none noAscii has, readClassStart_append isOpen (more (by simp))]
      rfl
  · rename_i isStart
    rw [isStart]
    cases read
    rfl
  case h_7 =>
    rename_i noEnd noOpen noClose noAnd noMinus noTilde
    obtain ⟨⟨item, left⟩, isMember, same⟩ := Option.map_eq_some_iff.mp read
    cases same
    -- the two characters of an operation are there already
    obtain ⟨c, d, tail, isStart⟩ := exists_of_readClassMember isMember
    have longer := local_readClassMember isMember (more (by simp)) t
    rw [isStart] at noOpen noClose noAnd noMinus noTilde longer ⊢
    rw [List.cons_append, List.cons_append] at longer ⊢
    split
    case h_1 same => cases same
    case h_2 same => exact (noOpen _ (by rw [(List.cons.inj same).1])).elim
    case h_3 same => exact (noClose _ (by rw [(List.cons.inj same).1])).elim
    case h_4 same => cases same; exact (noAnd _ rfl).elim
    case h_5 same => cases same; exact (noMinus _ rfl).elim
    case h_6 same => cases same; exact (noTilde _ rfl).elim
    case h_7 =>
      rw [longer]
      rfl
  all_goals
    rename_i isStart
    rw [isStart]
    cases read
    rfl

theorem readClassMembers_append {frames : List ClassFrame} {negated negated' : Bool}
    {items : List ClassItem} {body : ClassBody}
    (read : readClassMembers extended frames negated items cs = some (negated', body, after))
    (t : List Char) :
    readClassMembers extended frames negated items (cs ++ t) =
      some (negated', body, after ++ t) := by
  induction len : cs.length using Nat.strong_induction_on generalizing cs frames negated items with
  | _ length ih =>
    rw [readClassMembers_eq] at read ⊢
    obtain ⟨⟨action, left⟩, isAction, read⟩ := Option.bind_eq_some_iff.mp read
    simp only at read
    split at read
    · rename_i state isState
      split at read
      · rename_i shorter
        have closed : ¬ Unclosed left := by
          intro unclosed
          rw [unclosed.readClassMembers_eq_none] at read
          exact absurd read (by simp)
        rw [readClassAction_append isAction (Or.inr closed)]
        simp only [Option.bind_some, isState, List.length_append]
        rw [if_pos (by omega)]
        exact ih _ (by omega) read rfl
      · exact absurd read (by simp)
    · rename_i isEnd
      cases read
      have closes : action = .close := by
        by_contra noClose
        obtain ⟨state, isState⟩ := ClassAction.exists_apply_eq_inl noClose (frames, negated, items)
        rw [isState] at isEnd
        exact absurd isEnd (by simp)
      rw [readClassAction_append isAction (Or.inl closes)]
      simp only [Option.bind_some, isEnd]

theorem readBracket_append {negated : Bool} {body : ClassBody}
    (read : readBracket extended cs = some (negated, body, after)) (t : List Char) :
    readBracket extended (cs ++ t) = some (negated, body, after ++ t) := by
  unfold readBracket at read ⊢
  obtain ⟨⟨sign, items, rest⟩, isStart, isBody⟩ := Option.bind_eq_some_iff.mp read
  have goes : rest ≠ [] := by
    rintro rfl
    have unclosed : Unclosed ([] : List Char) := fun c member => absurd member List.not_mem_nil
    simp only [unclosed.readClassMembers_eq_none] at isBody
    exact absurd isBody (by simp)
  rw [readClassStart_append isStart goes]
  exact readClassMembers_append isBody t

end Waymark.Regex
