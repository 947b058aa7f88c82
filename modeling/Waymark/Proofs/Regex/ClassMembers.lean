/-
The members of a class in longer texts.

What stands in a class is read like what stands outside, but the readers look further
ahead: to the name of an ASCII class, and past a hyphen.

* `readAsciiClass?_append`, `readAsciiClass?_append_eq_none` — named classes;
* `readClassStart_eq_some`, `readClassStart_append` — what may follow an opening bracket;
* `readClassMember_eq_some`, `local_readClassMember` — characters and ranges.
-/
import Waymark.Proofs.Regex.Locality

namespace Waymark.Regex

variable {extended : Bool} {cs ds after t : List Char}

/-! ### Named classes -/

/-- The names of classes consist of letters. -/
theorem isAlpha_of_ofName? {name : List Char} {kind : AsciiClass}
    (h : AsciiClass.ofName? (String.ofList name) = some kind) : ∀ c ∈ name, c.isAlpha = true := by
  unfold AsciiClass.ofName? at h
  split at h
  case h_15 => exact absurd h (by simp)
  all_goals
    rename_i isName
    rw [← String.toList_ofList (l := name), isName]
    exact List.all_eq_true.mp rfl

/-- A name between colons, with a circumflex before it if it is negated. -/
def named (negated : Bool) (name : List Char) : List Char :=
  ':' :: ((if negated then ['^'] else []) ++ name ++ [':'])

theorem readAsciiClass?_named {name : List Char} {kind : AsciiClass}
    (isName : AsciiClass.ofName? (String.ofList name) = some kind) (negated : Bool)
    (after : List Char) :
    readAsciiClass? (named negated name ++ ']' :: after) = some (.ascii kind negated, after) := by
  have letters := isAlpha_of_ofName? isName
  have noColon : ∀ c ∈ name, decide (c ≠ ':') = true := by
    intro c member
    rw [decide_eq_true_eq]
    rintro rfl
    exact absurd (letters _ member) (by decide)
  have taken : (name ++ ':' :: ']' :: after).takeWhile (· ≠ ':') = name := by
    rw [List.takeWhile_append_of_pos noColon]
    simp
  have dropped : (name ++ ':' :: ']' :: after).dropWhile (· ≠ ':') = ':' :: ']' :: after := by
    rw [List.dropWhile_append_of_pos noColon]
    simp
  cases negated with
  | true =>
    rw [show named true name ++ ']' :: after = ':' :: '^' :: (name ++ ':' :: ']' :: after) by
      simp [named], readAsciiClass?]
    simp only [taken, dropped, isName]
  | false =>
    rw [show named false name ++ ']' :: after = ':' :: (name ++ ':' :: ']' :: after) by
      simp [named], readAsciiClass?]
    · simp only [taken, dropped, isName]
    · -- a letter is no circumflex
      intro tail same
      cases name with
      | nil => exact absurd (List.cons.inj same).1 (by decide)
      | cons c name =>
        obtain rfl : c = '^' := (List.cons.inj same).1
        exact absurd (letters _ List.mem_cons_self) (by decide)

/-- A named class is a name between colons, and then a bracket. -/
theorem readAsciiClass?_eq_some {item : ClassItem} :
    readAsciiClass? cs = some (item, after) ↔ ∃ negated name kind,
      AsciiClass.ofName? (String.ofList name) = some kind ∧ item = .ascii kind negated ∧
        cs = named negated name ++ ']' :: after := by
  constructor
  · intro h
    unfold readAsciiClass? at h
    split at h
    · rename_i rest
      split at h
      rename_i negated name isName
      split at h
      · rename_i kind left isKind isLeft
        cases h
        refine ⟨negated, _, kind, isKind, rfl, ?_⟩
        have whole : name = name.takeWhile (· ≠ ':') ++ ':' :: ']' :: after := by
          rw [← isLeft, List.takeWhile_append_dropWhile]
        split at isName <;> cases isName <;> rw [named] <;> simpa using whole
      · exact absurd h (by simp)
    · exact absurd h (by simp)
  · rintro ⟨negated, name, kind, isName, rfl, rfl⟩
    exact readAsciiClass?_named isName negated after

/-- A name between colons is neither a bracket nor a backslash. -/
theorem ne_of_mem_named {negated : Bool} {name : List Char} {kind : AsciiClass}
    (h : AsciiClass.ofName? (String.ofList name) = some kind) :
    ∀ c ∈ named negated name, c ≠ ']' ∧ c ≠ '\\' := by
  intro c member
  have letters := isAlpha_of_ofName? h
  have inName : c ∈ name → c ≠ ']' ∧ c ≠ '\\' := by
    intro member
    constructor <;> rintro rfl <;> exact absurd (letters _ member) (by decide)
  cases negated <;> simp only [named, List.mem_cons, List.mem_append, if_true, Bool.false_eq_true,
    if_false, List.not_mem_nil, or_false, false_or] at member
  · rcases member with rfl | member | rfl
    · decide
    · exact inName member
    · decide
  · rcases member with rfl | (rfl | member) | rfl
    · decide
    · decide
    · exact inName member
    · decide

theorem readAsciiClass?_append {item : ClassItem} (h : readAsciiClass? cs = some (item, after))
    (t : List Char) : readAsciiClass? (cs ++ t) = some (item, after ++ t) := by
  obtain ⟨negated, name, kind, isName, isItem, rfl⟩ := readAsciiClass?_eq_some.mp h
  exact readAsciiClass?_eq_some.mpr ⟨negated, name, kind, isName, isItem, by simp⟩

/-- What is no named class does not become one in a longer text, if it has a bracket or a
backslash. -/
theorem readAsciiClass?_append_eq_none (h : readAsciiClass? cs = none)
    (has : ∃ c ∈ cs, c = ']' ∨ c = '\\') (t : List Char) : readAsciiClass? (cs ++ t) = none := by
  rw [Option.eq_none_iff_forall_ne_some]
  rintro ⟨item, after⟩ read
  obtain ⟨negated, name, kind, isName, rfl, same⟩ := readAsciiClass?_eq_some.mp read
  have outside : ¬ ∃ more, named negated name = cs ++ more := by
    rintro ⟨more, isNamed⟩
    obtain ⟨c, member, bad⟩ := has
    have other := ne_of_mem_named isName c (by rw [isNamed]; exact List.mem_append_left _ member)
    exact bad.elim other.1 other.2
  rcases List.append_eq_append_iff.mp same with ⟨more, isNamed, -⟩ | ⟨more, rfl, isAfter⟩
  · exact outside ⟨more, isNamed⟩
  · cases more with
    | nil => exact outside ⟨[], by simp⟩
    | cons c more =>
      obtain rfl : c = ']' := (List.cons.inj isAfter).1.symm
      rw [readAsciiClass?_named isName] at h
      exact absurd h (by simp)

/-! ### Bracketed classes -/

theorem readLeadingHyphens_eq (items : List ClassItem) (cs : List Char) :
    readLeadingHyphens extended items cs =
      match cs with
      | '-' :: rest =>
        if (skipBlank extended rest).isEmpty then none
        else readLeadingHyphens extended (hyphen :: items) (skipBlank extended rest)
      | _ => some (items, cs) := by
  rw [readLeadingHyphens.eq_def]
  split
  · rfl
  · rename_i other
    split
    · exact absurd rfl (other _)
    · rfl

theorem local_readLeadingHyphens (items : List ClassItem) :
    Local (readLeadingHyphens extended items) := by
  intro cs result after h more t
  induction len : cs.length using Nat.strong_induction_on generalizing cs items with
  | _ length ih =>
    rw [readLeadingHyphens_eq] at h ⊢
    split at h
    · rename_i rest
      split at h
      · exact absurd h (by simp)
      · rename_i goes
        rw [List.isEmpty_iff] at goes
        have bound := length_skipBlank_le extended rest
        rw [List.length_cons] at len
        rw [List.cons_append]
        simp only
        rw [skipBlank_append goes, if_neg (by simp [goes])]
        exact ih _ (by omega) _ h rfl
    · rename_i other
      cases h
      obtain ⟨c, rest, rfl⟩ := List.exists_cons_of_ne_nil more
      rw [List.cons_append]
      split
      · rename_i same
        exact absurd (by rw [(List.cons.inj same).1]) (other rest)
      · rfl

/-- The circumflex of a negated class. -/
def readSign (extended : Bool) (cs : List Char) : Option (Bool × List Char) :=
  match cs with
  | '^' :: rest => (skipBlank? extended rest).map fun rest => (true, rest)
  | _ => some (false, cs)

/-- The closing bracket that stands for itself where no hyphens open a class. -/
def readFirstBracket (extended : Bool) (items : List ClassItem) (cs : List Char) :
    Option (List ClassItem × List Char) :=
  match items, cs with
  | [], ']' :: rest => (skipBlank? extended rest).map fun rest => ([.literal ⟨']', false⟩], rest)
  | _, _ => some (items, cs)

theorem readClassStart_eq (cs : List Char) :
    readClassStart extended cs =
      (skipBlank? extended cs).bind fun start => (readSign extended start).bind fun signed =>
        (readLeadingHyphens extended [] signed.2).bind fun opened =>
          (readFirstBracket extended opened.1 opened.2).map fun first =>
            (signed.1, first.1, first.2) := by
  refine congrArg (Option.bind _) (funext fun start => ?_)
  have inner : ∀ (negated : Bool) (items : List ClassItem) (cs : List Char),
      (match items, cs with
        | [], ']' :: rest => (skipBlank? extended rest).bind fun rest =>
            some (negated, [ClassItem.literal ⟨']', false⟩], rest)
        | _, _ => some (negated, items, cs)) =
      (readFirstBracket extended items cs).map fun first => (negated, first.1, first.2) := by
    intro negated items cs
    split
    · rw [readFirstBracket]
      cases skipBlank? extended _ <;> rfl
    · rename_i other
      rw [readFirstBracket]
      · rfl
      · exact other
  split
  · rw [readSign]
    exact congrArg (Option.bind _) (funext fun signed =>
      congrArg (Option.bind _) (funext fun opened => inner _ _ _))
  · rename_i other
    rw [readSign]
    · exact congrArg (Option.bind _) (funext fun signed =>
        congrArg (Option.bind _) (funext fun opened => inner _ _ _))
    · exact other

theorem local_readSign : Local (readSign extended) := by
  intro cs negated after h more t
  unfold readSign at h
  split at h
  · rename_i rest
    obtain ⟨start, isStart, same⟩ := Option.map_eq_some_iff.mp h
    cases same
    rw [List.cons_append, readSign, skipBlank?_append isStart]
    rfl
  · rename_i other
    cases h
    obtain ⟨c, rest, rfl⟩ := List.exists_cons_of_ne_nil more
    rw [List.cons_append, readSign]
    exact fun rest' same => other rest (by rw [(List.cons.inj same).1])

theorem local_readFirstBracket (items : List ClassItem) :
    Local (readFirstBracket extended items) := by
  intro cs result after h more t
  unfold readFirstBracket at h
  split at h
  · rename_i rest
    obtain ⟨start, isStart, same⟩ := Option.map_eq_some_iff.mp h
    cases same
    rw [List.cons_append, readFirstBracket, skipBlank?_append isStart]
    rfl
  · rename_i other
    cases h
    obtain ⟨c, rest, rfl⟩ := List.exists_cons_of_ne_nil more
    rw [List.cons_append, readFirstBracket]
    exact fun rest' none same => other rest none (by rw [(List.cons.inj same).1])

/-- What follows an opening bracket, part by part. -/
theorem readClassStart_eq_some {negated : Bool} {items : List ClassItem} :
    readClassStart extended cs = some (negated, items, after) ↔
      ∃ start body hyphens rest, skipBlank? extended cs = some start ∧
        readSign extended start = some (negated, body) ∧
        readLeadingHyphens extended [] body = some (hyphens, rest) ∧
        readFirstBracket extended hyphens rest = some (items, after) := by
  rw [readClassStart_eq]
  constructor
  · intro h
    obtain ⟨start, isStart, h⟩ := Option.bind_eq_some_iff.mp h
    obtain ⟨⟨sign, body⟩, isBody, h⟩ := Option.bind_eq_some_iff.mp h
    obtain ⟨⟨hyphens, rest⟩, isRest, h⟩ := Option.bind_eq_some_iff.mp h
    obtain ⟨⟨first, last⟩, isLast, same⟩ := Option.map_eq_some_iff.mp h
    cases same
    exact ⟨start, body, hyphens, rest, isStart, isBody, isRest, isLast⟩
  · rintro ⟨start, body, hyphens, rest, isStart, isBody, isRest, isLast⟩
    simp [isStart, isBody, isRest, isLast]

theorem readClassStart_append {negated : Bool} {items : List ClassItem}
    (h : readClassStart extended cs = some (negated, items, after)) (more : after ≠ [])
    (t : List Char) : readClassStart extended (cs ++ t) = some (negated, items, after ++ t) := by
  obtain ⟨start, body, hyphens, rest, isStart, isBody, isRest, isLast⟩ :=
    readClassStart_eq_some.mp h
  have goes : rest ≠ [] := by
    rintro rfl
    rw [readFirstBracket] at isLast
    · cases isLast
      exact more rfl
    · simp
  have starts : body ≠ [] := by
    rintro rfl
    rw [readLeadingHyphens_eq] at isRest
    cases isRest
    exact goes rfl
  exact readClassStart_eq_some.mpr ⟨_, _, hyphens, _, skipBlank?_append isStart t,
    local_readSign isBody starts t, local_readLeadingHyphens _ isRest goes t,
    local_readFirstBracket _ isLast more t⟩

theorem dropBlank_dropWhile (cs : List Char) : dropBlank (cs.dropWhile isBlank) = dropBlank cs := by
  induction cs with
  | nil => rfl
  | cons c cs ih =>
    rw [List.dropWhile_cons]
    split
    · rename_i blank
      rw [ih, dropBlank, if_pos blank]
    · rfl

theorem dropComment_eq_nil (h : cs.dropWhile isBlank = []) : dropComment cs = [] := by
  induction cs with
  | nil => rfl
  | cons c cs ih =>
    rw [List.dropWhile_cons] at h
    split at h
    · rw [dropComment]
      split
      · rw [← dropBlank_dropWhile, h]
        rfl
      · exact ih h
    · exact absurd h (by simp)

/-- The text that follows a hyphen goes far enough to tell whether the hyphen makes a range. -/
def Decided (extended : Bool) (cs : List Char) : Prop :=
  cs ≠ [] ∧ (extended = true → cs.dropWhile isBlank ≠ [] ∧
    ∀ rest, cs.dropWhile isBlank = '#' :: rest → rest.dropWhile isBlank ≠ [])

theorem decided_of_skipBlank (h : skipBlank extended cs ≠ []) : Decided extended cs := by
  refine ⟨?_, ?_⟩
  · rintro rfl
    exact h (skipBlank_nil extended)
  · rintro rfl
    rw [skipBlank, if_pos rfl, ← dropBlank_dropWhile] at h
    refine ⟨fun empty => h (by rw [empty]; rfl), fun rest isRest empty => h ?_⟩
    have visible : ¬ isBlank '#' = true := by
      intro blank
      have := List.head_dropWhile_not isBlank (by rw [isRest]; simp : cs.dropWhile isBlank ≠ [])
      simp [isRest, blank] at this
    rw [isRest, dropBlank, if_neg visible, if_pos rfl, dropComment_eq_nil empty]

/-- A character that is neither blank nor begins a comment decides. -/
theorem decided_of_peek {c : Char} (h : peekPastHyphen extended cs = some c)
    (visible : isBlank c = false) (noComment : c ≠ '#') : Decided extended cs := by
  cases cs with
  | nil => cases extended <;> exact absurd h (by simp [peekPastHyphen])
  | cons d cs =>
    refine ⟨by simp, ?_⟩
    rintro rfl
    -- the first character does not decide by itself
    have first : isBlank d = true ∨ d = '#' → d ≠ c := by
      rintro (blank | rfl) rfl
      · rw [visible] at blank
        exact absurd blank (by simp)
      · exact noComment rfl
    rw [peekPastHyphen, if_pos rfl] at h
    refine ⟨fun empty => ?_, fun rest isRest empty => ?_⟩
    · rw [empty] at h
      refine first (Or.inl ?_) (Option.some.inj h)
      by_contra other
      rw [List.dropWhile_cons_of_neg other] at empty
      exact absurd empty (by simp)
    · rw [isRest] at h
      simp only [empty, List.head?_nil, List.head?_cons] at h
      refine first ?_ (Option.some.inj h)
      by_cases blank : isBlank d = true
      · exact Or.inl blank
      · rw [List.dropWhile_cons_of_neg blank] at isRest
        exact Or.inr (List.cons.inj isRest).1

/-- What is decided stays so in a longer text. -/
theorem peekPastHyphen_append (h : Decided extended cs) (t : List Char) :
    peekPastHyphen extended (cs ++ t) = peekPastHyphen extended cs := by
  obtain ⟨nonempty, far⟩ := h
  have head : (cs ++ t).head? = cs.head? := by
    obtain ⟨c, rest, rfl⟩ := List.exists_cons_of_ne_nil nonempty
    rfl
  cases extended with
  | false => exact head
  | true =>
    obtain ⟨visible, further⟩ := far rfl
    rw [peekPastHyphen, peekPastHyphen, if_pos rfl, if_pos rfl, head,
      dropWhile_append_of_ne_nil visible]
    obtain ⟨c, rest, isRest⟩ := List.exists_cons_of_ne_nil visible
    rw [isRest, List.cons_append]
    by_cases comment : c = '#'
    · subst comment
      have goes := further rest isRest
      obtain ⟨d, tail, isTail⟩ := List.exists_cons_of_ne_nil goes
      simp only [dropWhile_append_of_ne_nil goes, isTail, List.cons_append, List.head?_cons]
    · split
      · exact absurd (List.cons.inj ‹_›).1 comment
      · exact absurd ‹_› (by simp)
      · rename_i same
        cases same
        rfl

theorem local_readClassAtom : Local (readClassAtom extended) := by
  intro cs first after h more t
  unfold readClassAtom at h
  split at h
  · exact absurd h (by simp)
  · exact local_readEscape h more t
  · rename_i c rest noBackslash
    cases h
    rw [List.cons_append, readClassAtom]
    exact noBackslash

/-- What a member is that begins with `first`, by the text behind that: a range, or `first`
alone. -/
def readMemberEnd (extended : Bool) (first : Escape) (cs : List Char) :
    Option (ClassItem × List Char) :=
  match cs with
  | '-' :: past =>
    if peekPastHyphen extended past = some ']' || peekPastHyphen extended past = some '-' then
      first.classItem?.map fun item => (item, '-' :: past)
    else
      (readClassAtom extended (skipBlank extended past)).bind fun second =>
        first.literal?.bind fun low => second.1.literal?.bind fun high =>
          if low.char ≤ high.char then some (.range low high, second.2) else none
  | _ => first.classItem?.map fun item => (item, cs)

theorem readClassMember_eq (cs : List Char) :
    readClassMember extended cs =
      (readClassAtom extended cs).bind fun first =>
        (skipBlank? extended first.2).bind (readMemberEnd extended first.1) := by
  refine congrArg (Option.bind _) (funext fun first =>
    congrArg (Option.bind _) (funext fun start => ?_))
  split
  · rename_i past
    rw [readMemberEnd]
    cases first.1.classItem? <;> rfl
  · rename_i noHyphen
    rw [readMemberEnd]
    · cases first.1.classItem? <;> rfl
    · exact noHyphen

/-- A member by its parts: one end, and what it is by the text behind that. -/
theorem readClassMember_eq_some {item : ClassItem} :
    readClassMember extended cs = some (item, after) ↔
      ∃ first rest start, readClassAtom extended cs = some (first, rest) ∧
        skipBlank? extended rest = some start ∧
        readMemberEnd extended first start = some (item, after) := by
  simp [readClassMember_eq, Option.bind_eq_some_iff]

theorem local_readMemberEnd (first : Escape) : Local (readMemberEnd extended first) := by
  intro cs item after h more t
  unfold readMemberEnd at h
  split at h
  · rename_i past
    rw [List.cons_append, readMemberEnd]
    split at h
    · rename_i ends
      obtain ⟨member, isMember, same⟩ := Option.map_eq_some_iff.mp h
      cases same
      have decided : Decided extended past := by
        rw [Bool.or_eq_true, decide_eq_true_eq, decide_eq_true_eq] at ends
        rcases ends with closing | hyphen
        · exact decided_of_peek closing (by decide) (by decide)
        · exact decided_of_peek hyphen (by decide) (by decide)
      rw [peekPastHyphen_append decided, if_pos ends, isMember]
      rfl
    · rename_i ranges
      obtain ⟨⟨second, left⟩, isSecond, h⟩ := Option.bind_eq_some_iff.mp h
      obtain ⟨low, isLow, h⟩ := Option.bind_eq_some_iff.mp h
      obtain ⟨high, isHigh, h⟩ := Option.bind_eq_some_iff.mp h
      have further : skipBlank extended past ≠ [] := by
        intro empty
        rw [empty] at isSecond
        exact absurd isSecond (by simp [readClassAtom])
      split at h
      · rename_i inOrder
        cases h
        rw [peekPastHyphen_append (decided_of_skipBlank further), if_neg ranges,
          skipBlank_append further, local_readClassAtom isSecond more, Option.bind_some, isLow,
          Option.bind_some, isHigh, Option.bind_some, if_pos inOrder]
      · exact absurd h (by simp)
  · rename_i noHyphen
    obtain ⟨member, isMember, same⟩ := Option.map_eq_some_iff.mp h
    cases same
    obtain ⟨c, tail, rfl⟩ := List.exists_cons_of_ne_nil more
    rw [List.cons_append, readMemberEnd, isMember]
    · rfl
    · exact fun past same => noHyphen tail (by rw [(List.cons.inj same).1])

theorem local_readClassMember : Local (readClassMember extended) := by
  intro cs item after h more t
  obtain ⟨first, rest, start, isFirst, isStart, isEnd⟩ := readClassMember_eq_some.mp h
  have goes : rest ≠ [] := by
    rintro rfl
    exact absurd isStart (by simp [skipBlank?, skipBlank_nil])
  exact readClassMember_eq_some.mpr ⟨first, _, _, local_readClassAtom isFirst goes t,
    skipBlank?_append isStart t, local_readMemberEnd first isEnd more t⟩

end Waymark.Regex
