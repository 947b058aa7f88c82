/-
Where matches of an expression end.

Two facts hold of the ends of every expression, whatever its loops look like:

* `Expr.ends_related` — a relation that single characters and captures respect, and
  that can be followed step by step, leads from the point where a match begins to every
  end of it;
* `Expr.ends_same` — what groups have captured before does not change where the ends
  are, nor their order.

So every end is a later place of the same text (`Expr.leads_of_mem_ends`).
-/
import Mathlib.Data.List.Forall2
import Waymark.Regex.Match

namespace Waymark.Regex

variable {step : Point → List Point} {greedy : Bool}

/-! ### What is listed -/

theorem mem_reach {found : List Point} {p q : Point} (h : q ∈ reach found p) :
    q ∈ found ∨ q = p := by
  rw [reach] at h
  split at h
  · exact Or.inl h
  · simpa using h

theorem mem_foldl_reach {l found : List Point} {q : Point} (h : q ∈ l.foldl reach found) :
    q ∈ found ∨ q ∈ l := by
  induction l generalizing found with
  | nil => exact Or.inl h
  | cons p rest ih =>
    rcases ih h with inFound | inRest
    · rcases mem_reach inFound with old | rfl
      · exact Or.inl old
      · exact Or.inr List.mem_cons_self
    · exact Or.inr (List.mem_cons_of_mem _ inRest)

theorem mem_foldl_of_step {α : Type} {f : List Point → α → List Point} {as : List α}
    {P : Point → Prop} (keeps : ∀ found, ∀ a ∈ as, (∀ q ∈ found, P q) → ∀ q ∈ f found a, P q)
    {found : List Point} (h : ∀ q ∈ found, P q) : ∀ q ∈ as.foldl f found, P q := by
  induction as generalizing found with
  | nil => exact h
  | cons a rest ih =>
    exact ih (fun found b member => keeps found b (List.mem_cons_of_mem _ member))
      (keeps found a List.mem_cons_self h)

theorem mem_chain {ends : List Point} {q : Point} (h : q ∈ chain ends step) :
    ∃ p ∈ ends, q ∈ step p := by
  refine mem_foldl_of_step (P := fun q => ∃ p ∈ ends, q ∈ step p) ?_ (by simp) q h
  intro found p member inFound q inStep
  rcases mem_foldl_reach inStep with old | new
  · exact inFound q old
  · exact ⟨p, member, new⟩

/-! ### Relations along matches -/

section Related

variable {R : Point → Point → Prop} (refl : ∀ p, R p p)
  (trans : ∀ {p q r}, R p q → R q r → R p r) (steps : ∀ p, ∀ q ∈ step p, R p q)

include refl

/-- A place that is added to those found is related to itself. -/
theorem related_reach {found : List Point} {p q : Point} (h : q ∈ reach found p) :
    q ∈ found ∨ R p q := by
  rcases mem_reach h with old | rfl
  · exact Or.inl old
  · exact Or.inr (refl q)

include trans steps

theorem related_rounds {n : Nat} {ends : List Point} {q : Point} (h : q ∈ rounds step n ends) :
    ∃ p ∈ ends, R p q := by
  induction n generalizing ends with
  | zero => exact ⟨q, h, refl q⟩
  | succ n ih =>
    cases ends with
    | nil => exact absurd h List.not_mem_nil
    | cons p ends =>
      obtain ⟨middle, inChain, related⟩ := ih h
      obtain ⟨first, member, inStep⟩ := mem_chain inChain
      exact ⟨first, member, trans (steps first middle inStep) related⟩

theorem related_onward {left : Nat} {found : List Point} {p q : Point}
    (h : q ∈ onward step greedy left found p) : q ∈ found ∨ R p q := by
  induction left generalizing found p q with
  | zero => exact related_reach refl h
  | succ left ih =>
    -- one more round from `p` and then onward
    have further : ∀ base : List Point, (∀ q ∈ base, q ∈ found ∨ R p q) →
        ∀ q ∈ ((step p).filter (p.offset < ·.offset)).foldl
          (fun found q => onward step greedy left found q) base, q ∈ found ∨ R p q := by
      intro base known
      refine mem_foldl_of_step (fun found' q member inFound x listed => ?_) known
      rcases ih listed with old | related
      · exact inFound x old
      · exact Or.inr (trans (steps p q (List.mem_filter.mp member).1) related)
    unfold onward at h
    split at h
    · exact Or.inl h
    · split at h
      · rcases related_reach refl h with before | related
        · exact further found (fun q old => Or.inl old) q before
        · exact Or.inr related
      · exact further _ (fun q listed => related_reach refl listed) q h

/-- One round or more begin with a first one. -/
theorem exists_of_mem_oneOrMore {p q : Point} (h : q ∈ oneOrMore step greedy p) :
    ∃ first ∈ step p, R first q := by
  refine mem_foldl_of_step (P := fun q => ∃ first ∈ step p, R first q)
    (fun found first member inFound x listed => ?_) (by simp) q h
  split at listed
  · rcases mem_reach listed with old | rfl
    · exact inFound x old
    · exact ⟨x, member, refl x⟩
  · rcases related_onward refl trans steps listed with old | onward
    · exact inFound x old
    · exact ⟨first, member, onward⟩

theorem related_oneOrMore {p q : Point} (h : q ∈ oneOrMore step greedy p) : R p q := by
  obtain ⟨first, member, onward⟩ := exists_of_mem_oneOrMore refl trans steps h
  exact trans (steps p first member) onward

theorem related_zeroOrMore {p q : Point} (h : q ∈ zeroOrMore step greedy p) : R p q := by
  unfold zeroOrMore at h
  split at h
  · rcases mem_reach h with listed | rfl
    · exact related_oneOrMore refl trans steps listed
    · exact refl q
  · rcases mem_foldl_reach h with listed | listed
    · rw [List.mem_singleton.mp listed]
      exact refl p
    · exact related_oneOrMore refl trans steps listed

theorem related_atMost {n : Nat} {trail : Trail} {p q : Point}
    (h : q ∈ (atMost step greedy n trail p).found) : q ∈ trail.found ∨ R p q := by
  induction n generalizing trail p q with
  | zero => exact related_reach refl h
  | succ n ih =>
    -- every round that is taken from `p` has one round less to go
    have further : ∀ base : Trail, (∀ q ∈ base.found, q ∈ trail.found ∨ R p q) →
        ∀ q ∈ ((step p).foldl (fun trail q => atMost step greedy n trail q) base).found,
          q ∈ trail.found ∨ R p q := by
      intro base known
      have all : ∀ q ∈ step p, R p q := steps p
      generalize step p = ends at all
      induction ends generalizing base with
      | nil => exact known
      | cons first rest inner =>
        refine inner _ (fun x listed => ?_) fun q member => all q (List.mem_cons_of_mem _ member)
        rcases ih listed with old | related
        · exact known x old
        · exact Or.inr (trans (all first List.mem_cons_self) related)
    unfold atMost at h
    split at h
    · exact Or.inl h
    · simp only at h
      split at h
      · rcases related_reach refl h with before | related
        · exact further ⟨trail.found, (p.offset, n) :: trail.tried⟩ (fun q old => Or.inl old) q
            before
        · exact Or.inr related
      · exact further _ (fun q listed => related_reach refl listed) q h

theorem related_repeatedly {least : Nat} {most : Option Nat} {p q : Point}
    (h : q ∈ repeatedly step least most greedy p) : R p q := by
  unfold repeatedly at h
  split at h
  · exact related_zeroOrMore refl trans steps h
  · obtain ⟨middle, listed, last⟩ := mem_chain h
    obtain ⟨first, isStart, related⟩ := related_rounds refl trans steps listed
    rw [List.mem_singleton.mp isStart] at related
    exact trans related (related_oneOrMore refl trans steps last)
  · obtain ⟨middle, listed, last⟩ := mem_chain h
    obtain ⟨first, isStart, related⟩ := related_rounds refl trans steps listed
    rw [List.mem_singleton.mp isStart] at related
    rcases related_atMost refl trans steps last with none | onward
    · exact absurd none List.not_mem_nil
    · exact trans related onward

/-- A loop that takes at least one round begins with a first one. -/
theorem exists_of_mem_repeatedly {least : Nat} {most : Option Nat} {p q : Point}
    (h : q ∈ repeatedly step (least + 1) most greedy p) : ∃ first ∈ step p, R first q := by
  -- all rounds after the first one
  have later : ∀ {n : Nat} {middle : Point}, middle ∈ rounds step (n + 1) [p] →
      ∃ first ∈ step p, R first middle := by
    intro n middle listed
    have rest : middle ∈ rounds step n (chain [p] step) := listed
    obtain ⟨first, inChain, related⟩ := related_rounds refl trans steps rest
    obtain ⟨start, isStart, inStep⟩ := mem_chain inChain
    rw [List.mem_singleton.mp isStart] at inStep
    exact ⟨first, inStep, related⟩
  unfold repeatedly at h
  split at h
  · rename_i bound
    exact absurd bound (by simp)
  · rename_i rest bound
    obtain rfl : least = rest := Nat.succ.inj bound
    obtain ⟨middle, listed, last⟩ := mem_chain h
    cases least with
    | zero =>
      rw [List.mem_singleton.mp listed] at last
      exact exists_of_mem_oneOrMore refl trans steps last
    | succ least =>
      obtain ⟨first, member, related⟩ := later listed
      exact ⟨first, member, trans related (related_oneOrMore refl trans steps last)⟩
  · obtain ⟨middle, listed, last⟩ := mem_chain h
    obtain ⟨first, member, related⟩ := later listed
    rcases related_atMost refl trans steps last with none | onward
    · exact absurd none List.not_mem_nil
    · exact ⟨first, member, trans related onward⟩

end Related

/-- The numbers of the groups in the expression. -/
def Expr.numbers : Expr → List Nat
  | .empty | .set _ | .look _ => []
  | .seq first second => first.numbers ++ second.numbers
  | .alt preferred other => preferred.numbers ++ other.numbers
  | .loop _ _ _ body => body.numbers
  | .group index body => index :: body.numbers

/-- A relation that single characters and captures respect leads to every end. -/
theorem Expr.ends_related {R : Point → Point → Prop} (refl : ∀ p, R p p)
    (trans : ∀ {p q r}, R p q → R q r → R p r) (next : ∀ {p c q}, p.next? = some (c, q) → R p q)
    (e : Expr) (capture : ∀ {p q}, ∀ index ∈ e.numbers, R p q → R p (p.capture index q))
    {p q : Point} (h : q ∈ e.ends p) : R p q := by
  induction e generalizing p q with
  | empty =>
    rw [List.mem_singleton.mp h]
    exact refl p
  | set s =>
    unfold ends at h
    split at h
    · rename_i found
      split at h
      · rw [List.mem_singleton.mp h]
        exact next found
      · exact absurd h List.not_mem_nil
    · exact absurd h List.not_mem_nil
  | look condition =>
    unfold ends at h
    split at h
    · rw [List.mem_singleton.mp h]
      exact refl p
    · exact absurd h List.not_mem_nil
  | seq first second ihFirst ihSecond =>
    obtain ⟨middle, listed, last⟩ := mem_chain h
    exact trans (ihFirst (fun i member => capture i (List.mem_append_left _ member)) listed)
      (ihSecond (fun i member => capture i (List.mem_append_right _ member)) last)
  | alt preferred other ihPreferred ihOther =>
    rcases mem_foldl_reach h with listed | listed
    · exact ihPreferred (fun i member => capture i (List.mem_append_left _ member)) listed
    · exact ihOther (fun i member => capture i (List.mem_append_right _ member)) listed
  | loop least most greedy body ih => exact related_repeatedly refl trans (fun _ _ => ih capture) h
  | group index body ih =>
    obtain ⟨last, listed, rfl⟩ := List.mem_map.mp h
    exact capture index List.mem_cons_self
      (ih (fun i member => capture i (List.mem_cons_of_mem _ member)) listed)

/-! ### Places in a text -/

namespace Point

/-- The points are the same place of the same text. -/
structure Same (p q : Point) : Prop where
  before : p.before = q.before
  offset : p.offset = q.offset
  rest : p.rest = q.rest

/-- The point is a place of the text. -/
structure In (text : List Char) (p : Point) : Prop where
  before : p.before = (text.take p.offset).getLast?
  rest : p.rest = text.drop p.offset
  offset_le : p.offset ≤ text.length

theorem in_start (text : List Char) : (start text).In text := ⟨rfl, rfl, Nat.zero_le _⟩

theorem In.same {text : List Char} {p q : Point} (h : p.In text) (g : q.In text)
    (offset : p.offset = q.offset) : Same p q := by
  refine ⟨?_, offset, ?_⟩
  · rw [h.before, g.before, offset]
  · rw [h.rest, g.rest, offset]

theorem In.length_rest {text : List Char} {p : Point} (h : p.In text) :
    p.rest.length = text.length - p.offset := by
  rw [h.rest, List.length_drop]

/-- The point behind `cs`, before `rest`. -/
def past (p : Point) (cs rest : List Char) : Point :=
  { p with before := cs.getLast?.or p.before, offset := p.offset + cs.length, rest }

@[simp] theorem past_offset (p : Point) (cs rest : List Char) :
    (p.past cs rest).offset = p.offset + cs.length := rfl

@[simp] theorem past_rest (p : Point) (cs rest : List Char) : (p.past cs rest).rest = rest := rfl

theorem past_nil (p : Point) : p.past [] p.rest = p := rfl

theorem past_past (p : Point) (cs ds mid rest : List Char) :
    (p.past cs mid).past ds rest = p.past (cs ++ ds) rest := by
  simp only [past, List.getLast?_append, List.length_append, Nat.add_assoc, Option.or_assoc]

theorem next?_of_cons {p : Point} {c : Char} {rest : List Char} (h : p.rest = c :: rest) :
    p.next? = some (c, p.past [c] rest) := by
  rw [next?, h]
  rfl

theorem rest_of_next? {p q : Point} {c : Char} (h : p.next? = some (c, q)) :
    ∃ rest, p.rest = c :: rest ∧ q = p.past [c] rest := by
  unfold next? at h
  split at h
  · exact absurd h (by simp)
  · rename_i d rest isRest
    simp only [Option.some.injEq, Prod.mk.injEq] at h
    obtain ⟨rfl, rfl⟩ := h
    exact ⟨rest, isRest, rfl⟩

theorem textTo_past {p : Point} {cs rest : List Char} (h : p.rest = cs ++ rest) :
    p.textTo (p.past cs rest) = cs := by
  rw [textTo, past_offset, h, Nat.add_sub_cancel_left, List.take_left]

theorem In.past {text cs rest : List Char} {p : Point} (place : p.In text)
    (h : p.rest = cs ++ rest) : (p.past cs rest).In text := by
  have drop : text.drop p.offset = cs ++ rest := place.rest.symm.trans h
  have length : text.length = p.offset + (cs ++ rest).length := by
    rw [← drop, List.length_drop]
    have := place.offset_le
    omega
  refine ⟨?_, ?_, ?_⟩
  · show cs.getLast?.or p.before = (text.take (p.offset + cs.length)).getLast?
    rw [List.take_add, drop, List.take_left, List.getLast?_append, place.before]
  · show rest = text.drop (p.offset + cs.length)
    rw [← List.drop_drop, drop, List.drop_left]
  · show p.offset + cs.length ≤ text.length
    rw [length, List.length_append]
    omega

theorem In.next {text rest : List Char} {c : Char} {p : Point} (place : p.In text)
    (h : p.rest = c :: rest) : (p.past [c] rest).In text := place.past h

/-- A later place of every text that the first point is a place of. -/
def Leads (p q : Point) : Prop := p.offset ≤ q.offset ∧ ∀ text, p.In text → q.In text

theorem Leads.refl (p : Point) : Leads p p := ⟨Nat.le_refl _, fun _ place => place⟩

theorem Leads.trans {p q r : Point} (h : Leads p q) (g : Leads q r) : Leads p r :=
  ⟨Nat.le_trans h.1 g.1, fun text place => g.2 text (h.2 text place)⟩

theorem leads_of_next? {p q : Point} {c : Char} (h : p.next? = some (c, q)) : Leads p q := by
  obtain ⟨rest, isRest, rfl⟩ := rest_of_next? h
  exact ⟨Nat.le_succ _, fun _ place => place.next isRest⟩

end Point

/-- Every end is a later place of the same text. -/
theorem Expr.leads_of_mem_ends (e : Expr) {p q : Point} (h : q ∈ e.ends p) : p.Leads q := by
  refine e.ends_related Point.Leads.refl Point.Leads.trans Point.leads_of_next? ?_ h
  intro p q index _ related
  refine ⟨related.1, fun text place => ?_⟩
  obtain ⟨before, rest, bound⟩ := related.2 text place
  exact ⟨before, rest, bound⟩

/-! ### Ends do not depend on captures -/

open Point (Same)

/-- The lists go through the same places. -/
abbrev SamePlaces : List Point → List Point → Prop := List.Forall₂ Same

/-- Steps go on from the same place to the same places. -/
def Uniform (step : Point → List Point) : Prop :=
  ∀ p p', Same p p' → SamePlaces (step p) (step p')

theorem any_offset_same {found found' : List Point} (h : SamePlaces found found') (n : Nat) :
    found.any (·.offset = n) = found'.any (·.offset = n) := by
  induction h with
  | nil => rfl
  | cons first _ ih => rw [List.any_cons, List.any_cons, ih, first.offset]

theorem reach_same {found found' : List Point} (h : SamePlaces found found') {p p' : Point}
    (same : Same p p') : SamePlaces (reach found p) (reach found' p') := by
  unfold reach
  rw [any_offset_same h, same.offset]
  split
  · exact h
  · exact List.rel_append h (.cons same .nil)

theorem foldl_same {f : List Point → Point → List Point} {l l' : List Point}
    (h : SamePlaces l l')
    (keeps : ∀ found found' p p', SamePlaces found found' → Same p p' →
      SamePlaces (f found p) (f found' p'))
    {found found' : List Point} (start : SamePlaces found found') :
    SamePlaces (l.foldl f found) (l'.foldl f found') := by
  induction h generalizing found found' with
  | nil => exact start
  | cons first _ ih => exact ih (keeps _ _ _ _ start first)

theorem chain_same (uniform : Uniform step) {ends ends' : List Point} (h : SamePlaces ends ends') :
    SamePlaces (chain ends step) (chain ends' step) :=
  foldl_same h (fun _ _ p p' known same =>
    foldl_same (uniform p p' same) (fun _ _ _ _ known same => reach_same known same) known) .nil

theorem rounds_same (uniform : Uniform step) {n : Nat} {ends ends' : List Point}
    (h : SamePlaces ends ends') : SamePlaces (rounds step n ends) (rounds step n ends') := by
  induction n generalizing ends ends' with
  | zero => exact h
  | succ n ih =>
    cases h with
    | nil => exact .nil
    | cons first rest => exact ih (chain_same uniform (.cons first rest))

theorem filter_same {l l' : List Point} (h : SamePlaces l l') (n : Nat) :
    SamePlaces (l.filter (n < ·.offset)) (l'.filter (n < ·.offset)) := by
  induction h with
  | nil => exact .nil
  | cons first _ ih =>
    rw [List.filter_cons, List.filter_cons, first.offset]
    split
    · exact .cons first ih
    · exact ih

theorem onward_same (uniform : Uniform step) {left : Nat} {found found' : List Point}
    {p p' : Point} (h : SamePlaces found found') (same : Same p p') :
    SamePlaces (onward step greedy left found p) (onward step greedy left found' p') := by
  induction left generalizing found found' p p' with
  | zero => exact reach_same h same
  | succ left ih =>
    have further := filter_same (uniform p p' same) p'.offset
    unfold onward
    simp only [any_offset_same h, same.offset]
    split
    · exact h
    · split
      · exact reach_same (foldl_same further (fun _ _ _ _ known same => ih known same) h) same
      · exact foldl_same further (fun _ _ _ _ known same => ih known same) (reach_same h same)

theorem oneOrMore_same (uniform : Uniform step) {p p' : Point} (same : Same p p') :
    SamePlaces (oneOrMore step greedy p) (oneOrMore step greedy p') := by
  unfold oneOrMore
  simp only [same.offset]
  refine foldl_same (uniform p p' same) (fun found found' q q' known sameQ => ?_) .nil
  rw [sameQ.offset, sameQ.rest]
  split
  · exact reach_same known sameQ
  · exact onward_same uniform known sameQ

theorem zeroOrMore_same (uniform : Uniform step) {p p' : Point} (same : Same p p') :
    SamePlaces (zeroOrMore step greedy p) (zeroOrMore step greedy p') := by
  have more : SamePlaces (oneOrMore step greedy p) (oneOrMore step greedy p') :=
    oneOrMore_same uniform same
  unfold zeroOrMore
  split
  · exact reach_same more same
  · exact foldl_same more (fun _ _ _ _ known same => reach_same known same) (.cons same .nil)

theorem atMost_same (uniform : Uniform step) {n : Nat} {trail trail' : Trail} {p p' : Point}
    (h : SamePlaces trail.found trail'.found) (tried : trail.tried = trail'.tried)
    (same : Same p p') :
    SamePlaces (atMost step greedy n trail p).found (atMost step greedy n trail' p').found ∧
      (atMost step greedy n trail p).tried = (atMost step greedy n trail' p').tried := by
  induction n generalizing trail trail' p p' with
  | zero => exact ⟨reach_same h same, tried⟩
  | succ n ih =>
    -- the two loops go through the same rounds side by side
    have further : ∀ {l l' : List Point}, SamePlaces l l' → ∀ {base base' : Trail},
        SamePlaces base.found base'.found → base.tried = base'.tried →
        SamePlaces (l.foldl (fun trail q => atMost step greedy n trail q) base).found
            (l'.foldl (fun trail q => atMost step greedy n trail q) base').found ∧
          (l.foldl (fun trail q => atMost step greedy n trail q) base).tried =
            (l'.foldl (fun trail q => atMost step greedy n trail q) base').tried := by
      intro l l' places
      induction places with
      | nil => exact fun known tried => ⟨known, tried⟩
      | cons first _ inner =>
        intro base base' known tried
        obtain ⟨known, tried⟩ := ih known tried first
        exact inner known tried
    unfold atMost
    rw [tried, same.offset]
    split
    · exact ⟨h, tried⟩
    · simp only
      split
      · obtain ⟨known, tried⟩ := @further _ _ (uniform p p' same)
          ⟨trail.found, (p'.offset, n) :: trail'.tried⟩
          ⟨trail'.found, (p'.offset, n) :: trail'.tried⟩ h rfl
        exact ⟨reach_same known same, tried⟩
      · exact further (uniform p p' same) (reach_same h same) rfl

theorem repeatedly_same (uniform : Uniform step) {least : Nat} {most : Option Nat} :
    Uniform (repeatedly step least most greedy) := by
  intro p p' same
  have start : SamePlaces [p] [p'] := .cons same .nil
  unfold repeatedly
  split
  · exact zeroOrMore_same uniform same
  · exact chain_same (fun _ _ same => oneOrMore_same uniform same) (rounds_same uniform start)
  · exact chain_same (fun _ _ same => (atMost_same uniform .nil rfl same).1)
      (rounds_same uniform start)

theorem Look.holds_same {p p' : Point} (same : Same p p') (condition : Look) :
    condition.holds p = condition.holds p' := by
  cases condition <;> simp only [holds, same.before, same.rest]

/-- What groups have captured before does not change where the ends are, nor their order. -/
theorem Expr.ends_same (e : Expr) : Uniform e.ends := by
  induction e with
  | empty => exact fun p p' same => .cons same .nil
  | set s =>
    intro p p' same
    unfold ends
    rw [Point.next?, Point.next?, same.rest]
    cases p'.rest with
    | nil => exact .nil
    | cons c rest =>
      simp only
      split
      · exact .cons ⟨rfl, by rw [same.offset], rfl⟩ .nil
      · exact .nil
  | look condition =>
    intro p p' same
    unfold ends
    rw [condition.holds_same same]
    split
    · exact .cons same .nil
    · exact .nil
  | seq first second ihFirst ihSecond =>
    exact fun p p' same => chain_same ihSecond (ihFirst p p' same)
  | alt preferred other ihPreferred ihOther =>
    exact fun p p' same => foldl_same (ihOther p p' same)
      (fun _ _ _ _ known same => reach_same known same) (ihPreferred p p' same)
  | loop least most greedy body ih => exact repeatedly_same ih
  | group index body ih =>
    intro p p' same
    refine List.forall₂_map_left_iff.mpr (List.forall₂_map_right_iff.mpr ?_)
    exact (ih p p' same).imp fun q q' sameQ => ⟨sameQ.before, sameQ.offset, sameQ.rest⟩

end Waymark.Regex
