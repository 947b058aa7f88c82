/-
Entering one path of a definition.

`Registry.register` gives out the next number, enters the new entry into the order and
the index of names, and lists it with its parent and its original.

* `get?_register_self`, `get?_register_of_ne` — what is found afterwards;
* `grown_register` — whatever was there is there still, with its lists longer at the
  end at most;
* `linked_register` — the links agree afterwards, if the new entry fits: its parent
  and original are there, the original is no alias and, under a primary parent, one of
  the parent's children, and the name of a primary entry is free.
-/
import Waymark.Proofs.Registry.Links

namespace Waymark

namespace Entry

/-- The entry with more children and aliases. -/
def extend (e : Entry) (children aliases : List Nat) : Entry :=
  { e with children := e.children ++ children, aliases := e.aliases ++ aliases }

variable (e : Entry) (children aliases : List Nat)

@[simp] theorem extend_record : (e.extend children aliases).record = e.record := rfl

@[simp] theorem extend_matcher : (e.extend children aliases).matcher = e.matcher := rfl

@[simp] theorem extend_aliasOf : (e.extend children aliases).aliasOf = e.aliasOf := rfl

@[simp] theorem extend_parent : (e.extend children aliases).parent = e.parent := rfl

@[simp] theorem extend_id : (e.extend children aliases).id = e.id := rfl

@[simp] theorem extend_children : (e.extend children aliases).children = e.children ++ children :=
  rfl

@[simp] theorem extend_aliases : (e.extend children aliases).aliases = e.aliases ++ aliases := rfl

@[simp] theorem extend_nil : e.extend [] [] = e := by simp [extend]

@[simp] theorem extend_extend (more others : List Nat) :
    (e.extend children aliases).extend more others =
      e.extend (children ++ more) (aliases ++ others) := by
  simp [extend]

end Entry

namespace Registry

variable {r : Registry} {d : Definition} {m : Matcher} {parent original : Option Nat}

/-- The new entry. -/
def newEntry (r : Registry) (d : Definition) (m : Matcher) (parent original : Option Nat) :
    Entry where
  record :=
    Record.ofDefinition d m.pattern ⟨r.lineage, r.nextId⟩ (r.recordId? parent)
      (r.recordId? original)
  matcher := m
  parent
  children := []
  aliases := []
  aliasOf := original

/-- The new number, if the entry with a number lists it among its children. -/
def newChild (r : Registry) (parent original : Option Nat) (id : Nat) (e : Entry) : List Nat :=
  if parent = some id ∧ (original.isNone ∨ e.isAlias) then [r.nextId] else []

/-- The new number, if the entry with a number lists it among its aliases. -/
def newAlias (r : Registry) (original : Option Nat) (id : Nat) : List Nat :=
  if original = some id then [r.nextId] else []

/-! ### What is found afterwards -/

theorem get?_addChild (id other : Nat) :
    (r.addChild parent original id).get? other = (r.get? other).map fun e =>
      if parent = some other ∧ (original.isNone ∨ e.isAlias) then
        { e with children := e.children ++ [id] } else e := by
  cases parent with
  | none => simp [addChild]
  | some p =>
    simp only [addChild, get?, Dict.get?_modify]
    by_cases same : other = p
    · subst same
      simp
    · have different : some p ≠ some other := fun h => same (Option.some.inj h).symm
      simp [same, different]

theorem get?_addAlias (id other : Nat) :
    (r.addAlias original id).get? other = (r.get? other).map fun e =>
      if original = some other then { e with aliases := e.aliases ++ [id] } else e := by
  cases original with
  | none => simp [addAlias]
  | some o =>
    simp only [addAlias, get?, Dict.get?_modify]
    by_cases same : other = o
    · subst same
      simp
    · have different : some o ≠ some other := fun h => same (Option.some.inj h).symm
      simp [same, different]

theorem get?_insert_self (r : Registry) (id : Nat) (e : Entry) :
    (r.insert id e).get? id = some e := Dict.get?_insert_self r.entries id e

theorem get?_insert_of_ne (r : Registry) {id other : Nat} (e : Entry) (h : id ≠ other) :
    (r.insert id e).get? other = r.get? other := Dict.get?_insert_of_ne r.entries e h

theorem get?_register_self (hp : parent ≠ some r.nextId) (ho : original ≠ some r.nextId) :
    (r.register d m parent original).get? r.nextId = some (r.newEntry d m parent original) := by
  simp only [register, get?_addAlias, get?_addChild, get?_insert_self, Option.map_some]
  rw [if_neg ho, if_neg (fun h => hp h.1)]
  rfl

theorem get?_register_of_ne {id : Nat} (h : id ≠ r.nextId) :
    (r.register d m parent original).get? id = (r.get? id).map fun e =>
      e.extend (r.newChild parent original id e) (r.newAlias original id) := by
  simp only [register, get?_addAlias, get?_addChild, get?_insert_of_ne _ _ (Ne.symm h)]
  show (Option.map _ (Option.map _ (r.get? id))) = _
  rw [Option.map_map]
  congr 1
  funext e
  simp only [Function.comp_apply, newChild, newAlias]
  split <;> split <;> simp [Entry.extend]

@[simp] theorem nextId_register (r : Registry) (d : Definition) (m : Matcher)
    (parent original : Option Nat) : (r.register d m parent original).nextId = r.nextId + 1 := by
  cases parent <;> cases original <;> rfl

@[simp] theorem lineage_register (r : Registry) (d : Definition) (m : Matcher)
    (parent original : Option Nat) : (r.register d m parent original).lineage = r.lineage := by
  cases parent <;> cases original <;> rfl

theorem ordered_register (r : Registry) (d : Definition) (m : Matcher)
    (parent original : Option Nat) :
    (r.register d m parent original).ordered =
      insertBefore (r.isAtMost m.score) r.nextId r.ordered := by
  cases parent <;> cases original <;> rfl

theorem byName_register (r : Registry) (d : Definition) (m : Matcher)
    (parent original : Option Nat) :
    (r.register d m parent original).byName =
      match d.name with
      | some name => if original.isSome then r.byName else r.byName.insert name r.nextId
      | none => r.byName := by
  cases parent <;> cases original <;> rfl

theorem insertBefore_perm (goesAfter : Nat → Bool) (id : Nat) (ids : List Nat) :
    (insertBefore goesAfter id ids).Perm (id :: ids) := by
  induction ids with
  | nil => exact .refl _
  | cons other rest ih =>
    rw [insertBefore]
    split
    · exact .refl _
    · exact (ih.cons other).trans (.swap id other rest)

/-- What follows the first number that goes after the new one comes after it as well. -/
theorem pairwise_insertBefore {related : Nat → Nat → Prop} {goesAfter : Nat → Bool} {id : Nat}
    {ids : List Nat} (order : ids.Pairwise related)
    (before : ∀ a ∈ ids, goesAfter a = false → related a id)
    (after : ∀ a ∈ ids, goesAfter a = true → ∀ b ∈ ids, a = b ∨ related a b → related id b) :
    (insertBefore goesAfter id ids).Pairwise related := by
  induction ids with
  | nil => exact List.pairwise_singleton _ id
  | cons a ids ih =>
    obtain ⟨first, others⟩ := List.pairwise_cons.mp order
    rw [insertBefore]
    split
    · rename_i goes
      have behind := after a List.mem_cons_self goes
      refine List.pairwise_cons.mpr ⟨List.forall_mem_cons.mpr ⟨?_, fun b member => ?_⟩, order⟩
      · exact behind a List.mem_cons_self (Or.inl rfl)
      · exact behind b (List.mem_cons_of_mem _ member) (Or.inr (first b member))
    · rename_i stays
      have inRest : ∀ b ∈ ids, b ∈ a :: ids := fun b member => List.mem_cons_of_mem _ member
      refine List.pairwise_cons.mpr ⟨fun b member => ?_, ih others
        (fun b member => before b (inRest b member))
        (fun b member goes c memberC => after b (inRest b member) goes c (inRest c memberC))⟩
      rcases List.mem_cons.mp ((insertBefore_perm _ _ _).mem_iff.mp member) with rfl | member
      · exact before a List.mem_cons_self (by simpa using stays)
      · exact first b member

theorem sublist_insertBefore (goesAfter : Nat → Bool) (id : Nat) (ids : List Nat) :
    ids.Sublist (insertBefore goesAfter id ids) := by
  induction ids with
  | nil => exact List.nil_sublist _
  | cons other rest ih =>
    rw [insertBefore]
    split
    · exact List.sublist_cons_self id _
    · exact ih.cons_cons other

/-! ### What stays -/

/-- `r'` is `r` with entries added: those under the entry `top`, which may have got new children,
and as aliases of `original` and what is nested under it, which may have got new aliases. -/
structure Grown (top original : Option Nat) (r r' : Registry) : Prop where
  lineage : r'.lineage = r.lineage
  nextId_le : r.nextId ≤ r'.nextId
  kept {id : Nat} {e : Entry} : r.get? id = some e → ∃ children aliases,
    r'.get? id = some (e.extend children aliases) ∧ (top ≠ some id → children = []) ∧
      ((∀ o, original = some o → id < o) → aliases = []) ∧ ∀ c ∈ children, r.nextId ≤ c
  old {id : Nat} {e : Entry} : r'.get? id = some e → id < r.nextId → ∃ e', r.get? id = some e'
  new {id : Nat} : r.nextId ≤ id → id < r'.nextId → ∃ e, r'.get? id = some e
  ordered : r.ordered.Sublist r'.ordered

theorem Grown.refl (top original : Option Nat) (r : Registry) : Grown top original r r where
  lineage := rfl
  nextId_le := Nat.le_refl _
  kept := fun {_ e} found => ⟨[], [], by rw [e.extend_nil]; exact found, fun _ => rfl,
    fun _ => rfl, fun _ member => absurd member List.not_mem_nil⟩
  old := fun {_ e} found _ => ⟨e, found⟩
  new := fun low high => absurd high (Nat.not_lt.mpr low)
  ordered := .refl _

/-- The second original is no older than the first one, or new if there is no first one. -/
structure NotOlder (r : Registry) (original original' : Option Nat) : Prop where
  after {o : Nat} : original = some o → ∃ o', original' = some o' ∧ o ≤ o'
  new {o' : Nat} : original = none → original' = some o' → r.nextId ≤ o'

theorem NotOlder.refl (r : Registry) (original : Option Nat) : NotOlder r original original where
  after := fun {o} isOriginal => ⟨o, isOriginal, Nat.le_refl _⟩
  new := by
    intro o' none same
    rw [none] at same
    exact absurd same (by simp)

/-- Two steps make one, if the second adds children to what the first does or to what is new, and
aliases to what the first does or to what is new. -/
theorem Grown.trans {top top' original original' : Option Nat} {r r' r'' : Registry}
    (bound : ∀ id e, r.get? id = some e → id < r.nextId)
    (h : Grown top original r r') (g : Grown top' original' r' r'')
    (under : top' = top ∨ ∃ t, top' = some t ∧ r.nextId ≤ t)
    (notOlder : NotOlder r original original') : Grown top original r r'' where
  lineage := g.lineage.trans h.lineage
  nextId_le := Nat.le_trans h.nextId_le g.nextId_le
  kept := by
    intro id e found
    have range := bound id e found
    obtain ⟨children, aliases, found', noChildren, noAliases, newChildren⟩ := h.kept found
    obtain ⟨more, others, found'', noMore, noOthers, newMore⟩ := g.kept found'
    refine ⟨children ++ more, aliases ++ others, ?_, ?_, ?_, ?_⟩
    · rw [found'', Entry.extend_extend]
    · intro different
      rw [noChildren different, noMore, List.append_nil]
      -- the second step adds its children to the same entry or to a new one
      rcases under with rfl | ⟨t, rfl, high⟩
      · exact different
      · intro same
        have := Option.some.inj same
        omega
    · intro below
      rw [noAliases below, noOthers, List.append_nil]
      intro o' isOriginal
      cases original with
      | none =>
        have := notOlder.new rfl isOriginal
        omega
      | some o =>
        obtain ⟨o'', isOriginal', le⟩ := notOlder.after rfl
        rw [isOriginal] at isOriginal'
        have := below o rfl
        have := Option.some.inj isOriginal'
        omega
    · intro c member
      rcases List.mem_append.mp member with member | member
      · exact newChildren c member
      · exact Nat.le_trans h.nextId_le (newMore c member)
  old := by
    intro id e found low
    obtain ⟨e', found'⟩ := g.old found (Nat.lt_of_lt_of_le low h.nextId_le)
    exact h.old found' low
  new := by
    intro id low high
    by_cases early : id < r'.nextId
    · obtain ⟨e, found⟩ := h.new low early
      obtain ⟨children, aliases, found', -⟩ := g.kept found
      exact ⟨_, found'⟩
    · exact g.new (Nat.not_lt.mp early) high
  ordered := h.ordered.trans g.ordered

/-! ### The links afterwards -/

/-- The new entry fits into the registry. -/
structure Admits (r : Registry) (d : Definition) (parent original : Option Nat) : Prop where
  parent_live {p : Nat} : parent = some p → ∃ e, r.get? p = some e
  original_live {o : Nat} : original = some o → ∃ e, r.get? o = some e ∧ e.aliasOf = none
  apart {p : Nat} : parent = some p → original ≠ some p
  beside {p o : Nat} {pe oe : Entry} : parent = some p → original = some o →
    r.get? p = some pe → r.get? o = some oe → pe.aliasOf = none → oe.parent = some p
  name_free {name : String} : original = none → d.name = some name → r.byName.get? name = none

theorem Admits.parent_ne (h : Linked r) (a : Admits r d parent original) :
    parent ≠ some r.nextId := by
  intro same
  obtain ⟨e, found⟩ := a.parent_live same
  exact absurd (h.lt_nextId found) (Nat.lt_irrefl _)

theorem Admits.original_ne (h : Linked r) (a : Admits r d parent original) :
    original ≠ some r.nextId := by
  intro same
  obtain ⟨e, found, -⟩ := a.original_live same
  exact absurd (h.lt_nextId found) (Nat.lt_irrefl _)

theorem get?_register_eq_some (h : Linked r) (a : Admits r d parent original) {id : Nat}
    {e : Entry} :
    (r.register d m parent original).get? id = some e ↔
      (id = r.nextId ∧ e = r.newEntry d m parent original) ∨
        ∃ e₀, r.get? id = some e₀ ∧
          e = e₀.extend (r.newChild parent original id e₀) (r.newAlias original id) := by
  by_cases new : id = r.nextId
  · subst new
    rw [get?_register_self (a.parent_ne h) (a.original_ne h)]
    constructor
    · intro same
      exact Or.inl ⟨rfl, (Option.some.inj same).symm⟩
    · rintro (⟨-, rfl⟩ | ⟨e₀, found, -⟩)
      · rfl
      · exact absurd (h.lt_nextId found) (Nat.lt_irrefl _)
  · rw [get?_register_of_ne new, Option.map_eq_some_iff]
    constructor
    · rintro ⟨e₀, found, rfl⟩
      exact Or.inr ⟨e₀, found, rfl⟩
    · rintro (⟨same, -⟩ | ⟨e₀, found, rfl⟩)
      · exact absurd same new
      · exact ⟨e₀, found, rfl⟩

theorem get?_register_kept (h : Linked r) {id : Nat} {e : Entry} (found : r.get? id = some e) :
    (r.register d m parent original).get? id =
      some (e.extend (r.newChild parent original id e) (r.newAlias original id)) := by
  have old := h.lt_nextId found
  rw [get?_register_of_ne (Nat.ne_of_lt old), found, Option.map_some]

theorem recordId?_register (h : Linked r) {link : Option Nat}
    (live : ∀ id, link = some id → ∃ e, r.get? id = some e) :
    (r.register d m parent original).recordId? link = r.recordId? link := by
  cases link with
  | none => rfl
  | some id =>
    obtain ⟨e, found⟩ := live id rfl
    simp only [recordId?, Option.bind_some, found, get?_register_kept h found, Option.map_some,
      Entry.extend_record]

/-- An entry that lists the new number does so for its new child or its new alias. -/
theorem mem_newChild {id child : Nat} {e : Entry}
    (member : child ∈ r.newChild parent original id e) :
    child = r.nextId ∧ parent = some id := by
  rw [newChild] at member
  split at member
  · rename_i both
    exact ⟨List.mem_singleton.mp member, both.1⟩
  · exact absurd member List.not_mem_nil

theorem grown_register (h : Linked r) (a : Admits r d parent original) :
    Grown parent original r (r.register d m parent original) where
  lineage := lineage_register r d m parent original
  nextId_le := by
    rw [nextId_register]
    exact Nat.le_succ _
  kept := by
    intro id e found
    refine ⟨_, _, get?_register_kept h found, ?_, ?_, ?_⟩
    · intro different
      rw [newChild, if_neg (fun both => different both.1)]
    · intro below
      rw [newAlias, if_neg]
      intro same
      exact absurd (below id same) (Nat.lt_irrefl _)
    · intro c member
      exact Nat.le_of_eq (mem_newChild member).1.symm
  old := by
    intro id e found low
    rcases (get?_register_eq_some h a).mp found with ⟨rfl, -⟩ | ⟨e₀, found₀, -⟩
    · exact absurd low (Nat.lt_irrefl _)
    · exact ⟨e₀, found₀⟩
  new := by
    intro id low high
    rw [nextId_register] at high
    obtain rfl : id = r.nextId := by omega
    exact ⟨_, get?_register_self (a.parent_ne h) (a.original_ne h)⟩
  ordered := by
    rw [ordered_register]
    exact sublist_insertBefore _ _ _

theorem mem_newAlias {id other : Nat} (member : other ∈ r.newAlias original id) :
    other = r.nextId ∧ original = some id := by
  rw [newAlias] at member
  split at member
  · rename_i same
    exact ⟨List.mem_singleton.mp member, same⟩
  · exact absurd member List.not_mem_nil

/-- The new entry is listed under its parent. -/
theorem listedUnder_newEntry (h : Linked r) (a : Admits r d parent original) {p : Nat}
    (isParent : parent = some p) :
    (r.register d m parent original).ListedUnder r.nextId (r.newEntry d m parent original) p := by
  obtain ⟨pe, foundP⟩ := a.parent_live isParent
  by_cases listed : original.isNone ∨ pe.isAlias
  · refine Or.inl ⟨_, get?_register_kept h foundP, ?_⟩
    rw [Entry.extend_children, newChild, if_pos ⟨isParent, listed⟩]
    exact List.mem_append_right _ List.mem_cons_self
  · rw [not_or, Option.isNone_iff_eq_none, ← ne_eq, Option.ne_none_iff_exists'] at listed
    obtain ⟨⟨o, isOriginal⟩, primary⟩ := listed
    obtain ⟨oe, foundO, -⟩ := a.original_live isOriginal
    refine Or.inr ⟨o, _, isOriginal, get?_register_kept h foundO, ?_⟩
    rw [Entry.extend_parent]
    exact a.beside isParent isOriginal foundP foundO (by simpa [Entry.isAlias] using primary)

theorem dependents_register_nodup (h : Linked r) (a : Admits r d parent original) {id : Nat}
    {e : Entry} (found : r.get? id = some e) :
    (e.extend (r.newChild parent original id e) (r.newAlias original id)).dependents.Nodup := by
  have old := h.dependents_nodup found
  have fresh : r.nextId ∉ e.children ∧ r.nextId ∉ e.aliases := by
    constructor
    · intro member
      exact absurd (h.younger found (List.mem_append_left _ member)).2 (Nat.lt_irrefl _)
    · intro member
      exact absurd (h.younger found (List.mem_append_right _ member)).2 (Nat.lt_irrefl _)
  unfold Entry.dependents at old ⊢
  rw [Entry.extend_children, Entry.extend_aliases]
  unfold newChild newAlias
  split
  · rename_i both
    -- no entry is both the parent and the original
    rw [if_neg (a.apart both.1), List.append_nil]
    have shuffle : (e.children ++ [r.nextId] ++ e.aliases).Perm
        (r.nextId :: (e.children ++ e.aliases)) := by
      rw [List.append_assoc]
      exact List.perm_middle
    rw [shuffle.nodup_iff, List.nodup_cons, List.mem_append, not_or]
    exact ⟨fresh, old⟩
  · rw [List.append_nil]
    split
    · rw [← List.append_assoc, (List.perm_append_singleton _ _).nodup_iff, List.nodup_cons,
        List.mem_append, not_or]
      exact ⟨fresh, old⟩
    · rw [List.append_nil]
      exact old

theorem named_register (a : Admits r d parent original) (name : String) (id : Nat) :
    (r.register d m parent original).byName.get? name = some id ↔
      (id = r.nextId ∧ original = none ∧ d.name = some name) ∨ r.byName.get? name = some id := by
  rw [byName_register]
  cases named : d.name with
  | none => simp
  | some own =>
    cases original with
    | some o => simp
    | none =>
      simp only [Option.isSome_none, Bool.false_eq_true, if_false, Option.some.injEq, true_and]
      by_cases same : own = name
      · subst same
        rw [Dict.get?_insert_self, a.name_free rfl named]
        simp [eq_comm]
      · rw [Dict.get?_insert_of_ne _ _ same]
        simp [same]

theorem ordered_register_nodup (h : Linked r) :
    (r.register d m parent original).ordered.Nodup := by
  rw [ordered_register, (insertBefore_perm _ _ _).nodup_iff, List.nodup_cons]
  refine ⟨fun member => ?_, h.ordered_nodup⟩
  obtain ⟨e, found⟩ := h.mem_ordered.mp member
  exact absurd (h.lt_nextId found) (Nat.lt_irrefl _)

section

variable (h : Linked r) (a : Admits r d parent original)

include h a

theorem parent_register {id p : Nat} {e : Entry}
    (found : (r.register d m parent original).get? id = some e) (link : e.parent = some p) :
    p < id ∧ (∃ pe, (r.register d m parent original).get? p = some pe) ∧
      (r.register d m parent original).ListedUnder id e p := by
  rcases (get?_register_eq_some h a).mp found with ⟨rfl, rfl⟩ | ⟨e₀, found₀, rfl⟩
  · obtain ⟨pe, foundP⟩ := a.parent_live link
    exact ⟨h.lt_nextId foundP, ⟨_, get?_register_kept h foundP⟩, listedUnder_newEntry h a link⟩
  -- what was there keeps its links, and the lists that hold it only grow
  · obtain ⟨older, ⟨pe, foundP⟩, listed⟩ := h.parent found₀ link
    refine ⟨older, ⟨_, get?_register_kept h foundP⟩, ?_⟩
    rcases listed with ⟨pe, foundP, child⟩ | ⟨o, oe, isAlias, foundO, sibling⟩
    · exact Or.inl ⟨_, get?_register_kept h foundP, List.mem_append_left _ child⟩
    · exact Or.inr ⟨o, _, isAlias, get?_register_kept h foundO, sibling⟩

theorem original_register {id o : Nat} {e : Entry}
    (found : (r.register d m parent original).get? id = some e) (isAlias : e.aliasOf = some o) :
    o < id ∧ ∃ oe, (r.register d m parent original).get? o = some oe ∧ oe.aliasOf = none ∧
      id ∈ oe.aliases := by
  rcases (get?_register_eq_some h a).mp found with ⟨rfl, rfl⟩ | ⟨e₀, found₀, rfl⟩
  · obtain ⟨oe, foundO, primary⟩ := a.original_live isAlias
    refine ⟨h.lt_nextId foundO, _, get?_register_kept h foundO, primary, ?_⟩
    have isOriginal : original = some o := isAlias
    rw [Entry.extend_aliases, newAlias, if_pos isOriginal]
    exact List.mem_append_right _ List.mem_cons_self
  · obtain ⟨older, oe, foundO, primary, listed⟩ := h.original found₀ isAlias
    exact ⟨older, _, get?_register_kept h foundO, primary, List.mem_append_left _ listed⟩

/-- The links up agree with the lists of children: what was listed before is no new number, and the
new number is listed by its parent only. -/
theorem child_register {id child : Nat} {e c : Entry}
    (found : (r.register d m parent original).get? id = some e) (listed : child ∈ e.children)
    (live : (r.register d m parent original).get? child = some c) : c.parent = some id := by
  rcases (get?_register_eq_some h a).mp found with ⟨rfl, rfl⟩ | ⟨e₀, found₀, rfl⟩
  · exact absurd listed List.not_mem_nil
  · rcases List.mem_append.mp listed with listed | listed
    · have old := (h.younger found₀ (List.mem_append_left _ listed)).2
      rcases (get?_register_eq_some h a).mp live with ⟨rfl, -⟩ | ⟨c₀, live₀, rfl⟩
      · exact absurd old (Nat.lt_irrefl _)
      · exact h.child found₀ listed c₀ live₀
    · obtain ⟨rfl, isParent⟩ := mem_newChild listed
      rw [get?_register_self (a.parent_ne h) (a.original_ne h)] at live
      rw [← Option.some.inj live]
      exact isParent

theorem alternative_register {id other : Nat} {e o : Entry}
    (found : (r.register d m parent original).get? id = some e) (listed : other ∈ e.aliases)
    (live : (r.register d m parent original).get? other = some o) : o.aliasOf = some id := by
  rcases (get?_register_eq_some h a).mp found with ⟨rfl, rfl⟩ | ⟨e₀, found₀, rfl⟩
  · exact absurd listed List.not_mem_nil
  · rcases List.mem_append.mp listed with listed | listed
    · have old := (h.younger found₀ (List.mem_append_right _ listed)).2
      rcases (get?_register_eq_some h a).mp live with ⟨rfl, -⟩ | ⟨o₀, live₀, rfl⟩
      · exact absurd old (Nat.lt_irrefl _)
      · exact h.alternative found₀ listed o₀ live₀
    · obtain ⟨rfl, isOriginal⟩ := mem_newAlias listed
      rw [get?_register_self (a.parent_ne h) (a.original_ne h)] at live
      rw [← Option.some.inj live]
      exact isOriginal

theorem younger_register {id dependent : Nat} {e : Entry}
    (found : (r.register d m parent original).get? id = some e)
    (listed : dependent ∈ e.dependents) : id < dependent ∧ dependent < r.nextId + 1 := by
  rcases (get?_register_eq_some h a).mp found with ⟨rfl, rfl⟩ | ⟨e₀, found₀, rfl⟩
  · exact absurd listed List.not_mem_nil
  · have old := h.lt_nextId found₀
    -- what is listed now was listed before or has the new number
    have known : dependent ∈ e₀.dependents ∨ dependent = r.nextId := by
      rcases List.mem_append.mp listed with listed | listed
      · rcases List.mem_append.mp listed with listed | listed
        · exact Or.inl (List.mem_append_left _ listed)
        · exact Or.inr (mem_newChild listed).1
      · rcases List.mem_append.mp listed with listed | listed
        · exact Or.inl (List.mem_append_right _ listed)
        · exact Or.inr (mem_newAlias listed).1
    rcases known with known | rfl
    · have := h.younger found₀ known
      omega
    · omega

theorem recorded_register {id : Nat} {e : Entry}
    (found : (r.register d m parent original).get? id = some e) :
    e.record.parent = (r.register d m parent original).recordId? e.parent ∧
      e.record.aliasOf = (r.register d m parent original).recordId? e.aliasOf := by
  rcases (get?_register_eq_some h a).mp found with ⟨rfl, rfl⟩ | ⟨e₀, found₀, rfl⟩
  · refine ⟨(recordId?_register h fun _ => a.parent_live).symm,
      (recordId?_register h fun _ isOriginal => ?_).symm⟩
    obtain ⟨oe, foundO, -⟩ := a.original_live isOriginal
    exact ⟨oe, foundO⟩
  · obtain ⟨parents, originals⟩ := h.recorded found₀
    refine ⟨parents.trans (recordId?_register h fun _ link => (h.parent found₀ link).2.1).symm,
      originals.trans (recordId?_register h fun _ isAlias => ?_).symm⟩
    obtain ⟨-, oe, foundO, -⟩ := h.original found₀ isAlias
    exact ⟨oe, foundO⟩

theorem mem_ordered_register {id : Nat} : id ∈ (r.register d m parent original).ordered ↔
    ∃ e, (r.register d m parent original).get? id = some e := by
  rw [ordered_register, (insertBefore_perm _ _ _).mem_iff, List.mem_cons, h.mem_ordered]
  constructor
  · rintro (rfl | ⟨e, found⟩)
    · exact ⟨_, get?_register_self (a.parent_ne h) (a.original_ne h)⟩
    · exact ⟨_, get?_register_kept h found⟩
  · rintro ⟨e, found⟩
    rcases (get?_register_eq_some h a).mp found with ⟨rfl, -⟩ | ⟨e₀, found₀, -⟩
    · exact Or.inl rfl
    · exact Or.inr ⟨e₀, found₀⟩

theorem byName_register_iff {name : String} {id : Nat} :
    (r.register d m parent original).byName.get? name = some id ↔
      ∃ e, (r.register d m parent original).get? id = some e ∧ e.isAlias = false ∧
        e.record.name = some name := by
  rw [named_register a, h.named]
  constructor
  · rintro (⟨rfl, primary, named⟩ | ⟨e, found, primary, named⟩)
    · refine ⟨_, get?_register_self (a.parent_ne h) (a.original_ne h), ?_, named⟩
      rw [primary]
      rfl
    · exact ⟨_, get?_register_kept h found, primary, named⟩
  · rintro ⟨e, found, primary, named⟩
    rcases (get?_register_eq_some h a).mp found with ⟨rfl, rfl⟩ | ⟨e₀, found₀, rfl⟩
    · exact Or.inl ⟨rfl, by simpa [Entry.isAlias, newEntry] using primary, named⟩
    · exact Or.inr ⟨e₀, found₀, primary, named⟩

/-- An entry that fits in leaves the registry linked. -/
theorem linked_register : Linked (r.register d m parent original) where
  number := by
    intro id e found
    rcases (get?_register_eq_some h a).mp found with ⟨rfl, rfl⟩ | ⟨e₀, found₀, rfl⟩
    · rfl
    · rw [Entry.extend_id]
      exact h.number found₀
  lt_nextId := by
    intro id e found
    rw [nextId_register]
    rcases (get?_register_eq_some h a).mp found with ⟨rfl, -⟩ | ⟨e₀, found₀, -⟩
    · exact Nat.lt_succ_self _
    · exact Nat.lt_succ_of_lt (h.lt_nextId found₀)
  parent := parent_register h a
  original := original_register h a
  child := fun found listed _ live => child_register h a found listed live
  alternative := fun found listed _ live => alternative_register h a found listed live
  younger := by
    intro id dependent e found listed
    rw [nextId_register]
    exact younger_register h a found listed
  dependents_nodup := by
    intro id e found
    rcases (get?_register_eq_some h a).mp found with ⟨rfl, rfl⟩ | ⟨e₀, found₀, rfl⟩
    · exact List.nodup_nil
    · exact dependents_register_nodup h a found₀
  recorded := recorded_register h a
  ordered_nodup := ordered_register_nodup h
  mem_ordered := mem_ordered_register h a
  named := byName_register_iff h a

end

end Registry
end Waymark
