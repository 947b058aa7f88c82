/-
Removal.

Taking entries out follows the lists of children and aliases downwards, while the
entries on the way are taken out already.  `Registry.Cascade` is this walk over the
registry as it was at first:

* `get?_removeAll` — what is left is what the walk does not come to;
* `ordered_removeAll`, `byName_removeAll` — the order and the index of names lose
  what is gone and nothing else;
* `linked_removeAll` — the links agree afterwards as they did before;
* `cascade_iff` — in a linked registry the walk comes down to exactly the entries
  whose own links lead up to where it began.
-/
import Waymark.Proofs.Registry.Links

namespace Waymark
namespace Registry

variable {r : Registry} {pending : List Nat}

/-- Taking out the entry `a` comes to the entry `b`. -/
inductive Cascade (r : Registry) : Nat → Nat → Prop
  | self {a : Nat} {e : Entry} : r.get? a = some e → Cascade r a a
  | down {a dependent b : Nat} {e : Entry} : r.get? a = some e → dependent ∈ e.dependents →
      Cascade r dependent b → Cascade r a b

/-- Some of the pending removals comes to the entry. -/
def Doomed (r : Registry) (pending : List Nat) (id : Nat) : Prop :=
  ∃ a ∈ pending, Cascade r a id

/-- The index of names leads to entries of those names. -/
def Indexed (r : Registry) : Prop :=
  ∀ name id, r.byName.get? name = some id → ∃ e, r.get? id = some e ∧ e.record.name = some name

theorem Linked.indexed (h : Linked r) : Indexed r := by
  intro name id index
  obtain ⟨e, found, -, named⟩ := h.named.mp index
  exact ⟨e, found, named⟩

theorem Cascade.live {a b : Nat} (h : Cascade r a b) : ∃ e, r.get? b = some e := by
  induction h with
  | self found => exact ⟨_, found⟩
  | down _ _ _ ih => exact ih

theorem Cascade.start {a b : Nat} (h : Cascade r a b) : ∃ e, r.get? a = some e := by
  cases h with
  | self found => exact ⟨_, found⟩
  | down found _ _ => exact ⟨_, found⟩

theorem Cascade.trans {a b c : Nat} (h : Cascade r a b) (g : Cascade r b c) : Cascade r a c := by
  induction h with
  | self _ => exact g
  | down found listed _ ih => exact .down found listed (ih g)

/-! ### Taking out one entry -/

theorem get?_drop_self (r : Registry) (id : Nat) (e : Entry) : (r.drop id e).get? id = none :=
  Dict.get?_erase_self r.entries id

theorem get?_drop_of_ne (r : Registry) {id other : Nat} (e : Entry) (h : id ≠ other) :
    (r.drop id e).get? other = r.get? other :=
  Dict.get?_erase_of_ne r.entries h

theorem get?_drop_eq_some {id other : Nat} {e o : Entry} :
    (r.drop id e).get? other = some o ↔ other ≠ id ∧ r.get? other = some o := by
  by_cases h : other = id
  · subst h
    simp [get?_drop_self]
  · rw [get?_drop_of_ne r e (Ne.symm h)]
    simp [h]

/-- The index loses the name of the entry, if it is the entry that bears the name. -/
theorem byName_drop (h : Indexed r) {id : Nat} {e : Entry} (found : r.get? id = some e)
    (name : String) (other : Nat) :
    (r.drop id e).byName.get? name = some other ↔ other ≠ id ∧ r.byName.get? name = some other := by
  -- the entry's own name is the only one that can lead to it
  have own : r.byName.get? name = some id → e.record.name = some name := by
    intro index
    obtain ⟨e', found', named⟩ := h name id index
    rw [found] at found'
    rw [Option.some.inj found']
    exact named
  simp only [drop]
  cases named : e.record.name with
  | none =>
    refine ⟨fun index => ⟨?_, index⟩, And.right⟩
    rintro rfl
    rw [named] at own
    exact absurd (own index) (by simp)
  | some bears =>
    by_cases same : bears = name
    · subst same
      by_cases holds : r.byName.get? bears = some id
      · simp only [holds, if_true, Dict.get?_erase_self]
        constructor
        · intro index
          exact absurd index (by simp)
        · rintro ⟨different, index⟩
          exact absurd (Option.some.inj index).symm different
      · simp only [if_neg holds]
        refine ⟨fun index => ⟨?_, index⟩, And.right⟩
        rintro rfl
        exact holds index
    · have kept : (if r.byName.get? bears = some id then Dict.erase r.byName bears
          else r.byName).get? name = r.byName.get? name := by
        split
        · exact Dict.get?_erase_of_ne r.byName same
        · rfl
      simp only [kept]
      refine ⟨fun index => ⟨?_, index⟩, And.right⟩
      rintro rfl
      rw [named] at own
      exact same (Option.some.inj (own index))

theorem indexed_drop (h : Indexed r) {id : Nat} {e : Entry} (found : r.get? id = some e) :
    Indexed (r.drop id e) := by
  intro name other index
  obtain ⟨different, index⟩ := (byName_drop h found name other).mp index
  obtain ⟨o, foundO, named⟩ := h name other index
  exact ⟨o, get?_drop_eq_some.mpr ⟨different, foundO⟩, named⟩

theorem Cascade.of_drop {id : Nat} {e : Entry} {a b : Nat} (h : Cascade (r.drop id e) a b) :
    Cascade r a b := by
  induction h with
  | self found => exact .self (get?_drop_eq_some.mp found).2
  | down found listed _ ih => exact .down (get?_drop_eq_some.mp found).2 listed ih

/-- A walk either goes on without the entry, or comes to the entry and goes on, for the last
time, from what hangs on it. -/
theorem Cascade.drop {id : Nat} {e : Entry} (found : r.get? id = some e) {a b : Nat}
    (h : Cascade r a b) :
    b = id ∨ Cascade (r.drop id e) a b ∨
      ∃ dependent ∈ e.dependents, Cascade (r.drop id e) dependent b := by
  induction h with
  | @self a o foundA =>
    by_cases same : a = id
    · exact Or.inl same
    · exact Or.inr (Or.inl (.self (get?_drop_eq_some.mpr ⟨same, foundA⟩)))
  | @down a dependent b o foundA listed _ ih =>
    rcases ih with last | below | later
    · exact Or.inl last
    · by_cases same : a = id
      · subst same
        rw [found] at foundA
        rw [← Option.some.inj foundA] at listed
        exact Or.inr (Or.inr ⟨dependent, listed, below⟩)
      · exact Or.inr (Or.inl (.down (get?_drop_eq_some.mpr ⟨same, foundA⟩) listed below))
    · exact Or.inr (Or.inr later)

/-- The removals that are pending after one entry is gone come to the rest of what was doomed. -/
theorem doomed_drop {id : Nat} {e : Entry} {rest : List Nat} (found : r.get? id = some e)
    (other : Nat) :
    Doomed r (id :: rest) other ↔
      other = id ∨ Doomed (r.drop id e) (e.dependents ++ rest) other := by
  constructor
  · rintro ⟨a, member, walk⟩
    rcases walk.drop found with last | below | ⟨dependent, listed, below⟩
    · exact Or.inl last
    · rcases List.mem_cons.mp member with rfl | member
      · obtain ⟨o, gone⟩ := below.start
        rw [get?_drop_self] at gone
        exact absurd gone (by simp)
      · exact Or.inr ⟨a, List.mem_append_right _ member, below⟩
    · exact Or.inr ⟨dependent, List.mem_append_left _ listed, below⟩
  · rintro (rfl | ⟨a, member, walk⟩)
    · exact ⟨other, List.mem_cons_self, .self found⟩
    · rcases List.mem_append.mp member with listed | member
      · exact ⟨id, List.mem_cons_self, .down found listed walk.of_drop⟩
      · exact ⟨a, List.mem_cons_of_mem _ member, walk.of_drop⟩

/-! ### Taking out everything that is pending -/

@[simp] theorem removeAll_nil (r : Registry) : r.removeAll [] = r := by rw [removeAll]

theorem removeAll_cons_of_none {id : Nat} {rest : List Nat} (gone : r.get? id = none) :
    r.removeAll (id :: rest) = r.removeAll rest := by
  rw [removeAll]
  split
  · rfl
  · rename_i found
    rw [gone] at found
    exact absurd found (by simp)

theorem removeAll_cons_of_some {id : Nat} {rest : List Nat} {e : Entry}
    (found : r.get? id = some e) :
    r.removeAll (id :: rest) = (r.drop id e).removeAll (e.dependents ++ rest) := by
  rw [removeAll]
  split
  · rename_i gone
    rw [gone] at found
    exact absurd found (by simp)
  · rename_i found'
    rw [found] at found'
    rw [Option.some.inj found']

theorem get?_removeAll (r : Registry) (pending : List Nat) (id : Nat) (e : Entry) :
    (r.removeAll pending).get? id = some e ↔ r.get? id = some e ∧ ¬ r.Doomed pending id := by
  fun_induction removeAll r pending with
  | case1 r => simp [Doomed]
  | case2 r a rest gone ih =>
    rw [ih]
    -- nothing is found under a number that is gone, so nothing hangs on it
    have same : r.Doomed (a :: rest) id ↔ r.Doomed rest id := by
      constructor
      · rintro ⟨b, member, walk⟩
        rcases List.mem_cons.mp member with rfl | member
        · obtain ⟨o, found⟩ := walk.start
          rw [gone] at found
          exact absurd found (by simp)
        · exact ⟨b, member, walk⟩
      · rintro ⟨b, member, walk⟩
        exact ⟨b, List.mem_cons_of_mem _ member, walk⟩
    rw [same]
  | case3 r a rest o found _ ih =>
    rw [ih, get?_drop_eq_some, doomed_drop found, not_or]
    constructor
    · rintro ⟨⟨different, live⟩, spared⟩
      exact ⟨live, different, spared⟩
    · rintro ⟨live, different, spared⟩
      exact ⟨⟨different, live⟩, spared⟩

/-- What is left was there before. -/
theorem get?_of_removeAll {r : Registry} {pending : List Nat} {id : Nat} {e : Entry}
    (stays : (r.removeAll pending).get? id = some e) : r.get? id = some e :=
  ((get?_removeAll _ _ _ _).mp stays).1

/-- What is left is as it was before. -/
theorem eq_of_get?_removeAll {r : Registry} {pending : List Nat} {id : Nat} {e e' : Entry}
    (found : r.get? id = some e) (stays : (r.removeAll pending).get? id = some e') : e = e' :=
  Option.some.inj (found.symm.trans (get?_of_removeAll stays))

theorem get?_removeAll_isSome (r : Registry) (pending : List Nat) (id : Nat) :
    (∃ e, (r.removeAll pending).get? id = some e) ↔
      (∃ e, r.get? id = some e) ∧ ¬ r.Doomed pending id := by
  simp only [get?_removeAll, exists_and_right]

@[simp] theorem nextId_removeAll (r : Registry) (pending : List Nat) :
    (r.removeAll pending).nextId = r.nextId := by
  fun_induction removeAll r pending with
  | case1 r => rfl
  | case2 r a rest gone ih => exact ih
  | case3 r a rest o found _ ih => exact ih

/-- The order loses the numbers of the entries that go; the others stay as they stand. -/
theorem ordered_removeAll (r : Registry) (pending : List Nat) :
    (r.removeAll pending).ordered = r.ordered.filter fun id =>
      (r.get? id).isNone || ((r.removeAll pending).get? id).isSome := by
  fun_induction removeAll r pending with
  | case1 r =>
    refine (List.filter_eq_self.mpr fun id _ => ?_).symm
    cases r.get? id <;> rfl
  | case2 r a rest gone ih => exact ih
  | case3 r a rest o found _ ih =>
    rw [ih]
    show (r.ordered.filter (· ≠ a)).filter _ = _
    rw [List.filter_filter]
    refine List.filter_congr fun id _ => ?_
    by_cases same : id = a
    · subst same
      have gone : ((r.drop id o).removeAll (o.dependents ++ rest)).get? id = none := by
        rw [Option.eq_none_iff_forall_ne_some]
        intro e live
        exact (get?_drop_eq_some.mp (get?_of_removeAll live)).1 rfl
      simp [gone, found]
    · simp [same, get?_drop_of_ne r o (Ne.symm same)]

theorem byName_removeAll (h : Indexed r) (pending : List Nat) (name : String) (id : Nat) :
    (r.removeAll pending).byName.get? name = some id ↔
      r.byName.get? name = some id ∧ ∃ e, (r.removeAll pending).get? id = some e := by
  fun_induction removeAll r pending with
  | case1 r =>
    refine ⟨fun index => ⟨index, ?_⟩, And.left⟩
    obtain ⟨e, found, -⟩ := h name id index
    exact ⟨e, found⟩
  | case2 r a rest gone ih => exact ih h
  | case3 r a rest o found _ ih =>
    rw [ih (indexed_drop h found), byName_drop h found]
    constructor
    · rintro ⟨⟨-, index⟩, live⟩
      exact ⟨index, live⟩
    · rintro ⟨index, e, live⟩
      have different := (get?_drop_eq_some.mp (get?_of_removeAll live)).1
      exact ⟨⟨different, index⟩, e, live⟩

/-! ### The walk down and the links up -/

/-- What hangs on an entry and is still there links to the entry. -/
theorem Linked.linksTo_of_dependent (h : Linked r) {a dependent : Nat} {e d : Entry}
    (found : r.get? a = some e) (listed : dependent ∈ e.dependents)
    (live : r.get? dependent = some d) : r.LinksTo dependent a := by
  rcases List.mem_append.mp listed with child | other
  · exact ⟨d, live, Or.inl (h.child found child d live)⟩
  · exact ⟨d, live, Or.inr (h.alternative found other d live)⟩

/-- Removal comes from an entry to whatever links to it. -/
theorem Linked.cascade_of_linksTo (h : Linked r) {a b : Nat} (link : r.LinksTo b a) :
    Cascade r a b := by
  obtain ⟨e, found, parent | isAlias⟩ := link
  · obtain ⟨-, -, ⟨p, foundP, child⟩ | ⟨original, o, isAlias, foundO, sibling⟩⟩ :=
      h.parent found parent
    · exact .down foundP (List.mem_append_left _ child) (.self found)
    · -- the alias hangs on its original, which is a child of the parent itself
      obtain ⟨-, o', foundO', primary, other⟩ := h.original found isAlias
      rw [foundO] at foundO'
      obtain rfl := Option.some.inj foundO'
      obtain ⟨-, -, ⟨p, foundP, child⟩ | ⟨_, _, isAlias', -⟩⟩ := h.parent foundO sibling
      · exact .down foundP (List.mem_append_left _ child)
          (.down foundO (List.mem_append_right _ other) (.self found))
      · rw [primary] at isAlias'
        exact absurd isAlias' (by simp)
  · obtain ⟨-, o, foundO, -, other⟩ := h.original found isAlias
    exact .down foundO (List.mem_append_right _ other) (.self found)

/-- Removal comes down to exactly the entries whose links lead up to where it began. -/
theorem cascade_iff (h : Linked r) {a b : Nat} :
    Cascade r a b ↔ (∃ e, r.get? b = some e) ∧ Relation.ReflTransGen r.LinksTo b a := by
  constructor
  · intro walk
    refine ⟨walk.live, ?_⟩
    induction walk with
    | self _ => exact .refl
    | down found listed below ih =>
      obtain ⟨d, live⟩ := below.start
      exact ih.tail (h.linksTo_of_dependent found listed live)
  · rintro ⟨⟨e, live⟩, links⟩
    -- induction on the links from the entry upwards: removal comes down the first one last
    induction links using Relation.ReflTransGen.head_induction_on generalizing e with
    | refl => exact .self live
    | head link _ ih =>
      obtain ⟨e', live'⟩ := (h.cascade_of_linksTo link).start
      exact (ih e' live').trans (h.cascade_of_linksTo link)

/-- What an entry that stays links to stays as well. -/
theorem Linked.spared_of_linksTo (h : Linked r) {a b : Nat} (link : r.LinksTo b a)
    (spared : ¬ r.Doomed pending b) : ¬ r.Doomed pending a := by
  rintro ⟨root, member, walk⟩
  exact spared ⟨root, member, walk.trans (h.cascade_of_linksTo link)⟩

theorem Linked.get?_removeAll_of_linksTo (h : Linked r) {a b : Nat} {e : Entry}
    (link : r.LinksTo b a) (found : r.get? a = some e) (spared : ¬ r.Doomed pending b) :
    (r.removeAll pending).get? a = some e :=
  (get?_removeAll r pending a e).mpr ⟨found, h.spared_of_linksTo link spared⟩

section

variable (h : Linked r) (pending : List Nat)

include h

/-- Who is listed under a parent stays so: the parent and, for an alias, the original stay too. -/
theorem parent_removeAll {id parent : Nat} {e : Entry}
    (found : (r.removeAll pending).get? id = some e) (link : e.parent = some parent) :
    parent < id ∧ (∃ p, (r.removeAll pending).get? parent = some p) ∧
      (r.removeAll pending).ListedUnder id e parent := by
  obtain ⟨found, spared⟩ := (get?_removeAll _ _ _ _).mp found
  have up : r.LinksTo id parent := ⟨e, found, Or.inl link⟩
  obtain ⟨older, ⟨p, foundP⟩, listed⟩ := h.parent found link
  refine ⟨older, ⟨p, h.get?_removeAll_of_linksTo up foundP spared⟩, ?_⟩
  rcases listed with ⟨p, foundP, child⟩ | ⟨original, o, isAlias, foundO, sibling⟩
  · exact Or.inl ⟨p, h.get?_removeAll_of_linksTo up foundP spared, child⟩
  · have upO : r.LinksTo id original := ⟨e, found, Or.inr isAlias⟩
    exact Or.inr ⟨original, o, isAlias, h.get?_removeAll_of_linksTo upO foundO spared, sibling⟩

theorem original_removeAll {id original : Nat} {e : Entry}
    (found : (r.removeAll pending).get? id = some e) (isAlias : e.aliasOf = some original) :
    original < id ∧ ∃ o, (r.removeAll pending).get? original = some o ∧ o.aliasOf = none ∧
      id ∈ o.aliases := by
  obtain ⟨found, spared⟩ := (get?_removeAll _ _ _ _).mp found
  obtain ⟨older, o, foundO, primary, other⟩ := h.original found isAlias
  have up : r.LinksTo id original := ⟨e, found, Or.inr isAlias⟩
  exact ⟨older, o, h.get?_removeAll_of_linksTo up foundO spared, primary, other⟩

/-- A link up that stays is recorded by the same identity. -/
theorem recordId?_removeAll {id : Nat} {link : Option Nat}
    (links : ∀ up, link = some up → r.LinksTo id up ∧ ∃ e, r.get? up = some e)
    (spared : ¬ r.Doomed pending id) : (r.removeAll pending).recordId? link = r.recordId? link := by
  cases link with
  | none => rfl
  | some up =>
    obtain ⟨linked, e, found⟩ := links up rfl
    simp only [recordId?, Option.bind_some, found, h.get?_removeAll_of_linksTo linked found spared]

theorem recorded_removeAll {id : Nat} {e : Entry}
    (found : (r.removeAll pending).get? id = some e) :
    e.record.parent = (r.removeAll pending).recordId? e.parent ∧
      e.record.aliasOf = (r.removeAll pending).recordId? e.aliasOf := by
  obtain ⟨found, spared⟩ := (get?_removeAll _ _ _ _).mp found
  obtain ⟨parent, original⟩ := h.recorded found
  constructor
  · rw [parent]
    refine (recordId?_removeAll h pending (fun up link => ?_) spared).symm
    exact ⟨⟨e, found, Or.inl link⟩, (h.parent found link).2.1⟩
  · rw [original]
    refine (recordId?_removeAll h pending (fun up link => ?_) spared).symm
    obtain ⟨-, o, foundO, -⟩ := h.original found link
    exact ⟨⟨e, found, Or.inr link⟩, o, foundO⟩

theorem mem_ordered_removeAll {id : Nat} : id ∈ (r.removeAll pending).ordered ↔
    ∃ e, (r.removeAll pending).get? id = some e := by
  rw [ordered_removeAll, List.mem_filter, h.mem_ordered]
  constructor
  · rintro ⟨⟨e, found⟩, kept⟩
    rw [found] at kept
    exact Option.isSome_iff_exists.mp (by simpa using kept)
  · intro live
    refine ⟨((get?_removeAll_isSome r pending id).mp live).1, ?_⟩
    rw [Option.isSome_iff_exists.mpr live, Bool.or_true]

theorem named_removeAll {name : String} {id : Nat} :
    (r.removeAll pending).byName.get? name = some id ↔
      ∃ e, (r.removeAll pending).get? id = some e ∧ e.isAlias = false ∧
        e.record.name = some name := by
  rw [byName_removeAll h.indexed, h.named]
  constructor
  · rintro ⟨⟨e, found, primary, named⟩, e', live⟩
    obtain rfl := eq_of_get?_removeAll found live
    exact ⟨e, live, primary, named⟩
  · rintro ⟨e, live, primary, named⟩
    exact ⟨⟨e, get?_of_removeAll live, primary, named⟩, e, live⟩

theorem linked_removeAll : Linked (r.removeAll pending) where
  number := fun found => h.number (get?_of_removeAll found)
  lt_nextId := by
    intro id e found
    rw [nextId_removeAll]
    exact h.lt_nextId (get?_of_removeAll found)
  parent := parent_removeAll h pending
  original := original_removeAll h pending
  child := by
    intro id child e found listed c live
    exact h.child (get?_of_removeAll found) listed c (get?_of_removeAll live)
  alternative := by
    intro id other e found listed a live
    exact h.alternative (get?_of_removeAll found) listed a (get?_of_removeAll live)
  younger := by
    intro id dependent e found listed
    rw [nextId_removeAll]
    exact h.younger (get?_of_removeAll found) listed
  dependents_nodup := fun found => h.dependents_nodup (get?_of_removeAll found)
  recorded := recorded_removeAll h pending
  ordered_nodup := by
    rw [ordered_removeAll]
    exact h.ordered_nodup.filter _
  mem_ordered := mem_ordered_removeAll h pending
  named := named_removeAll h pending

end

end Registry
end Waymark
