/-
The links of a registry.

An entry names its parent and the entry that it is an alias of; those list it in turn
among their children or aliases.  `Registry.Linked` says how the two directions agree,
and how the entries agree with the order and the index of names.  It is what every
operation on a registry keeps:

* a parent or original is older than the entries that name it, and is still there;
* an entry with a parent is listed among the parent's children, unless it is an alias
  of one of them: such an alias hangs on its original only;
* the lists hold numbers that were given out later, each once, and an entry that is
  still there under such a number names the entry that lists it.

`Registry.Coherent` is the part of it that a caller can see.
-/
import Mathlib.Logic.Relation
import Waymark.Router

namespace Waymark
namespace Registry

variable {r : Registry}

/-- The entry `a` names `b` as its parent or as the entry that it is an alias of. -/
def LinksTo (r : Registry) (a b : Nat) : Prop :=
  ∃ e, r.get? a = some e ∧ (e.parent = some b ∨ e.aliasOf = some b)

/-- The entry is one of the parent's children, or an alias of one of them. -/
def ListedUnder (r : Registry) (id : Nat) (e : Entry) (parent : Nat) : Prop :=
  (∃ p, r.get? parent = some p ∧ id ∈ p.children) ∨
    ∃ original o, e.aliasOf = some original ∧ r.get? original = some o ∧ o.parent = some parent

/-- The entries, the links between them, the order and the index of names agree. -/
structure Linked (r : Registry) : Prop where
  number {id : Nat} {e : Entry} : r.get? id = some e → e.id = id
  lt_nextId {id : Nat} {e : Entry} : r.get? id = some e → id < r.nextId
  parent {id parent : Nat} {e : Entry} : r.get? id = some e → e.parent = some parent →
    parent < id ∧ (∃ p, r.get? parent = some p) ∧ r.ListedUnder id e parent
  original {id original : Nat} {e : Entry} : r.get? id = some e → e.aliasOf = some original →
    original < id ∧ ∃ o, r.get? original = some o ∧ o.aliasOf = none ∧ id ∈ o.aliases
  child {id child : Nat} {e : Entry} : r.get? id = some e → child ∈ e.children →
    ∀ c, r.get? child = some c → c.parent = some id
  alternative {id other : Nat} {e : Entry} : r.get? id = some e → other ∈ e.aliases →
    ∀ a, r.get? other = some a → a.aliasOf = some id
  younger {id dependent : Nat} {e : Entry} : r.get? id = some e → dependent ∈ e.dependents →
    id < dependent ∧ dependent < r.nextId
  dependents_nodup {id : Nat} {e : Entry} : r.get? id = some e → e.dependents.Nodup
  recorded {id : Nat} {e : Entry} : r.get? id = some e →
    e.record.parent = r.recordId? e.parent ∧ e.record.aliasOf = r.recordId? e.aliasOf
  ordered_nodup : r.ordered.Nodup
  mem_ordered {id : Nat} : id ∈ r.ordered ↔ ∃ e, r.get? id = some e
  named {name : String} {id : Nat} : r.byName.get? name = some id ↔
    ∃ e, r.get? id = some e ∧ e.isAlias = false ∧ e.record.name = some name

/-- What a caller sees of the links: the order holds the entries, each once; the index of names
holds the entries that are no aliases; the numbers of parents and originals are those of older
entries, which list the entry; and the links of records lead to the records of those entries. -/
structure Coherent (r : Registry) : Prop where
  number : ∀ id e, r.get? id = some e → e.id = id ∧ id < r.nextId
  ordered_nodup : r.ordered.Nodup
  mem_ordered : ∀ id, id ∈ r.ordered ↔ (r.get? id).isSome
  named : ∀ name id, r.byName.get? name = some id ↔
    ∃ e, r.get? id = some e ∧ e.isAlias = false ∧ e.record.name = some name
  name_unique : ∀ a b ea eb name, r.get? a = some ea → r.get? b = some eb →
    ea.isAlias = false → eb.isAlias = false →
    ea.record.name = some name → eb.record.name = some name → a = b
  parent : ∀ id e parent, r.get? id = some e → e.parent = some parent →
    parent < id ∧ (r.get? parent).isSome
  original : ∀ id e original, r.get? id = some e → e.aliasOf = some original →
    original < id ∧ (r.get? original).isSome
  listed : ∀ id e parent, r.get? id = some e → e.parent = some parent →
    (∃ p, r.get? parent = some p ∧ id ∈ p.children) ∨
      ∃ original o, e.aliasOf = some original ∧ r.get? original = some o ∧ id ∈ o.aliases
  parent_record : ∀ id e, r.get? id = some e →
    e.record.parent? (r.inOrder.map (·.record)) = (e.parent.bind r.get?).map (·.record)
  original_record : ∀ id e, r.get? id = some e →
    e.record.primary? (r.inOrder.map (·.record)) = (e.aliasOf.bind r.get?).map (·.record)

/-! ### Small facts -/

theorem mem_inOrder (h : Linked r) {e : Entry} : e ∈ r.inOrder ↔ r.get? e.id = some e := by
  rw [inOrder]
  rw [List.mem_filterMap]
  constructor
  · rintro ⟨id, -, found⟩
    rw [h.number found]
    exact found
  · intro found
    exact ⟨e.id, h.mem_ordered.mpr ⟨e, found⟩, found⟩

theorem linked_clear (r : Registry) : Linked r.clear where
  number := by simp [clear, get?]
  lt_nextId := by simp [clear, get?]
  parent := by simp [clear, get?]
  original := by simp [clear, get?]
  child := by simp [clear, get?]
  alternative := by simp [clear, get?]
  younger := by simp [clear, get?]
  dependents_nodup := by simp [clear, get?]
  recorded := by simp [clear, get?]
  ordered_nodup := List.nodup_nil
  mem_ordered := by simp [clear, get?]
  named := by simp [clear, get?]

theorem linked_empty (lineage : Nat) : Linked (empty lineage) := linked_clear (empty lineage)

/-- A record that an entry holds is found again by its identity. -/
theorem lookup?_record (h : Linked r) {id : Nat} {e : Entry} (found : r.get? id = some e) :
    Record.lookup? (r.inOrder.map (·.record)) e.record.id = some e.record := by
  have member : e.record ∈ r.inOrder.map (·.record) := by
    refine List.mem_map.mpr ⟨e, (mem_inOrder h).mpr ?_, rfl⟩
    rw [h.number found]
    exact found
  rw [Record.lookup?]
  cases search : (r.inOrder.map (·.record)).find? (·.id = e.record.id) with
  | none =>
    have := List.find?_eq_none.mp search e.record member
    simp at this
  | some other =>
    -- the identity holds the number, so no other entry can have it
    have same : other.id = e.record.id := by
      simpa using List.find?_some search
    obtain ⟨o, inOrder, rfl⟩ := List.mem_map.mp (List.mem_of_find?_eq_some search)
    have foundO := (mem_inOrder h).mp inOrder
    have numbers : o.id = e.id := congrArg RecordId.number same
    rw [numbers, h.number found, found] at foundO
    rw [Option.some.inj foundO]

/-- The record behind the link to an entry that is there. -/
theorem bind_lookup?_recordId? (h : Linked r) {link : Option Nat}
    (live : ∀ id, link = some id → ∃ e, r.get? id = some e) :
    (r.recordId? link).bind (Record.lookup? (r.inOrder.map (·.record))) =
      (link.bind r.get?).map (·.record) := by
  cases link with
  | none => rfl
  | some id =>
    obtain ⟨e, found⟩ := live id rfl
    simp only [recordId?, Option.bind_some, found, Option.map_some]
    exact lookup?_record h found

theorem Linked.coherent (h : Linked r) : Coherent r where
  number := fun _ _ found => ⟨h.number found, h.lt_nextId found⟩
  ordered_nodup := h.ordered_nodup
  mem_ordered := fun id => by rw [h.mem_ordered, Option.isSome_iff_exists]
  named := fun _ _ => h.named
  name_unique := by
    intro a b ea eb name foundA foundB primaryA primaryB nameA nameB
    have indexA := h.named.mpr ⟨ea, foundA, primaryA, nameA⟩
    have indexB := h.named.mpr ⟨eb, foundB, primaryB, nameB⟩
    rw [indexA] at indexB
    exact Option.some.inj indexB
  parent := by
    intro id e parent found link
    obtain ⟨older, live, -⟩ := h.parent found link
    exact ⟨older, Option.isSome_iff_exists.mpr live⟩
  original := by
    intro id e original found link
    obtain ⟨older, o, live, -⟩ := h.original found link
    exact ⟨older, Option.isSome_iff_exists.mpr ⟨o, live⟩⟩
  listed := by
    intro id e parent found link
    obtain ⟨-, -, child | ⟨original, -, isAlias, -⟩⟩ := h.parent found link
    · exact Or.inl child
    · obtain ⟨-, o, live, -, listed⟩ := h.original found isAlias
      exact Or.inr ⟨original, o, isAlias, live, listed⟩
  parent_record := by
    intro id e found
    rw [Record.parent?, (h.recorded found).1]
    exact bind_lookup?_recordId? h fun _ link => (h.parent found link).2.1
  original_record := by
    intro id e found
    rw [Record.primary?, (h.recorded found).2]
    refine bind_lookup?_recordId? h fun _ link => ?_
    obtain ⟨-, o, live, -⟩ := h.original found link
    exact ⟨o, live⟩

end Registry
end Waymark
