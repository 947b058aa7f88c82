/-
Registries later on.

Whatever happens to a registry, an entry that is still there has the record, the matcher
and the upward links that it had.  New entries have numbers that were not given out before,
and the old entries that are still there are tried in the order in which they were.
`Registry.Later` says so of a registry and of what has come of it.

* `later_removeAll`, `later_clear` — removals lead to a later registry;
* `Later.trans` — and so do several steps;
* `Later.ancestors` — the records on the way up from an entry that stays are those that
  they were;
* `Later.answer?` — a search comes to a new entry, or it ends as it did before, unless what it
  ended at is gone.
-/
import Waymark.Proofs.Regex.Run
import Waymark.Proofs.Registry.Ranking
import Waymark.Proofs.Router.Removal

namespace Waymark
namespace Registry

variable {r r' r'' : Registry} {id : Nat} {e e' : Entry} {path : String}

/-- `r'` is what has come of `r`. -/
structure Later (r r' : Registry) : Prop where
  lineage : r'.lineage = r.lineage
  nextId_le : r.nextId ≤ r'.nextId
  kept {id : Nat} {e' : Entry} : r'.get? id = some e' → id < r.nextId →
    ∃ e children aliases, r.get? id = some e ∧ e' = e.extend children aliases
  /-- The record of a new entry bears the number that was given out, and the lineage. -/
  fresh {id : Nat} {e' : Entry} : r'.get? id = some e' → r.nextId ≤ id →
    e'.record.id = ⟨r.lineage, id⟩
  ordered : r'.ordered.filter (· < r.nextId) = r.ordered.filter fun id => (r'.get? id).isSome

/-! ### Steps -/

theorem lineage_removeAll (r : Registry) (pending : List Nat) :
    (r.removeAll pending).lineage = r.lineage := by
  fun_induction removeAll r pending with
  | case1 r => rfl
  | case2 r id rest gone ih => exact ih
  | case3 r id rest e found _ ih => exact ih

theorem later_removeAll (h : Linked r) (pending : List Nat) : Later r (r.removeAll pending) where
  lineage := lineage_removeAll r pending
  nextId_le := Nat.le_of_eq (nextId_removeAll r pending).symm
  kept := fun found _ =>
    ⟨_, [], [], get?_of_removeAll found, (Entry.extend_nil _).symm⟩
  fresh := by
    intro id e found high
    have low := h.lt_nextId (get?_of_removeAll found)
    exact absurd high (Nat.not_le.mpr low)
  ordered := by
    have members : ∀ id ∈ r.ordered, ∃ e, r.get? id = some e := fun id => h.mem_ordered.mp
    rw [ordered_removeAll, List.filter_filter]
    refine List.filter_congr fun id member => ?_
    obtain ⟨e, found⟩ := members id member
    simp [found, h.lt_nextId found]

theorem Later.refl (h : Linked r) : Later r r := by
  have later := later_removeAll h []
  rwa [removeAll_nil] at later

theorem later_clear (r : Registry) : Later r r.clear where
  lineage := rfl
  nextId_le := Nat.le_refl _
  kept := fun found => absurd found (by simp [clear, get?])
  fresh := fun found => absurd found (by simp [clear, get?])
  ordered := by simp [clear, get?]

theorem filter_lt_filter_lt (l : List Nat) {a b : Nat} (le : a ≤ b) :
    (l.filter (· < b)).filter (· < a) = l.filter (· < a) := by
  rw [List.filter_filter]
  refine List.filter_congr fun n _ => ?_
  by_cases low : n < a
  · simp [low, low.trans_le le]
  · simp [low]

theorem Later.trans (h : Linked r) (later : Later r r') (later' : Later r' r'') : Later r r'' where
  lineage := later'.lineage.trans later.lineage
  nextId_le := Nat.le_trans later.nextId_le later'.nextId_le
  kept := by
    intro id e'' found low
    obtain ⟨e', more, others, found', rfl⟩ :=
      later'.kept found (Nat.lt_of_lt_of_le low later.nextId_le)
    obtain ⟨e, children, aliases, old, rfl⟩ := later.kept found' low
    exact ⟨e, _, _, old, Entry.extend_extend ..⟩
  fresh := by
    intro id e'' found high
    rcases Nat.lt_or_ge id r'.nextId with early | late
    · obtain ⟨e', children, aliases, found', isExtended⟩ := later'.kept found early
      rw [isExtended, Entry.extend_record]
      exact later.fresh found' high
    · rw [← later.lineage]
      exact later'.fresh found late
  ordered := by
    rw [← filter_lt_filter_lt _ later.nextId_le, later'.ordered, List.filter_comm, later.ordered,
      List.filter_filter]
    refine List.filter_congr fun id member => ?_
    obtain ⟨e, found⟩ := h.mem_ordered.mp member
    have low := h.lt_nextId found
    cases live : r''.get? id with
    | none => rfl
    | some e'' =>
      obtain ⟨e', _, _, found', -⟩ := later'.kept live (Nat.lt_of_lt_of_le low later.nextId_le)
      simp [found']

/-! ### What stays as it was -/

namespace Later

variable (later : Later r r')

include later

theorem matcherAt? (live : ∃ e', r'.get? id = some e') (low : id < r.nextId) :
    r'.matcherAt? id = r.matcherAt? id := by
  obtain ⟨e', found'⟩ := live
  obtain ⟨e, children, aliases, found, rfl⟩ := later.kept found' low
  rw [Registry.matcherAt?, Registry.matcherAt?, found, found']
  rfl

/-- The records on the way up from an entry that stays are those that they were. -/
theorem ancestors (h' : Linked r') (found' : r'.get? id = some e')
    (low : id < r.nextId) :
    (r'.ancestors id).map (·.record) = (r.ancestors id).map (·.record) := by
  induction id using Nat.strong_induction_on generalizing e' with
  | _ id ih =>
    obtain ⟨e, children, aliases, found, rfl⟩ := later.kept found' low
    cases link : e.parent with
    | none =>
      rw [ancestors_of_root found' link, ancestors_of_root found link]
      rfl
    | some parent =>
      obtain ⟨older, ⟨p, foundP⟩, -⟩ := h'.parent found' link
      rw [ancestors_of_child found' link older, ancestors_of_child found link older, List.map_cons,
        List.map_cons, ih parent older foundP (older.trans low)]
      rfl

end Later

/-! ### Searches -/

/-- What the entry with a number makes of a path. -/
def answer? (r : Registry) (path : String) (id : Nat) : Option (Nat × Params) :=
  (r.matcherAt? id).bind fun m => (m.recognize path).map fun params => (id, params)

theorem fst_of_answer? {answer : Nat × Params} (answered : r.answer? path id = some answer) :
    answer.1 = id := by
  obtain ⟨m, -, answered⟩ := Option.bind_eq_some_iff.mp answered
  obtain ⟨params, -, rfl⟩ := Option.map_eq_some_iff.mp answered
  rfl

/-- A search ends at the first number with an answer. -/
theorem map_find? (h : Linked r) (path : String) :
    (r.find? path).map (fun found => (found.1.id, found.2)) =
      r.ordered.findSome? (r.answer? path) := by
  rw [find?, inOrder, List.map_findSome?, ← List.head?_filterMap, List.filterMap_filterMap,
    List.head?_filterMap]
  refine Regex.findSome?_congr fun id _ => ?_
  rw [answer?, Registry.matcherAt?]
  cases found : r.get? id with
  | none => rfl
  | some e =>
    have number := h.number found
    simp only [Option.map_some, Option.bind_some, Function.comp_apply, Option.map_map]
    congr 1
    funext params
    rw [Function.comp_apply, number]

/-- A search ends at something that is left out, or as well without what is left out. -/
theorem findSome?_filter {α β : Type} (keeps : α → Bool) (f : α → Option β) (l : List α) :
    (∃ a b, a ∈ l ∧ keeps a = false ∧ f a = some b ∧ l.findSome? f = some b) ∨
      l.findSome? f = (l.filter keeps).findSome? f := by
  induction l with
  | nil => exact Or.inr rfl
  | cons a l ih =>
    rw [List.findSome?_cons]
    cases first : f a with
    | some b =>
      cases isKept : keeps a with
      | false => exact Or.inl ⟨a, b, List.mem_cons_self, isKept, first, rfl⟩
      | true =>
        rw [List.filter_cons_of_pos isKept, List.findSome?_cons, first]
        exact Or.inr rfl
    | none =>
      have passed : ((a :: l).filter keeps).findSome? f = (l.filter keeps).findSome? f := by
        rw [List.filter_cons]
        split
        · rw [List.findSome?_cons, first]
        · rfl
      rw [passed]
      refine ih.imp_left ?_
      rintro ⟨a', b, member, rest⟩
      exact ⟨a', b, List.mem_cons_of_mem a member, rest⟩

/-- A search comes to a new entry, or it ends as it did before, unless what it ended at is gone. -/
theorem Later.find? (later : Later r r') (h : Linked r) (h' : Linked r')
    (stays : ∀ e params, r.find? path = some (e, params) → ∃ e', r'.get? e.id = some e') :
    (∃ e params, r'.find? path = some (e, params) ∧ r.nextId ≤ e.id) ∨
      (r'.find? path).map (fun found => (found.1.id, found.2)) =
        (r.find? path).map (fun found => (found.1.id, found.2)) := by
  rcases findSome?_filter (· < r.nextId) (r'.answer? path) r'.ordered with
    ⟨id, answer, -, isNew, answered, first⟩ | old
  · -- the number of the answer is that of a new entry
    rw [← map_find? h', Option.map_eq_some_iff] at first
    obtain ⟨⟨e, params⟩, found, rfl⟩ := first
    have number : e.id = id := fst_of_answer? answered
    refine Or.inl ⟨e, params, found, ?_⟩
    rw [number]
    simpa using isNew
  rcases findSome?_filter (fun id => (r'.get? id).isSome) (r.answer? path) r.ordered with
    ⟨id, answer, -, isGone, answered, first⟩ | kept
  · rw [← map_find? h, Option.map_eq_some_iff] at first
    obtain ⟨⟨e, params⟩, found, rfl⟩ := first
    obtain ⟨e', live⟩ := stays e params found
    have number : e.id = id := fst_of_answer? answered
    rw [← number, live] at isGone
    exact absurd isGone (by simp)
  · refine Or.inr ?_
    rw [map_find? h', map_find? h, old, kept, later.ordered]
    refine Regex.findSome?_congr fun id member => ?_
    obtain ⟨member, live⟩ := List.mem_filter.mp member
    rw [answer?, answer?, later.matcherAt? (Option.isSome_iff_exists.mp live)]
    obtain ⟨e, found⟩ := h.mem_ordered.mp member
    exact h.lt_nextId found

end Registry
end Waymark
