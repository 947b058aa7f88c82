/-
The search for an entry among those that a removal takes out.

`Registry.reachedIn` keeps no account of what it has seen, so an entry that hangs on
several others is visited once for each.  Its numbers bound the visits: what hangs on
an entry has a larger number, so the visits below the entry `id` are at most
`2 ^ (nextId - id)`.

* `weights_lt` — the visits of what hangs on an entry are fewer than its own;
* `reachedIn_eq` — within that many steps the search ends with the right answer;
* `removalReaches_iff` — the search finds exactly what the removal comes to.
-/
import Mathlib.Algebra.BigOperators.Group.Finset.Basic
import Mathlib.Algebra.Order.Ring.GeomSum
import Waymark.Proofs.Registry.Removal

namespace Waymark
namespace Registry

variable {r : Registry} {target : Nat}

/-- A bound on the visits at the entry with a number and at what hangs on it. -/
def weight (r : Registry) (id : Nat) : Nat := 2 ^ (r.nextId - id)

/-- The bound for several entries. -/
def weights (r : Registry) (pending : List Nat) : Nat := (pending.map r.weight).sum

theorem weight_pos (r : Registry) (id : Nat) : 0 < r.weight id := Nat.two_pow_pos _

@[simp] theorem weights_cons (r : Registry) (id : Nat) (pending : List Nat) :
    r.weights (id :: pending) = r.weight id + r.weights pending := by
  simp [weights]

@[simp] theorem weights_append (r : Registry) (ids pending : List Nat) :
    r.weights (ids ++ pending) = r.weights ids + r.weights pending := by
  simp [weights]

@[simp] theorem weights_reverse (r : Registry) (ids : List Nat) :
    r.weights ids.reverse = r.weights ids := by
  unfold weights
  rw [List.map_reverse, List.sum_reverse]

theorem weights_singleton_le (r : Registry) (id : Nat) : r.weights [id] ≤ 2 ^ r.nextId := by
  rw [weights_cons]
  exact Nat.pow_le_pow_right Nat.two_pos (Nat.sub_le _ _)

/-- Different numbers above `id` weigh less together than `id` alone. -/
theorem weights_lt {ids : List Nat} (distinct : ids.Nodup) {id : Nat}
    (range : ∀ a ∈ ids, id < a ∧ a < r.nextId) : r.weights ids < r.weight id := by
  have injective : ∀ a ∈ ids, ∀ b ∈ ids, r.nextId - a = r.nextId - b → a = b := by
    intro a memberA b memberB same
    have := range a memberA
    have := range b memberB
    omega
  -- the weights are different powers of two below that of `id`
  have exponents : (ids.map (r.nextId - ·)).Nodup := distinct.map_on injective
  have sum : r.weights ids = ∑ k ∈ (ids.map (r.nextId - ·)).toFinset, 2 ^ k := by
    rw [List.sum_toFinset _ exponents, List.map_map]
    rfl
  rw [sum]
  refine Nat.geomSum_lt (Nat.le_refl 2) fun k member => ?_
  obtain ⟨a, memberA, rfl⟩ := List.mem_map.mp (List.mem_toFinset.mp member)
  have := range a memberA
  omega

/-- The numbers that a visit of an entry puts on the list. -/
def further (r : Registry) (id : Nat) : List Nat := ((r.get? id).map Entry.dependents).getD []

theorem Linked.younger_further (h : Linked r) {id a : Nat} (member : a ∈ r.further id) :
    id < a ∧ a < r.nextId := by
  unfold further at member
  cases found : r.get? id with
  | none =>
    rw [found] at member
    simp at member
  | some e =>
    rw [found] at member
    exact h.younger found member

theorem Linked.weights_further_lt (h : Linked r) (id : Nat) :
    r.weights (r.further id) < r.weight id := by
  refine weights_lt ?_ fun a member => h.younger_further member
  unfold further
  cases found : r.get? id with
  | none => exact List.nodup_nil
  | some e => exact h.dependents_nodup found

/-- What a removal comes to is the entry itself or hangs on what it puts on the list. -/
theorem doomed_cons {id : Nat} {pending : List Nat} (different : id ≠ target) :
    r.Doomed (id :: pending) target ↔ r.Doomed ((r.further id).reverse ++ pending) target := by
  constructor
  · rintro ⟨a, member, walk⟩
    rcases List.mem_cons.mp member with rfl | member
    · cases walk with
      | self _ => exact absurd rfl different
      | @down _ dependent _ e found listed below =>
        refine ⟨dependent, List.mem_append_left _ (List.mem_reverse.mpr ?_), below⟩
        simpa [further, found] using listed
    · exact ⟨a, List.mem_append_right _ member, walk⟩
  · rintro ⟨a, member, walk⟩
    rcases List.mem_append.mp member with listed | member
    · cases found : r.get? id with
      | none => simp [further, found] at listed
      | some e =>
        refine ⟨id, List.mem_cons_self, .down found ?_ walk⟩
        simpa [further, found] using listed
    · exact ⟨a, List.mem_cons_of_mem _ member, walk⟩

/-- With as many steps as the pending entries weigh, the search ends with the right answer. -/
theorem reachedIn_eq (h : Linked r) {t : Entry} (live : r.get? target = some t) :
    ∀ (steps : Nat) (pending : List Nat), r.weights pending ≤ steps →
      ∃ answer, r.reachedIn target steps pending = some answer ∧
        (answer = true ↔ r.Doomed pending target) := by
  intro steps
  induction steps with
  | zero =>
    intro pending bound
    cases pending with
    | nil => exact ⟨false, by rw [reachedIn], by simp [Doomed]⟩
    | cons id pending =>
      have := weight_pos r id
      rw [weights_cons] at bound
      omega
  | succ steps ih =>
    intro pending bound
    cases pending with
    | nil => exact ⟨false, by rw [reachedIn], by simp [Doomed]⟩
    | cons id pending =>
      by_cases same : id = target
      · subst same
        refine ⟨true, by rw [reachedIn, if_pos rfl], iff_of_true rfl ?_⟩
        exact ⟨id, List.mem_cons_self, .self live⟩
      · have lighter := h.weights_further_lt id
        rw [weights_cons] at bound
        obtain ⟨answer, found, right⟩ := ih ((r.further id).reverse ++ pending) (by
          rw [weights_append, weights_reverse]
          omega)
        refine ⟨answer, ?_, right.trans (doomed_cons same).symm⟩
        rw [reachedIn, if_neg same]
        exact found

theorem removalReaches_iff (h : Linked r) {root : Nat} {t : Entry}
    (live : r.get? target = some t) :
    r.removalReaches root target = true ↔ Cascade r root target := by
  obtain ⟨answer, found, right⟩ := reachedIn_eq h live (Nat.pow 2 r.nextId) [root]
    (weights_singleton_le r root)
  rw [removalReaches, found, Option.getD_some, right]
  simp [Doomed]

end Registry
end Waymark
