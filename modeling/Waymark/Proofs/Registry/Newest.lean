/-
The newest first.

A new matcher goes before the first one that is not more specific, so it goes before every
older one that is not more specific, although the comparison of scores is not transitive.
What is entered later may come between the two, and what is taken out may not; neither swaps
them.  So an entry always comes after the newer ones that are at least as specific
(`NewestFirst`).

* `newestFirst_register`, `newestFirst_removeAll` — what one step keeps;
* `NewestFirst.sublist` — the order of two entries;
* `NewestFirst.find?_ne` — a search does not come to an entry where such a newer one recognizes
  the path.
-/
import Waymark.Proofs.Registry.Later

namespace Waymark
namespace Registry

variable {r : Registry} {d : Definition} {m m' : Matcher} {parent original : Option Nat}
  {id other : Nat}

/-- The entry `a` has to come after the entry `b`, which is newer and at least as specific. -/
def Yields (r : Registry) (a b : Nat) : Prop :=
  a < b ∧ ∃ m m', r.matcherAt? a = some m ∧ r.matcherAt? b = some m' ∧
    m.score.atMost m'.score = true

/-- No entry comes before one that it has to come after. -/
def NewestFirst (r : Registry) : Prop := r.ordered.Pairwise fun a b => ¬ r.Yields a b

/-! ### Steps -/

theorem newestFirst_register (filled : Filled r) (order : NewestFirst r) :
    NewestFirst (r.register d m parent original) := by
  have old : ∀ id ∈ r.ordered, (r.register d m parent original).matcherAt? id = r.matcherAt? id :=
    fun id member => matcherAt?_register_of_ne (Nat.ne_of_lt (filled id member).1)
  rw [NewestFirst, ordered_register]
  refine pairwise_insertBefore ?_ ?_ ?_
  · refine order.imp_of_mem fun memberA memberB apart => ?_
    rw [Yields, old _ memberA, old _ memberB]
    exact apart
  · rintro a member stays ⟨-, other, new, found, isNew, atMost⟩
    rw [old a member] at found
    obtain ⟨e, foundE, rfl⟩ := Option.map_eq_some_iff.mp found
    obtain rfl := Option.some.inj (matcherAt?_register_self.symm.trans isNew)
    rw [isAtMost, foundE, Option.any_some, atMost] at stays
    exact absurd stays (by simp)
  · -- the new number is the highest, so the new entry has to come after none
    rintro a - - b member - ⟨newer, -⟩
    exact absurd newer (Nat.not_lt.mpr (Nat.le_of_lt (filled b member).1))

theorem newestFirst_registers {r' : Registry} {ms : List Matcher} (h : Registers r r' ms)
    (filled : Filled r) (order : NewestFirst r) : NewestFirst r' := by
  obtain ⟨steps, rfl, -⟩ := h
  induction steps generalizing r with
  | nil => exact order
  | cons s rest ih => exact ih (filled_register filled) (newestFirst_register filled order)

theorem newestFirst_removeAll (order : NewestFirst r) (pending : List Nat) :
    NewestFirst (r.removeAll pending) := by
  have earlier : ∀ {id m}, (r.removeAll pending).matcherAt? id = some m →
      r.matcherAt? id = some m := by
    intro id m found
    obtain ⟨e, foundE, rfl⟩ := Option.map_eq_some_iff.mp found
    rw [matcherAt?, get?_of_removeAll foundE, Option.map_some]
  rw [NewestFirst, ordered_removeAll]
  refine (order.filter _).imp ?_
  rintro a b apart ⟨newer, m, m', foundA, foundB, atMost⟩
  exact apart ⟨newer, m, m', earlier foundA, earlier foundB, atMost⟩

/-! ### Two entries -/

namespace NewestFirst

variable (order : NewestFirst r)

include order

/-- Of two numbers in the order the one that has to comes last. -/
theorem sublist (first : other ∈ r.ordered) (last : id ∈ r.ordered) (yields : r.Yields other id) :
    [id, other].Sublist r.ordered := by
  obtain ⟨front, back, split⟩ := List.append_of_mem first
  have inBack : id ∉ back := by
    intro member
    refine List.pairwise_iff_forall_sublist.mp order ?_ yields
    rw [split]
    exact ((List.singleton_sublist.mpr member).cons_cons other).trans
      (List.sublist_append_right front _)
  have inFront : id ∈ front := by
    rw [split, List.mem_append, List.mem_cons] at last
    rcases last with inFront | rfl | member
    · exact inFront
    · exact absurd yields.1 (Nat.lt_irrefl _)
    · exact absurd member inBack
  rw [split]
  exact (List.singleton_sublist.mpr inFront).append
    (List.singleton_sublist.mpr List.mem_cons_self)

/-- A search does not come to an entry where one that the entry has to come after recognizes the
path. -/
theorem find?_ne (h : Linked r) (yields : r.Yields other id) (found : r.matcherAt? id = some m)
    {path : String} (recognized : (m.recognize path).isSome) (params : Params) :
    ∀ e, r.find? path = some (e, params) → e.id ≠ other := by
  intro e first same
  have answered := map_find? h path
  rw [first, Option.map_some, eq_comm, List.findSome?_eq_some_iff] at answered
  obtain ⟨front, number, back, split, own, nothing⟩ := answered
  obtain rfl : e.id = number := fst_of_answer? own
  obtain ⟨e', foundE, rfl⟩ := Option.map_eq_some_iff.mp found
  have member : id ∈ r.ordered := h.mem_ordered.mpr ⟨e', foundE⟩
  obtain ⟨params', isParams⟩ := Option.isSome_iff_exists.mp recognized
  rw [split, List.mem_append, List.mem_cons] at member
  rcases member with inFront | isOwn | inBack
  · -- the search would have come to the newer entry before
    have passed := nothing id inFront
    rw [answer?, found, Option.bind_some, isParams] at passed
    exact absurd passed (by simp)
  · rw [isOwn, same] at yields
    exact absurd yields.1 (Nat.lt_irrefl _)
  · refine List.pairwise_iff_forall_sublist.mp order ?_ (same ▸ yields)
    rw [split]
    exact ((List.singleton_sublist.mpr inBack).cons_cons e.id).trans
      (List.sublist_append_right front _)

end NewestFirst

end Registry
end Waymark
