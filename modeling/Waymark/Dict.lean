/-
Finite maps as lists of pairs.

A `Dict` keeps each key once, in the order in which the keys first came; a later
value takes the place of an earlier one.
-/

namespace Waymark

/-- A finite map from `κ` to `α`. -/
abbrev Dict (κ α : Type) := List (κ × α)

namespace Dict

variable {κ α : Type} [DecidableEq κ]

/-- The value of a key. -/
def get? (d : Dict κ α) (key : κ) : Option α :=
  match d with
  | [] => none
  | (k, v) :: rest => if k = key then some v else get? rest key

/-- Whether the key has a value. -/
def has (d : Dict κ α) (key : κ) : Bool := (d.get? key).isSome

/-- The map with a new value for a key. -/
def insert (d : Dict κ α) (key : κ) (value : α) : Dict κ α :=
  match d with
  | [] => [(key, value)]
  | (k, v) :: rest => if k = key then (key, value) :: rest else (k, v) :: insert rest key value

/-- The map without a key. -/
def erase (d : Dict κ α) (key : κ) : Dict κ α := d.filter (·.1 ≠ key)

/-- The map with the value of a key, if it has one, put through a function. -/
def modify (d : Dict κ α) (key : κ) (f : α → α) : Dict κ α :=
  d.map fun (k, v) => if k = key then (k, f v) else (k, v)

/-- The map with all pairs of another one inserted. -/
def merge (d other : Dict κ α) : Dict κ α :=
  other.foldl (fun acc pair => acc.insert pair.1 pair.2) d

/-- The map of a list of pairs, of which later ones prevail. -/
def ofPairs (pairs : List (κ × α)) : Dict κ α := merge [] pairs

/-- The keys. -/
def keys (d : Dict κ α) : List κ := d.map (·.1)

@[simp] theorem get?_nil (key : κ) : get? ([] : Dict κ α) key = none := rfl

theorem get?_insert_self (d : Dict κ α) (key : κ) (value : α) :
    (d.insert key value).get? key = some value := by
  induction d with
  | nil => simp [insert, get?]
  | cons pair rest ih =>
    obtain ⟨k, v⟩ := pair
    by_cases h : k = key <;> simp [insert, get?, h, ih]

theorem get?_insert_of_ne (d : Dict κ α) {key other : κ} (value : α) (h : key ≠ other) :
    (d.insert key value).get? other = d.get? other := by
  induction d with
  | nil => simp [insert, get?, h]
  | cons pair rest ih =>
    obtain ⟨k, v⟩ := pair
    by_cases hk : k = key
    · subst hk
      simp [insert, get?, h]
    · simp [insert, get?, hk, ih]

theorem mem_keys_insert {d : Dict κ α} {key other : κ} {value : α}
    (h : other ∈ (d.insert key value).keys) : other ∈ d.keys ∨ other = key := by
  induction d with
  | nil => exact Or.inr (List.mem_singleton.mp h)
  | cons pair rest ih =>
    obtain ⟨k, v⟩ := pair
    rw [insert] at h
    simp only [keys, List.map_cons, List.mem_cons] at h ih ⊢
    split at h
    · rcases List.mem_cons.mp h with same | old
      · exact Or.inr same
      · exact Or.inl (Or.inr old)
    · rcases List.mem_cons.mp h with first | later
      · exact Or.inl (Or.inl first)
      · exact (ih later).imp_left Or.inr

theorem get?_erase_self (d : Dict κ α) (key : κ) : (d.erase key).get? key = none := by
  induction d with
  | nil => rfl
  | cons pair rest ih =>
    obtain ⟨k, v⟩ := pair
    by_cases h : k = key
    · simpa [erase, h] using ih
    · simpa [erase, h, get?] using ih

theorem get?_erase_of_ne (d : Dict κ α) {key other : κ} (h : key ≠ other) :
    (d.erase key).get? other = d.get? other := by
  induction d with
  | nil => rfl
  | cons pair rest ih =>
    obtain ⟨k, v⟩ := pair
    by_cases hk : k = key
    · subst hk
      simpa [erase, get?, h] using ih
    · have kept : erase ((k, v) :: rest) key = (k, v) :: erase rest key := by
        simp [erase, hk]
      rw [kept, get?, get?, ih]

theorem get?_modify (d : Dict κ α) (key other : κ) (f : α → α) :
    (d.modify key f).get? other = if other = key then (d.get? other).map f else d.get? other := by
  induction d with
  | nil => simp [modify, get?]
  | cons pair rest ih =>
    obtain ⟨k, v⟩ := pair
    have step : modify ((k, v) :: rest) key f
        = (if k = key then (k, f v) else (k, v)) :: modify rest key f := rfl
    rw [step]
    by_cases hk : k = key
    · subst hk
      by_cases ho : k = other
      · subst ho
        simp [get?]
      · rw [if_pos rfl, get?, if_neg ho, ih, get?, if_neg ho]
    · rw [if_neg hk, get?, get?, ih]
      by_cases ho : k = other
      · subst ho
        simp [hk]
      · simp [ho]

theorem mem_keys_of_get? {d : Dict κ α} {key : κ} {value : α} (h : d.get? key = some value) :
    key ∈ d.keys := by
  induction d with
  | nil => simp at h
  | cons pair rest ih =>
    obtain ⟨k, v⟩ := pair
    by_cases hk : k = key
    · simp [keys, hk]
    · have := ih (by simpa [get?, hk] using h)
      simp only [keys, List.map_cons, List.mem_cons]
      exact Or.inr this

theorem length_erase_lt {d : Dict κ α} {key : κ} {value : α} (h : d.get? key = some value) :
    (d.erase key).length < d.length := by
  have found := mem_keys_of_get? h
  obtain ⟨pair, isMember, rfl⟩ := List.mem_map.1 found
  exact List.length_filter_lt_length_iff_exists.2 ⟨pair, isMember, by simp⟩

end Dict

end Waymark
