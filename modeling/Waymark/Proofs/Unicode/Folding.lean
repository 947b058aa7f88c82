/-
Simple case folding as an equivalence.

The runs of the table are in order and no code that is moved is led to, so a code is moved
once and for all (`foldCode_foldCode`), and every character that is moved or led to is valid
(`isValidChar_foldCode`).  What the table lists for a character and for a set is then just
what folding says:

* `mem_caseClass_iff` — a class holds the characters with the same fold;
* `eq_of_caseFold_eq` — those before the letters have no other character with the same fold;
* `foldClosure_has_iff` — the closure of a set holds the characters that have the same fold
  as one of its members.

Comparing all runs with each other would take long; the codes that are moved and those that are led
to are compared as the bits of two numbers (`bits`).
-/
import Mathlib.Data.List.Basic
import Mathlib.Data.Nat.Bitwise
import Waymark.Regex.Expr

namespace Waymark.Unicode

variable {c d : Char} {m n : Nat} {r : FoldRun} {runs : List FoldRun}

/-! ### Runs -/

namespace FoldRun

/-- The codes of a run. -/
def codes (r : FoldRun) : List Nat :=
  (List.range ((r.last - r.first) / r.step + 1)).map fun k => r.first + k * r.step

/-- Where a run sends a code of it. -/
def move (r : FoldRun) (n : Nat) : Nat := ((n : Int) + r.shift).toNat

theorem covers_iff : r.covers n = true ↔
    r.first ≤ n ∧ n ≤ r.last ∧ (n - r.first) % r.step = 0 := by
  simp only [covers, Bool.and_eq_true, decide_eq_true_eq, beq_iff_eq, and_assoc]

theorem image?_eq_some : r.image? n = some m ↔ r.covers n = true ∧ r.move n = m := by
  rw [image?, Option.ite_none_right_eq_some, Option.some_inj]
  rfl

theorem image?_eq_none : r.image? n = none ↔ r.covers n = false := by
  rw [image?]
  cases r.covers n <;> simp

theorem preimage?_eq_some : r.preimage? n = some m ↔
    ((n : Int) - r.shift).toNat = m ∧ r.image? m = some n := by
  rw [preimage?]
  simp only [Option.ite_none_right_eq_some, Option.some_inj]
  constructor
  · rintro ⟨isImage, rfl⟩
    exact ⟨rfl, isImage⟩
  · rintro ⟨rfl, isImage⟩
    exact ⟨isImage, rfl⟩

/-- The run goes from a first code to a last one, and neither its codes nor those that it leads to
are surrogates or above the last code point. -/
structure Proper (r : FoldRun) : Prop where
  first_le : r.first ≤ r.last
  step_pos : 0 < r.step
  valid : r.last < 0xD800 ∨ 0xDFFF < r.first ∧ r.last < 0x110000
  shifted : 0 ≤ r.first + r.shift
  validShifted : r.last + r.shift < 0xD800 ∨
    0xDFFF < r.first + r.shift ∧ r.last + r.shift < 0x110000

theorem Proper.mem_codes_iff (proper : r.Proper) : n ∈ r.codes ↔ r.covers n = true := by
  rw [codes, List.mem_map, covers_iff]
  constructor
  · rintro ⟨k, bound, rfl⟩
    have within : k * r.step ≤ r.last - r.first :=
      (Nat.le_div_iff_mul_le proper.step_pos).mp (Nat.le_of_lt_succ (List.mem_range.mp bound))
    have := proper.first_le
    refine ⟨by omega, by omega, ?_⟩
    rw [Nat.add_sub_cancel_left, Nat.mul_mod_left]
  · rintro ⟨low, high, divides⟩
    have exact_quotient := Nat.div_mul_cancel (Nat.dvd_of_mod_eq_zero divides)
    refine ⟨(n - r.first) / r.step, List.mem_range.mpr (Nat.lt_succ_of_le ?_), by omega⟩
    exact Nat.div_le_div_right (by omega)

theorem Proper.isValidChar (proper : r.Proper) (covered : r.covers n = true) : n.isValidChar := by
  obtain ⟨low, high, -⟩ := covers_iff.mp covered
  have := proper.valid
  unfold Nat.isValidChar
  omega

theorem Proper.isValidChar_move (proper : r.Proper) (covered : r.covers n = true) :
    (r.move n).isValidChar := by
  obtain ⟨low, high, -⟩ := covers_iff.mp covered
  have := proper.shifted
  have := proper.validShifted
  unfold Nat.isValidChar move
  omega

/-- A code is got back from where it is sent. -/
theorem Proper.move_sub (proper : r.Proper) (covered : r.covers n = true) :
    ((r.move n : Int) - r.shift).toNat = n := by
  obtain ⟨low, high, -⟩ := covers_iff.mp covered
  have := proper.shifted
  unfold move
  omega

end FoldRun

/-! ### The table -/

theorem proper_of_mem_foldRuns : ∀ r ∈ foldRuns, r.Proper := by
  have all : ∀ r ∈ foldRuns, r.first ≤ r.last ∧ 0 < r.step ∧
      (r.last < 0xD800 ∨ 0xDFFF < r.first ∧ r.last < 0x110000) ∧ 0 ≤ r.first + r.shift ∧
      (r.last + r.shift < 0xD800 ∨
        0xDFFF < r.first + r.shift ∧ r.last + r.shift < 0x110000) := by decide +kernel
  intro r member
  obtain ⟨le, pos, valid, shifted, validShifted⟩ := all r member
  exact ⟨le, pos, valid, shifted, validShifted⟩

/-- Each run ends before the next one begins. -/
def inOrder : List FoldRun → Bool
  | r :: s :: rest => Nat.blt r.last s.first && inOrder (s :: rest)
  | _ => true

theorem inOrder_foldRuns : inOrder foldRuns = true := by decide +kernel

theorem lt_of_inOrder (proper : ∀ s ∈ r :: runs, s.Proper) (order : inOrder (r :: runs) = true) :
    ∀ s ∈ runs, r.last < s.first := by
  induction runs generalizing r with
  | nil => exact fun s member => absurd member List.not_mem_nil
  | cons next runs ih =>
    rw [inOrder, Bool.and_eq_true, Nat.blt_eq] at order
    intro s member
    rcases List.mem_cons.mp member with rfl | later
    · exact order.1
    · have after := ih (fun s inRuns => proper s (List.mem_cons_of_mem _ inRuns)) order.2 s later
      have := (proper next (List.mem_cons_of_mem _ List.mem_cons_self)).first_le
      omega

/-- Only one run sends a code anywhere. -/
theorem findSome?_image? (proper : ∀ s ∈ runs, s.Proper) (order : inOrder runs = true)
    (member : r ∈ runs) (covered : r.covers n = true) :
    runs.findSome? (·.image? n) = some (r.move n) := by
  induction runs with
  | nil => exact absurd member List.not_mem_nil
  | cons s runs ih =>
    rw [List.findSome?_cons]
    rcases List.mem_cons.mp member with rfl | later
    · rw [FoldRun.image?_eq_some.mpr ⟨covered, rfl⟩]
    · have above := lt_of_inOrder proper order r later
      have outside : s.covers n = false := by
        rw [Bool.eq_false_iff, ne_eq, FoldRun.covers_iff]
        have := (FoldRun.covers_iff.mp covered).1
        omega
      rw [FoldRun.image?_eq_none.mpr outside]
      refine ih (fun s inRuns => proper s (List.mem_cons_of_mem _ inRuns)) ?_ later
      cases runs with
      | nil => rfl
      | cons next runs => exact (Bool.and_eq_true _ _ ▸ order).2

/-- The number whose bits are the members of a list. -/
def bits (ns : List Nat) : Nat := ns.foldl (fun acc n => acc ||| 1 <<< n) 0

theorem testBit_bits {ns : List Nat} : (bits ns).testBit n = true ↔ n ∈ ns := by
  have grown : ∀ (ns : List Nat) (acc : Nat),
      (ns.foldl (fun acc n => acc ||| 1 <<< n) acc).testBit n = true ↔
        acc.testBit n = true ∨ n ∈ ns := by
    intro ns
    induction ns with
    | nil => simp
    | cons k ns ih =>
      intro acc
      rw [List.foldl_cons, ih, Nat.testBit_or, Nat.one_shiftLeft, Nat.testBit_two_pow,
        Bool.or_eq_true, decide_eq_true_eq, or_assoc, List.mem_cons]
      exact or_congr_right (or_congr_left eq_comm)
  rw [bits, grown, Nat.zero_testBit]
  simp

/-- No code that a run leads to is moved by a run. -/
theorem covers_move_eq_false {s : FoldRun} (member : r ∈ foldRuns) (covered : r.covers n = true)
    (member' : s ∈ foldRuns) : s.covers (r.move n) = false := by
  have apart : bits (foldRuns.flatMap FoldRun.codes) &&&
      bits (foldRuns.flatMap fun r => r.codes.map r.move) = 0 := by decide +kernel
  have reached : r.move n ∈ foldRuns.flatMap fun r => r.codes.map r.move :=
    List.mem_flatMap.mpr ⟨r, member, List.mem_map_of_mem
      ((proper_of_mem_foldRuns r member).mem_codes_iff.mpr covered)⟩
  rw [Bool.eq_false_iff]
  intro moved
  have source : r.move n ∈ foldRuns.flatMap FoldRun.codes :=
    List.mem_flatMap.mpr ⟨s, member', (proper_of_mem_foldRuns s member').mem_codes_iff.mpr moved⟩
  have bit := congrArg (·.testBit (r.move n)) apart
  simp only [Nat.testBit_and, testBit_bits.mpr source, testBit_bits.mpr reached,
    Nat.zero_testBit] at bit
  exact absurd bit (by simp)

/-! ### Folding -/

theorem foldCode_of_covers (member : r ∈ foldRuns) (covered : r.covers n = true) :
    foldCode n = r.move n := by
  rw [foldCode, findSome?_image? proper_of_mem_foldRuns inOrder_foldRuns member covered,
    Option.getD_some]

theorem foldCode_of_forall (fixed : ∀ r ∈ foldRuns, r.covers n = false) : foldCode n = n := by
  have nothing : foldRuns.findSome? (·.image? n) = none :=
    List.findSome?_eq_none_iff.mpr fun r member => FoldRun.image?_eq_none.mpr (fixed r member)
  rw [foldCode, nothing, Option.getD_none]

/-- A run moves the code. -/
def Moved (n : Nat) : Prop := ∃ r ∈ foldRuns, r.covers n = true

/-- A code is its own fold, unless a run moves it. -/
theorem foldCode_of_not_moved (fixed : ¬ Moved n) : foldCode n = n := by
  refine foldCode_of_forall fun r member => ?_
  rw [Bool.eq_false_iff]
  exact fun covered => fixed ⟨r, member, covered⟩

theorem foldCode_foldCode (n : Nat) : foldCode (foldCode n) = foldCode n := by
  by_cases moved : Moved n
  · obtain ⟨r, member, covered⟩ := moved
    rw [foldCode_of_covers member covered]
    exact foldCode_of_forall fun s member' => covers_move_eq_false member covered member'
  · rw [foldCode_of_not_moved moved, foldCode_of_not_moved moved]

theorem isValidChar_foldCode (valid : n.isValidChar) : (foldCode n).isValidChar := by
  by_cases moved : Moved n
  · obtain ⟨r, member, covered⟩ := moved
    rw [foldCode_of_covers member covered]
    exact (proper_of_mem_foldRuns r member).isValidChar_move covered
  · rwa [foldCode_of_not_moved moved]

theorem toNat_ofNat (valid : n.isValidChar) : (Char.ofNat n).toNat = n := by
  rw [Char.ofNat, dif_pos valid]
  rfl

theorem toNat_caseFold (c : Char) : (caseFold c).toNat = foldCode c.toNat :=
  toNat_ofNat (isValidChar_foldCode c.valid)

theorem caseFold_eq_iff : caseFold c = caseFold d ↔ foldCode c.toNat = foldCode d.toNat := by
  rw [← Char.toNat_inj, toNat_caseFold, toNat_caseFold]

/-- A class holds the characters with the same fold. -/
theorem mem_caseClass_iff : d ∈ caseClass c ↔ caseFold d = caseFold c := by
  rw [caseClass, List.mem_map, caseFold_eq_iff]
  constructor
  · rintro ⟨n, listed, rfl⟩
    rcases List.mem_cons.mp listed with rfl | listed
    · have valid : (foldCode c.toNat).isValidChar := isValidChar_foldCode c.valid
      rw [toNat_ofNat valid, foldCode_foldCode]
    · obtain ⟨r, member, isSource⟩ := List.mem_filterMap.mp listed
      obtain ⟨covered, isImage⟩ := FoldRun.image?_eq_some.mp (FoldRun.preimage?_eq_some.mp isSource).2
      rw [toNat_ofNat ((proper_of_mem_foldRuns r member).isValidChar covered),
        foldCode_of_covers member covered, isImage]
  · intro same
    refine ⟨d.toNat, ?_, Char.ofNat_toNat d⟩
    rw [← same]
    by_cases moved : Moved d.toNat
    · obtain ⟨r, member, covered⟩ := moved
      refine List.mem_cons_of_mem _ (List.mem_filterMap.mpr ⟨r, member, ?_⟩)
      rw [foldCode_of_covers member covered]
      exact FoldRun.preimage?_eq_some.mpr ⟨(proper_of_mem_foldRuns r member).move_sub covered,
        FoldRun.image?_eq_some.mpr ⟨covered, rfl⟩⟩
    · rw [foldCode_of_not_moved moved]
      exact List.mem_cons_self

/-! ### Below the letters -/

/-- No run of the table starts or leads below the letters. -/
theorem le_of_mem_foldRuns : ∀ r ∈ foldRuns, 'A'.toNat ≤ r.first ∧
    ('A'.toNat : Int) ≤ r.first + r.shift := by decide +kernel

theorem foldCode_of_lt (low : n < 'A'.toNat) : foldCode n = n := by
  refine foldCode_of_not_moved ?_
  rintro ⟨r, member, covered⟩
  have above := (le_of_mem_foldRuns r member).1
  have := (FoldRun.covers_iff.mp covered).1
  omega

theorem le_foldCode (above : 'A'.toNat ≤ n) : 'A'.toNat ≤ foldCode n := by
  by_cases moved : Moved n
  · obtain ⟨r, member, covered⟩ := moved
    have := (le_of_mem_foldRuns r member).2
    have := (FoldRun.covers_iff.mp covered).1
    rw [foldCode_of_covers member covered, FoldRun.move]
    omega
  · rwa [foldCode_of_not_moved moved]

/-- What comes before the letters is the fold of nothing else. -/
theorem eq_of_caseFold_eq (low : d.toNat < 'A'.toNat) (same : caseFold c = caseFold d) : c = d := by
  rw [caseFold_eq_iff, foldCode_of_lt low] at same
  by_cases low' : c.toNat < 'A'.toNat
  · rwa [foldCode_of_lt low', Char.toNat_inj] at same
  · have above := le_foldCode (Nat.not_lt.mp low')
    omega

end Waymark.Unicode

namespace Waymark.Regex

open Unicode

variable {c d : Char} {s : CodeSet}

theorem ofChars_has (cs : List Char) : (CodeSet.ofChars cs).has d = true ↔ d ∈ cs := by
  simp only [CodeSet.has, CodeSet.contains, CodeSet.ofChars, CodeSet.covers, List.any_map,
    List.any_eq_true, Function.comp_apply, Bool.and_eq_true, decide_eq_true_eq,
    ← Nat.le_antisymm_iff, Char.toNat_inj, exists_eq_right]

/-- The closure of a set, for which each run is asked about its own codes only. -/
theorem foldClosure_eq (s : CodeSet) : foldClosure s = s.union (CodeSet.ofChars
    ((foldRuns.flatMap fun r => r.codes.filter fun n => s.contains n || s.contains (r.move n)).flatMap
      fun n => caseClass (Char.ofNat n))) := by
  have met : (foldRuns.flatMap FoldRun.codes).filter
      (fun n => s.contains n || s.contains (foldCode n)) =
      foldRuns.flatMap fun r => r.codes.filter fun n => s.contains n || s.contains (r.move n) := by
    rw [List.filter_flatMap]
    refine List.flatMap_congr fun r member => List.filter_congr fun n inRun => ?_
    rw [foldCode_of_covers member ((proper_of_mem_foldRuns r member).mem_codes_iff.mp inRun)]
  rw [← met]
  rfl

/-- What is added to a set are the classes of characters that are moved and that belong to the set or
are sent to a member of it. -/
theorem foldClosure_has_iff_moved : (foldClosure s).has d = true ↔ s.has d = true ∨
    ∃ c : Char, Moved c.toNat ∧ (s.has c = true ∨ s.has (caseFold c) = true) ∧
      caseFold d = caseFold c := by
  show ((s.union _).contains d.toNat) = true ↔ _
  rw [CodeSet.contains_union, Bool.or_eq_true]
  refine or_congr_right ((ofChars_has _).trans ?_)
  rw [List.mem_flatMap]
  constructor
  · rintro ⟨n, met, inClass⟩
    obtain ⟨listed, has⟩ := List.mem_filter.mp met
    obtain ⟨r, member, inRun⟩ := List.mem_flatMap.mp listed
    have proper := proper_of_mem_foldRuns r member
    have covered := proper.mem_codes_iff.mp inRun
    have same := toNat_ofNat (proper.isValidChar covered)
    refine ⟨Char.ofNat n, ⟨r, member, same.symm ▸ covered⟩, ?_, mem_caseClass_iff.mp inClass⟩
    rw [CodeSet.has, CodeSet.has, toNat_caseFold, same]
    exact Bool.or_eq_true_iff.mp has
  · rintro ⟨c, ⟨r, member, covered⟩, has, same⟩
    refine ⟨c.toNat, List.mem_filter.mpr ⟨List.mem_flatMap.mpr ⟨r, member, ?_⟩, ?_⟩, ?_⟩
    · exact (proper_of_mem_foldRuns r member).mem_codes_iff.mpr covered
    · rw [CodeSet.has, CodeSet.has, toNat_caseFold] at has
      exact Bool.or_eq_true_iff.mpr has
    · rw [Char.ofNat_toNat]
      exact mem_caseClass_iff.mpr same

/-- The closure of a set holds the characters that have the same fold as one of its members. -/
theorem foldClosure_has_iff :
    (foldClosure s).has d = true ↔ ∃ c, s.has c = true ∧ caseFold c = caseFold d := by
  rw [foldClosure_has_iff_moved]
  constructor
  · rintro (itself | ⟨c, -, has | has, same⟩)
    · exact ⟨d, itself, rfl⟩
    · exact ⟨c, has, same.symm⟩
    · refine ⟨caseFold c, has, ?_⟩
      rw [same, caseFold_eq_iff, toNat_caseFold, foldCode_foldCode]
  · rintro ⟨c, has, same⟩
    by_cases moved : Moved c.toNat
    · exact Or.inr ⟨c, moved, Or.inl has, same.symm⟩
    · have fixed : caseFold c = c := by
        rw [← Char.toNat_inj, toNat_caseFold, foldCode_of_not_moved moved]
      rw [fixed] at same
      by_cases moved' : Moved d.toNat
      · exact Or.inr ⟨d, moved', Or.inr (same ▸ has), rfl⟩
      · -- neither is moved, so the two are the same character
        have fixed' : caseFold d = d := by
          rw [← Char.toNat_inj, toNat_caseFold, foldCode_of_not_moved moved']
        rw [fixed'] at same
        exact Or.inl (same ▸ has)

end Waymark.Regex
