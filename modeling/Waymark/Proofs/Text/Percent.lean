/-
Encoded texts are read back.

* `Utf8.decode_encode` — the octets of a text are read as the text;
* `Percent.decode_encode` — and so is its percent-encoded form, which is made of letters,
  digits, the four marks and percent signs (`Percent.mem_encode`).
-/
import Waymark.Text.Percent

namespace Waymark

namespace Utf8

@[simp] theorem decode_nil : decode [] = some [] := by rw [decode]

theorem decode_of_head? {first : Nat} {rest : List Nat} {c : Char} {taken : Nat}
    (h : head? first rest = some (c, taken)) :
    decode (first :: rest) = (decode (rest.drop taken)).map (c :: ·) := by
  rw [decode, h]
  simp only [Option.bind_eq_bind, Option.bind_some]
  cases decode (rest.drop taken) <;> rfl

theorem tail?_add {n : Nat} (low : n < 64) : tail? (0x80 + n) = some n := by
  rw [tail?, if_pos (by omega), Nat.add_sub_cancel_left]

/-- The code of a character is the shortest form that it needs. -/
theorem shortest?_toNat {c : Char} {least : Nat} (long : least ≤ c.toNat) :
    shortest? least c.toNat = some c := by
  rw [shortest?, if_pos ⟨long, c.valid⟩, Char.ofNat_toNat]

theorem toNat_lt (c : Char) : c.toNat < 0x110000 := by
  rcases c.valid with low | ⟨-, high⟩
  · exact Nat.lt_trans low (by decide)
  · exact high

section

variable {c : Char} {first x y z : Nat} {rest : List Nat}

theorem head?_one (one : c.toNat < 0x80) : head? c.toNat rest = some (c, 0) := by
  rw [head?, if_pos one, Char.ofNat_toNat]

theorem bind_tail? {α : Type} (low : x < 64) (f : Nat → Option α) :
    ((some (0x80 + x)).bind fun octet => (tail? octet).bind f) = f x := by
  rw [Option.bind_some, tail?_add low, Option.bind_some]

theorem head?_two (high : 0xC0 ≤ first) (low : first < 0xE0) (lowX : x < 64)
    (isCode : (first - 0xC0) * 64 + x = c.toNat) (long : 0x80 ≤ c.toNat) :
    head? first ((0x80 + x) :: rest) = some (c, 1) := by
  rw [head?, if_neg (by omega), if_neg (by omega), if_pos low]
  simp only [List.getElem?_cons_zero, Option.bind_eq_bind]
  rw [bind_tail? lowX, isCode, shortest?_toNat long, Option.bind_some]

theorem head?_three (high : 0xE0 ≤ first) (low : first < 0xF0) (lowX : x < 64) (lowY : y < 64)
    (isCode : (first - 0xE0) * 4096 + x * 64 + y = c.toNat) (long : 0x800 ≤ c.toNat) :
    head? first ((0x80 + x) :: (0x80 + y) :: rest) = some (c, 2) := by
  rw [head?, if_neg (by omega), if_neg (by omega), if_neg (by omega), if_pos low]
  simp only [List.getElem?_cons_zero, List.getElem?_cons_succ, Option.bind_eq_bind]
  rw [bind_tail? lowX, bind_tail? lowY, isCode, shortest?_toNat long, Option.bind_some]

theorem head?_four (high : 0xF0 ≤ first) (low : first < 0xF8) (lowX : x < 64) (lowY : y < 64)
    (lowZ : z < 64) (isCode : (first - 0xF0) * 262144 + x * 4096 + y * 64 + z = c.toNat)
    (long : 0x10000 ≤ c.toNat) :
    head? first ((0x80 + x) :: (0x80 + y) :: (0x80 + z) :: rest) = some (c, 3) := by
  rw [head?, if_neg (by omega), if_neg (by omega), if_neg (by omega), if_neg (by omega), if_pos low]
  simp only [List.getElem?_cons_zero, List.getElem?_cons_succ, Option.bind_eq_bind]
  rw [bind_tail? lowX, bind_tail? lowY, bind_tail? lowZ, isCode, shortest?_toNat long,
    Option.bind_some]

end

/-- The octets of a character are read as the character, whatever follows them. -/
theorem decode_ofChar_append (c : Char) (rest : List Nat) :
    decode (ofChar c ++ rest) = (decode rest).map (c :: ·) := by
  have bound := toNat_lt c
  -- the bits that each octet takes over are fewer than 64
  have bits : ∀ n, n % 64 < 64 := fun n => Nat.mod_lt n (by decide)
  rw [ofChar, octets]
  split
  · rename_i one
    exact decode_of_head? (head?_one one)
  split
  · exact decode_of_head? (head?_two (by omega) (by omega) (bits _) (by omega) (by omega))
  split
  · exact decode_of_head?
      (head?_three (by omega) (by omega) (bits _) (bits _) (by omega) (by omega))
  · exact decode_of_head?
      (head?_four (by omega) (by omega) (bits _) (bits _) (bits _) (by omega) (by omega))

theorem decode_encode (cs : List Char) : decode (encode cs) = some cs := by
  induction cs with
  | nil => exact decode_nil
  | cons c cs ih =>
    show decode (ofChar c ++ encode cs) = _
    rw [decode_ofChar_append, ih, Option.map_some]

theorem lt_of_mem_ofChar {c : Char} {octet : Nat} (member : octet ∈ ofChar c) : octet < 256 := by
  have bound := toNat_lt c
  rw [ofChar, octets] at member
  split at member
  · simp at member; omega
  split at member
  · simp at member; omega
  split at member
  · simp at member; omega
  · simp at member; omega

end Utf8

namespace Percent

theorem hexValue?_hexDigit : ∀ n < 16, Digit.hexValue? (hexDigit n) = some n := by decide

/-- The two digits of an octet write the octet. -/
theorem octet?_hexDigit {octet : Nat} (low : octet < 256) :
    octet? (hexDigit (octet / 16)) (hexDigit (octet % 16)) = some octet := by
  rw [octet?, hexValue?_hexDigit _ (by omega), hexValue?_hexDigit _ (by omega)]
  show some (octet / 16 * 16 + octet % 16) = _
  congr 1
  omega

theorem octets_encodeOctet_append {octet : Nat} (low : octet < 256) (rest : List Char) :
    octets (encodeOctet octet ++ rest) = octet :: octets rest := by
  show octets ('%' :: hexDigit (octet / 16) :: hexDigit (octet % 16) :: rest) = _
  rw [octets, octet?_hexDigit low]

theorem octets_encodeOctets_append {bytes : List Nat} (low : ∀ octet ∈ bytes, octet < 256)
    (rest : List Char) : octets (bytes.flatMap encodeOctet ++ rest) = bytes ++ octets rest := by
  induction bytes with
  | nil => rfl
  | cons octet bytes ih =>
    rw [List.flatMap_cons, List.append_assoc,
      octets_encodeOctet_append (low octet List.mem_cons_self),
      ih fun o member => low o (List.mem_cons_of_mem _ member), List.cons_append]

theorem octets_cons_of_ne {c : Char} (h : c ≠ '%') (rest : List Char) :
    octets (c :: rest) = Utf8.ofChar c ++ octets rest := by
  rw [octets]
  rintro _ _ _ rfl
  exact absurd rfl h

theorem octets_encode (cs : List Char) : octets (encode cs) = Utf8.encode cs := by
  induction cs with
  | nil => rfl
  | cons c cs ih =>
    show octets (encodeChar c ++ encode cs) = Utf8.ofChar c ++ Utf8.encode cs
    rw [encodeChar]
    split
    · rename_i plain
      have noSign : c ≠ '%' := by
        rintro rfl
        exact absurd plain (by decide)
      rw [List.singleton_append, octets_cons_of_ne noSign, ih]
    · rw [octets_encodeOctets_append fun _ => Utf8.lt_of_mem_ofChar, ih]

/-- An encoded text is read as the text. -/
theorem decode?_encode (cs : List Char) : decode? (encode cs) = some cs := by
  rw [decode?, octets_encode, Utf8.decode_encode]

theorem decode_encode (cs : List Char) : decode (encode cs) = cs := by
  rw [decode, decode?_encode, Option.getD_some]

/-- Every character writes an octet at least. -/
theorem octets_ne_nil (c : Char) (cs : List Char) : octets (c :: cs) ≠ [] := by
  have some : Utf8.ofChar c ≠ [] := by
    rw [Utf8.ofChar, Utf8.octets]
    split
    · simp
    · split
      · simp
      · split <;> simp
  unfold octets
  split
  · rename_i same
    exact absurd same (by simp)
  · split <;> simp
  · rename_i same
    rw [← (List.cons.inj same).1]
    exact List.append_ne_nil_of_left_ne_nil some _

/-! ### The characters of encoded texts -/

theorem isPlain_hexDigit : ∀ n < 16, isPlain (hexDigit n) = true := by decide

/-- An encoded text holds plain characters and percent signs. -/
theorem mem_encode {c : Char} {cs : List Char} (member : c ∈ encode cs) :
    isPlain c = true ∨ c = '%' := by
  obtain ⟨d, -, member⟩ := List.mem_flatMap.mp member
  rw [encodeChar] at member
  split at member
  · rename_i plain
    exact Or.inl (List.mem_singleton.mp member ▸ plain)
  · obtain ⟨octet, inChar, member⟩ := List.mem_flatMap.mp member
    have low := Utf8.lt_of_mem_ofChar inChar
    rcases List.mem_cons.mp member with rfl | member
    · exact Or.inr rfl
    · rcases List.mem_cons.mp member with rfl | member
      · exact Or.inl (isPlain_hexDigit _ (by omega))
      · rw [List.mem_singleton.mp member]
        exact Or.inl (isPlain_hexDigit _ (by omega))

theorem not_mem_encode {c : Char} (h : isPlain c = false ∧ c ≠ '%') (cs : List Char) :
    c ∉ encode cs := by
  intro member
  rcases mem_encode member with plain | isSign
  · rw [h.1] at plain
    exact absurd plain (by simp)
  · exact h.2 isSign

theorem encode_ne_nil {cs : List Char} (h : cs ≠ []) : encode cs ≠ [] := by
  intro empty
  have same := decode_encode cs
  rw [empty] at same
  exact h (same.symm.trans (by cbv))

/-! ### The length of decoded texts -/

theorem decode_ne_nil {cs : List Char} (h : cs ≠ []) : decode cs ≠ [] := by
  rw [decode]
  cases isText : decode? cs with
  | none => exact h
  | some text =>
    obtain ⟨c, rest, rfl⟩ := List.exists_cons_of_ne_nil h
    obtain ⟨octet, others, isOctets⟩ := List.exists_cons_of_ne_nil (octets_ne_nil c rest)
    rw [decode?, isOctets, Utf8.decode] at isText
    obtain ⟨⟨first, taken⟩, -, isText⟩ := Option.bind_eq_some_iff.mp isText
    obtain ⟨later, -, isText⟩ := Option.bind_eq_some_iff.mp isText
    rw [Option.getD_some, ← Option.some.inj isText]
    exact List.cons_ne_nil _ _

end Percent
end Waymark
