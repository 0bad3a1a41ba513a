import ObsFuse.Fs.LossyNames

/-! # Names that are made from text

The UTF-8 bytes of a text decode to that text. -/

namespace ObsFuse

theorem ofNat_val {c : Char} {n : ℕ} (h : n = c.val.toNat) : Char.ofNat n = c := by
  rw [h]
  exact Char.ofNat_toNat c

theorem toNat_ofNat_byte {n : ℕ} (h : n < 256) : (UInt8.ofNat n).toNat = n := by
  rw [UInt8.toNat_ofNat']
  exact Nat.mod_eq_of_lt h

/-! ### Well-formed pieces -/

theorem firstPiece_one {b0 : UInt8} (h0 : b0.toNat < 128) (rest : OsStr) :
    firstPiece b0 rest = (.decoded (Char.ofNat b0.toNat), rest) := by
  have hone : b0 < 0x80 := UInt8.lt_iff_toNat_lt.mpr h0
  simp only [firstPiece, if_pos hone]

theorem firstPiece_two {b0 b1 : UInt8} (h0 : 194 ≤ b0.toNat ∧ b0.toNat ≤ 223)
    (h1 : isContinuation b1 = true) (rest : OsStr) :
    firstPiece b0 (b1 :: rest) = (.decoded (charOf (b0.toNat % 32) [b1]), rest) := by
  have hone : ¬b0 < 0x80 := by
    rw [UInt8.lt_iff_toNat_lt]
    show ¬b0.toNat < 128
    omega
  have htwo : 0xC2 ≤ b0 ∧ b0 ≤ 0xDF := by
    rw [UInt8.le_iff_toNat_le, UInt8.le_iff_toNat_le]
    exact h0
  simp only [firstPiece, if_neg hone, if_pos htwo, if_pos h1]

theorem firstPiece_three {b0 b1 b2 : UInt8} (h0 : 224 ≤ b0.toNat ∧ b0.toNat ≤ 239)
    (h1 : secondOfThree b0 b1 = true) (h2 : isContinuation b2 = true) (rest : OsStr) :
    firstPiece b0 (b1 :: b2 :: rest) =
      (.decoded (charOf (b0.toNat % 16) [b1, b2]), rest) := by
  have hone : ¬b0 < 0x80 := by
    rw [UInt8.lt_iff_toNat_lt]
    show ¬b0.toNat < 128
    omega
  have htwo : ¬(0xC2 ≤ b0 ∧ b0 ≤ 0xDF) := by
    rw [UInt8.le_iff_toNat_le, UInt8.le_iff_toNat_le]
    show ¬(194 ≤ b0.toNat ∧ b0.toNat ≤ 223)
    omega
  have hthree : 0xE0 ≤ b0 ∧ b0 ≤ 0xEF := by
    rw [UInt8.le_iff_toNat_le, UInt8.le_iff_toNat_le]
    exact h0
  simp only [firstPiece, if_neg hone, if_neg htwo, if_pos hthree, if_pos h1, if_pos h2]

theorem firstPiece_four {b0 b1 b2 b3 : UInt8} (h0 : 240 ≤ b0.toNat ∧ b0.toNat ≤ 244)
    (h1 : secondOfFour b0 b1 = true) (h2 : isContinuation b2 = true)
    (h3 : isContinuation b3 = true) (rest : OsStr) :
    firstPiece b0 (b1 :: b2 :: b3 :: rest) =
      (.decoded (charOf (b0.toNat % 8) [b1, b2, b3]), rest) := by
  have hone : ¬b0 < 0x80 := by
    rw [UInt8.lt_iff_toNat_lt]
    show ¬b0.toNat < 128
    omega
  have htwo : ¬(0xC2 ≤ b0 ∧ b0 ≤ 0xDF) := by
    rw [UInt8.le_iff_toNat_le, UInt8.le_iff_toNat_le]
    show ¬(194 ≤ b0.toNat ∧ b0.toNat ≤ 223)
    omega
  have hthree : ¬(0xE0 ≤ b0 ∧ b0 ≤ 0xEF) := by
    rw [UInt8.le_iff_toNat_le, UInt8.le_iff_toNat_le]
    show ¬(224 ≤ b0.toNat ∧ b0.toNat ≤ 239)
    omega
  have hfour : 0xF0 ≤ b0 ∧ b0 ≤ 0xF4 := by
    rw [UInt8.le_iff_toNat_le, UInt8.le_iff_toNat_le]
    exact h0
  simp only [firstPiece, if_neg hone, if_neg htwo, if_neg hthree, if_pos hfour, if_pos h1,
    if_pos h2, if_pos h3]

/-! ### Encoded characters -/

/-- The last bytes of an encoding carry six bits each. -/
theorem toNat_continuation (n : ℕ) : (UInt8.ofNat (n % 64 + 0x80)).toNat = n % 64 + 128 :=
  toNat_ofNat_byte (by omega)

theorem isContinuation_ofNat (n : ℕ) : isContinuation (UInt8.ofNat (n % 64 + 0x80)) = true := by
  rw [isContinuation_iff, toNat_continuation]
  omega

section encoded
variable {c : Char} {v : ℕ} (hv : c.val.toNat = v) (rest : OsStr)
include hv

theorem toStringLossy_one (hlt : v ≤ 0x7f) :
    toStringLossy (UInt8.ofNat v :: rest) = c :: toStringLossy rest := by
  have h0 : (UInt8.ofNat v).toNat = v := toNat_ofNat_byte (by omega)
  generalize UInt8.ofNat v = b0 at h0
  have hchar : Char.ofNat b0.toNat = c := ofNat_val (h0.trans hv.symm)
  rw [toStringLossy_cons, firstPiece_one (by omega), hchar]
  rfl

theorem toStringLossy_two (hone : ¬v ≤ 0x7f) (htwo : v ≤ 0x7ff) :
    toStringLossy (UInt8.ofNat (v / 64 % 32 + 0xc0) :: UInt8.ofNat (v % 64 + 0x80) :: rest) =
      c :: toStringLossy rest := by
  have h0 : (UInt8.ofNat (v / 64 % 32 + 0xc0)).toNat = v / 64 + 192 := by
    rw [toNat_ofNat_byte (by omega)]
    omega
  have hlast := toNat_continuation v
  have h1 := isContinuation_ofNat v
  generalize UInt8.ofNat (v / 64 % 32 + 0xc0) = b0 at h0
  generalize UInt8.ofNat (v % 64 + 0x80) = b1 at hlast h1
  have hchar : charOf (b0.toNat % 32) [b1] = c := by
    apply ofNat_val
    rw [List.foldl_cons, List.foldl_nil, h0, hlast, hv]
    omega
  rw [toStringLossy_cons, firstPiece_two (by omega) h1, hchar]
  rfl

theorem toStringLossy_three (hchar : v < 0xd800 ∨ 0xdfff < v) (htwo : ¬v ≤ 0x7ff)
    (hthree : v ≤ 0xffff) :
    toStringLossy (UInt8.ofNat (v / 4096 % 16 + 0xe0) :: UInt8.ofNat (v / 64 % 64 + 0x80) ::
      UInt8.ofNat (v % 64 + 0x80) :: rest) = c :: toStringLossy rest := by
  have h0 : (UInt8.ofNat (v / 4096 % 16 + 0xe0)).toNat = v / 4096 + 224 := by
    rw [toNat_ofNat_byte (by omega)]
    omega
  have hmid := toNat_continuation (v / 64)
  have hlast := toNat_continuation v
  have h2 := isContinuation_ofNat v
  generalize UInt8.ofNat (v / 4096 % 16 + 0xe0) = b0 at h0
  generalize UInt8.ofNat (v / 64 % 64 + 0x80) = b1 at hmid
  generalize UInt8.ofNat (v % 64 + 0x80) = b2 at hlast h2
  -- no overlong encoding, no surrogate
  have h1 : secondOfThree b0 b1 = true := by
    rw [secondOfThree_iff]
    omega
  have hdecoded : charOf (b0.toNat % 16) [b1, b2] = c := by
    apply ofNat_val
    rw [List.foldl_cons, List.foldl_cons, List.foldl_nil, h0, hmid, hlast, hv]
    omega
  rw [toStringLossy_cons, firstPiece_three (by omega) h1 h2, hdecoded]
  rfl

theorem toStringLossy_four (hchar : v < 0x110000) (hthree : ¬v ≤ 0xffff) :
    toStringLossy (UInt8.ofNat (v / 262144 % 8 + 0xf0) :: UInt8.ofNat (v / 4096 % 64 + 0x80) ::
      UInt8.ofNat (v / 64 % 64 + 0x80) :: UInt8.ofNat (v % 64 + 0x80) :: rest) =
        c :: toStringLossy rest := by
  have h0 : (UInt8.ofNat (v / 262144 % 8 + 0xf0)).toNat = v / 262144 + 240 := by
    rw [toNat_ofNat_byte (by omega)]
    omega
  have hsecond := toNat_continuation (v / 4096)
  have hthird := toNat_continuation (v / 64)
  have hlast := toNat_continuation v
  have h2 := isContinuation_ofNat (v / 64)
  have h3 := isContinuation_ofNat v
  generalize UInt8.ofNat (v / 262144 % 8 + 0xf0) = b0 at h0
  generalize UInt8.ofNat (v / 4096 % 64 + 0x80) = b1 at hsecond
  generalize UInt8.ofNat (v / 64 % 64 + 0x80) = b2 at hthird h2
  generalize UInt8.ofNat (v % 64 + 0x80) = b3 at hlast h3
  have h1 : secondOfFour b0 b1 = true := by
    rw [secondOfFour_iff]
    omega
  have hdecoded : charOf (b0.toNat % 8) [b1, b2, b3] = c := by
    apply ofNat_val
    rw [List.foldl_cons, List.foldl_cons, List.foldl_cons, List.foldl_nil, h0, hsecond, hthird,
      hlast, hv]
    omega
  rw [toStringLossy_cons, firstPiece_four (by omega) h1 h2 h3, hdecoded]
  rfl

end encoded

/-- The encoding of a character is the first piece of what begins with it. -/
theorem toStringLossy_encode (c : Char) (rest : OsStr) :
    toStringLossy (String.utf8EncodeChar c ++ rest) = c :: toStringLossy rest := by
  have hvalid : c.val.toNat < 0xd800 ∨ 0xdfff < c.val.toNat ∧ c.val.toNat < 0x110000 := c.valid
  simp only [String.utf8EncodeChar]
  generalize hv : c.val.toNat = v at hvalid
  split
  · next hone => exact toStringLossy_one hv rest hone
  split
  · next hone htwo => exact toStringLossy_two hv rest hone htwo
  split
  · next htwo hthree => exact toStringLossy_three hv rest (by omega) htwo hthree
  · next hthree => exact toStringLossy_four hv rest (by omega) hthree

theorem toStringLossy_flatMap_encode (name : List Char) :
    toStringLossy (name.flatMap String.utf8EncodeChar) = name := by
  induction name with
  | nil => rw [List.flatMap_nil, toStringLossy]
  | cons c name ih => rw [List.flatMap_cons, toStringLossy_encode, ih]

end ObsFuse
