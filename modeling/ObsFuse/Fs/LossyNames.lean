import ObsFuse.Fs.Path

/-! # What lossy decoding forgets

A name falls into UTF-8 characters and ill-formed parts, in one way. Decoding keeps the
characters and writes `U+FFFD` for each ill-formed part, so that is what it forgets. -/

namespace ObsFuse

/-- A part of a name: the encoding of a character, or bytes that are not well-formed. -/
inductive Piece where
  | decoded (c : Char)
  | illFormed (bytes : List UInt8)
  deriving DecidableEq, Repr

namespace Piece

def bytes : Piece → List UInt8
  | .decoded c => String.utf8EncodeChar c
  | .illFormed bytes => bytes

def char : Piece → Char
  | .decoded c => c
  | .illFormed _ => replacementChar

def Replaced : Piece → Prop
  | .decoded c => c = replacementChar
  | .illFormed _ => True

/-- The same character, or both written as `U+FFFD`. -/
def Alike (p q : Piece) : Prop := p = q ∨ p.Replaced ∧ q.Replaced

theorem char_of_replaced {p : Piece} (h : p.Replaced) : p.char = replacementChar := by
  cases p with
  | decoded c => exact h
  | illFormed bytes => rfl

theorem char_eq_iff (p q : Piece) : p.char = q.char ↔ p.Alike q := by
  refine ⟨?_, ?_⟩
  · intro h
    cases p with
    | decoded c =>
      cases q with
      | decoded d => exact .inl (congrArg decoded h)
      | illFormed bytes => exact .inr ⟨h, trivial⟩
    | illFormed bytes =>
      cases q with
      | decoded d => exact .inr ⟨trivial, h.symm⟩
      | illFormed bytes' => exact .inr ⟨trivial, trivial⟩
  · rintro (rfl | ⟨hp, hq⟩)
    · rfl
    · rw [char_of_replaced hp, char_of_replaced hq]

theorem bytes_of_slash {p : Piece} (h : p.char = '/') : p.bytes = ['/'.toUInt8] := by
  cases p with
  | decoded c =>
    cases h
    decide
  | illFormed bytes => exact absurd (show replacementChar = '/' from h) (by decide)

end Piece

/-- The first piece of a name, and the rest of the name. -/
def firstPiece (b0 : UInt8) (rest : OsStr) : Piece × OsStr :=
  if b0 < 0x80 then (.decoded (Char.ofNat b0.toNat), rest)
  else if 0xC2 ≤ b0 ∧ b0 ≤ 0xDF then
    match rest with
    | b1 :: rest1 =>
      if isContinuation b1 then (.decoded (charOf (b0.toNat % 32) [b1]), rest1)
      else (.illFormed [b0], b1 :: rest1)
    | [] => (.illFormed [b0], [])
  else if 0xE0 ≤ b0 ∧ b0 ≤ 0xEF then
    match rest with
    | b1 :: rest1 =>
      if secondOfThree b0 b1 then
        match rest1 with
        | b2 :: rest2 =>
          if isContinuation b2 then (.decoded (charOf (b0.toNat % 16) [b1, b2]), rest2)
          else (.illFormed [b0, b1], b2 :: rest2)
        | [] => (.illFormed [b0, b1], [])
      else (.illFormed [b0], b1 :: rest1)
    | [] => (.illFormed [b0], [])
  else if 0xF0 ≤ b0 ∧ b0 ≤ 0xF4 then
    match rest with
    | b1 :: rest1 =>
      if secondOfFour b0 b1 then
        match rest1 with
        | b2 :: rest2 =>
          if isContinuation b2 then
            match rest2 with
            | b3 :: rest3 =>
              if isContinuation b3 then
                (.decoded (charOf (b0.toNat % 8) [b1, b2, b3]), rest3)
              else (.illFormed [b0, b1, b2], b3 :: rest3)
            | [] => (.illFormed [b0, b1, b2], [])
          else (.illFormed [b0, b1], b2 :: rest2)
        | [] => (.illFormed [b0, b1], [])
      else (.illFormed [b0], b1 :: rest1)
    | [] => (.illFormed [b0], [])
  else (.illFormed [b0], rest)

/-! ### Characters and their encodings -/

theorem val_ofNat {n : ℕ} (h : n.isValidChar) : (Char.ofNat n).val.toNat = n := by
  unfold Char.ofNat
  rw [dif_pos h]
  rfl

theorem ofNat_eq_byte {n : ℕ} {b : UInt8} (h : n = b.toNat) : UInt8.ofNat n = b := by
  rw [h, UInt8.ofNat_toNat]

theorem isContinuation_iff (b : UInt8) :
    isContinuation b = true ↔ 128 ≤ b.toNat ∧ b.toNat ≤ 191 := by
  simp only [isContinuation, Bool.and_eq_true, decide_eq_true_eq, UInt8.le_iff_toNat_le]
  rfl

theorem encode_one {b0 : UInt8} (h0 : b0 < 0x80) :
    String.utf8EncodeChar (Char.ofNat b0.toNat) = [b0] := by
  have h : b0.toNat < 128 := UInt8.lt_iff_toNat_lt.mp h0
  have hval := val_ofNat (n := b0.toNat) (.inl (by omega))
  simp only [String.utf8EncodeChar, hval]
  rw [if_pos (by omega), ofNat_eq_byte rfl]

theorem encode_two {b0 b1 : UInt8} (h0 : 0xC2 ≤ b0 ∧ b0 ≤ 0xDF) (h1 : isContinuation b1 = true) :
    String.utf8EncodeChar (charOf (b0.toNat % 32) [b1]) = [b0, b1] := by
  have hlow : 194 ≤ b0.toNat := UInt8.le_iff_toNat_le.mp h0.1
  have hhigh : b0.toNat ≤ 223 := UInt8.le_iff_toNat_le.mp h0.2
  rw [isContinuation_iff] at h1
  have hval := val_ofNat (n := b0.toNat % 32 * 64 + b1.toNat % 64) (.inl (by omega))
  simp only [charOf, List.foldl_cons, List.foldl_nil, String.utf8EncodeChar, hval]
  rw [if_neg (by omega), if_pos (by omega), ofNat_eq_byte (b := b0) (by omega),
    ofNat_eq_byte (b := b1) (by omega)]

theorem secondOfThree_iff (b0 b1 : UInt8) : secondOfThree b0 b1 = true ↔
    128 ≤ b1.toNat ∧ b1.toNat ≤ 191 ∧ (b0.toNat = 224 → 160 ≤ b1.toNat) ∧
      (b0.toNat = 237 → b1.toNat ≤ 159) := by
  have hE0 : b0 = 0xE0 ↔ b0.toNat = 224 := UInt8.toNat_inj.symm
  have hED : b0 = 0xED ↔ b0.toNat = 237 := UInt8.toNat_inj.symm
  have hle : ∀ a : UInt8, a ≤ b1 ↔ a.toNat ≤ b1.toNat := fun _ => UInt8.le_iff_toNat_le
  have hge : ∀ a : UInt8, b1 ≤ a ↔ b1.toNat ≤ a.toNat := fun _ => UInt8.le_iff_toNat_le
  unfold secondOfThree
  split
  · next h =>
    rw [hE0] at h
    simp only [Bool.and_eq_true, decide_eq_true_eq, hle, hge, UInt8.reduceToNat]
    omega
  · next h =>
    rw [hE0] at h
    split
    · next h' =>
      rw [hED] at h'
      simp only [Bool.and_eq_true, decide_eq_true_eq, hle, hge, UInt8.reduceToNat]
      omega
    · next h' =>
      rw [hED] at h'
      rw [isContinuation_iff]
      omega

theorem secondOfFour_iff (b0 b1 : UInt8) : secondOfFour b0 b1 = true ↔
    128 ≤ b1.toNat ∧ b1.toNat ≤ 191 ∧ (b0.toNat = 240 → 144 ≤ b1.toNat) ∧
      (b0.toNat = 244 → b1.toNat ≤ 143) := by
  have hF0 : b0 = 0xF0 ↔ b0.toNat = 240 := UInt8.toNat_inj.symm
  have hF4 : b0 = 0xF4 ↔ b0.toNat = 244 := UInt8.toNat_inj.symm
  have hle : ∀ a : UInt8, a ≤ b1 ↔ a.toNat ≤ b1.toNat := fun _ => UInt8.le_iff_toNat_le
  have hge : ∀ a : UInt8, b1 ≤ a ↔ b1.toNat ≤ a.toNat := fun _ => UInt8.le_iff_toNat_le
  unfold secondOfFour
  split
  · next h =>
    rw [hF0] at h
    simp only [Bool.and_eq_true, decide_eq_true_eq, hle, hge, UInt8.reduceToNat]
    omega
  · next h =>
    rw [hF0] at h
    split
    · next h' =>
      rw [hF4] at h'
      simp only [Bool.and_eq_true, decide_eq_true_eq, hle, hge, UInt8.reduceToNat]
      omega
    · next h' =>
      rw [hF4] at h'
      rw [isContinuation_iff]
      omega

theorem encode_three {b0 b1 b2 : UInt8} (h0 : 0xE0 ≤ b0 ∧ b0 ≤ 0xEF)
    (h1 : secondOfThree b0 b1 = true) (h2 : isContinuation b2 = true) :
    String.utf8EncodeChar (charOf (b0.toNat % 16) [b1, b2]) = [b0, b1, b2] := by
  have hlow : 224 ≤ b0.toNat := UInt8.le_iff_toNat_le.mp h0.1
  have hhigh : b0.toNat ≤ 239 := UInt8.le_iff_toNat_le.mp h0.2
  rw [secondOfThree_iff] at h1
  rw [isContinuation_iff] at h2
  -- the second byte keeps the surrogates out
  have hvalid : ((b0.toNat % 16 * 64 + b1.toNat % 64) * 64 + b2.toNat % 64).isValidChar := by
    unfold Nat.isValidChar
    omega
  have hval := val_ofNat hvalid
  simp only [charOf, List.foldl_cons, List.foldl_nil, String.utf8EncodeChar, hval]
  rw [if_neg (by omega), if_neg (by omega), if_pos (by omega),
    ofNat_eq_byte (b := b0) (by omega), ofNat_eq_byte (b := b1) (by omega),
    ofNat_eq_byte (b := b2) (by omega)]

theorem encode_four {b0 b1 b2 b3 : UInt8} (h0 : 0xF0 ≤ b0 ∧ b0 ≤ 0xF4)
    (h1 : secondOfFour b0 b1 = true) (h2 : isContinuation b2 = true)
    (h3 : isContinuation b3 = true) :
    String.utf8EncodeChar (charOf (b0.toNat % 8) [b1, b2, b3]) = [b0, b1, b2, b3] := by
  have hlow : 240 ≤ b0.toNat := UInt8.le_iff_toNat_le.mp h0.1
  have hhigh : b0.toNat ≤ 244 := UInt8.le_iff_toNat_le.mp h0.2
  rw [secondOfFour_iff] at h1
  rw [isContinuation_iff] at h2 h3
  have hvalid : (((b0.toNat % 8 * 64 + b1.toNat % 64) * 64 + b2.toNat % 64) * 64 +
      b3.toNat % 64).isValidChar := by
    unfold Nat.isValidChar
    omega
  have hval := val_ofNat hvalid
  simp only [charOf, List.foldl_cons, List.foldl_nil, String.utf8EncodeChar, hval]
  rw [if_neg (by omega), if_neg (by omega), if_neg (by omega),
    ofNat_eq_byte (b := b0) (by omega), ofNat_eq_byte (b := b1) (by omega),
    ofNat_eq_byte (b := b2) (by omega), ofNat_eq_byte (b := b3) (by omega)]

/-! ### The pieces of a name -/

/-- Decoding writes the character of the first piece and goes on with the rest. -/
theorem toStringLossy_cons (b0 : UInt8) (rest : OsStr) :
    toStringLossy (b0 :: rest) =
      (firstPiece b0 rest).1.char :: toStringLossy (firstPiece b0 rest).2 := by
  rw [toStringLossy.eq_def]
  simp only [firstPiece]
  by_cases hone : b0 < 0x80
  · simp only [if_pos hone]
    rfl
  simp only [if_neg hone]
  by_cases htwo : 0xC2 ≤ b0 ∧ b0 ≤ 0xDF
  · simp only [if_pos htwo]
    cases rest with
    | nil => rfl
    | cons b1 rest1 =>
      by_cases h1 : isContinuation b1 = true
      · simp only [if_pos h1, Piece.char]
      · simp only [if_neg h1, Piece.char]
  simp only [if_neg htwo]
  by_cases hthree : 0xE0 ≤ b0 ∧ b0 ≤ 0xEF
  · simp only [if_pos hthree]
    rcases rest with _ | ⟨b1, rest1⟩
    · rfl
    by_cases h1 : secondOfThree b0 b1 = true
    · simp only [if_pos h1]
      rcases rest1 with _ | ⟨b2, rest2⟩
      · rfl
      by_cases h2 : isContinuation b2 = true
      · simp only [if_pos h2, Piece.char]
      · simp only [if_neg h2, Piece.char]
    · simp only [if_neg h1, Piece.char]
  simp only [if_neg hthree]
  by_cases hfour : 0xF0 ≤ b0 ∧ b0 ≤ 0xF4
  · simp only [if_pos hfour]
    rcases rest with _ | ⟨b1, rest1⟩
    · rfl
    by_cases h1 : secondOfFour b0 b1 = true
    · simp only [if_pos h1]
      rcases rest1 with _ | ⟨b2, rest2⟩
      · rfl
      by_cases h2 : isContinuation b2 = true
      · simp only [if_pos h2]
        rcases rest2 with _ | ⟨b3, rest3⟩
        · rfl
        by_cases h3 : isContinuation b3 = true
        · simp only [if_pos h3, Piece.char]
        · simp only [if_neg h3, Piece.char]
      · simp only [if_neg h2, Piece.char]
    · simp only [if_neg h1, Piece.char]
  · simp only [if_neg hfour, Piece.char]

theorem firstPiece_bytes (b0 : UInt8) (rest : OsStr) :
    (firstPiece b0 rest).1.bytes ++ (firstPiece b0 rest).2 = b0 :: rest := by
  unfold firstPiece
  split
  · next hone =>
    simp only [Piece.bytes, encode_one hone, List.cons_append, List.nil_append]
  split
  · next htwo =>
    split
    · split
      · next h1 =>
        simp only [Piece.bytes, encode_two htwo h1, List.cons_append, List.nil_append]
      · rfl
    · rfl
  split
  · next hthree =>
    split
    · split
      · next h1 =>
        split
        · split
          · next h2 =>
            simp only [Piece.bytes, encode_three hthree h1 h2, List.cons_append, List.nil_append]
          · rfl
        · rfl
      · rfl
    · rfl
  split
  · next hfour =>
    split
    · split
      · next h1 =>
        split
        · split
          · next h2 =>
            split
            · split
              · next h3 =>
                simp only [Piece.bytes, encode_four hfour h1 h2 h3, List.cons_append,
                  List.nil_append]
              · rfl
            · rfl
          · rfl
        · rfl
      · rfl
    · rfl
  · rfl

theorem firstPiece_bytes_ne_nil (b0 : UInt8) (rest : OsStr) :
    (firstPiece b0 rest).1.bytes ≠ [] := by
  unfold firstPiece
  repeat' split
  all_goals first
    | exact List.cons_ne_nil _ _
    | exact String.utf8EncodeChar_ne_nil

theorem firstPiece_length (b0 : UInt8) (rest : OsStr) :
    (firstPiece b0 rest).2.length < (b0 :: rest).length := by
  have hbytes := congrArg List.length (firstPiece_bytes b0 rest)
  have hpos := List.length_pos_iff.mpr (firstPiece_bytes_ne_nil b0 rest)
  rw [List.length_append] at hbytes
  omega

def pieces : OsStr → List Piece
  | [] => []
  | b0 :: rest => (firstPiece b0 rest).1 :: pieces (firstPiece b0 rest).2
termination_by name => name.length
decreasing_by exact firstPiece_length b0 rest

theorem toStringLossy_eq (name : OsStr) : toStringLossy name = (pieces name).map Piece.char := by
  induction name using pieces.induct with
  | case1 => simp only [toStringLossy, pieces, List.map_nil]
  | case2 b0 rest ih => rw [toStringLossy_cons, pieces, List.map_cons, ih]

theorem flatMap_pieces (name : OsStr) : (pieces name).flatMap Piece.bytes = name := by
  induction name using pieces.induct with
  | case1 => simp only [pieces, List.flatMap_nil]
  | case2 b0 rest ih => rw [pieces, List.flatMap_cons, ih, firstPiece_bytes]

/-- The names have alike pieces in the same order. -/
def Alike (name name' : OsStr) : Prop := List.Forall₂ Piece.Alike (pieces name) (pieces name')

theorem toStringLossy_eq_iff (name name' : OsStr) :
    toStringLossy name = toStringLossy name' ↔ Alike name name' := by
  rw [toStringLossy_eq, toStringLossy_eq, ← List.forall₂_eq_eq_eq, List.forall₂_map_left_iff,
    List.forall₂_map_right_iff]
  simp only [Piece.char_eq_iff]
  rfl

theorem toStringLossy_ne_nil {name : OsStr} (h : name ≠ []) : toStringLossy name ≠ [] := by
  cases name with
  | nil => exact absurd rfl h
  | cons b0 rest =>
    rw [toStringLossy_cons]
    exact List.cons_ne_nil _ _

theorem toStringLossy_noSlash {name : OsStr} (h : '/'.toUInt8 ∉ name) :
    '/' ∉ toStringLossy name := by
  rw [toStringLossy_eq, List.mem_map]
  rintro ⟨piece, hmem, hchar⟩
  apply h
  rw [← flatMap_pieces name, List.mem_flatMap]
  refine ⟨piece, hmem, ?_⟩
  rw [Piece.bytes_of_slash hchar]
  exact List.mem_singleton_self _

end ObsFuse
