import Mathlib.Data.List.Basic

/-! # Prefixes and numerals as text

Repeated removal of a prefix (`str::trim_start_matches`) and the reading of an unsigned
integer in a radix of at most ten (`from_str_radix`), with the texts that each accepts. -/

namespace ObsFuse.Lib

section Prefixes
variable {α : Type*} [BEq α]

def trimStartFor (pat : List α) : ℕ → List α → List α
  | 0, s => s
  | n + 1, s => if pat.isPrefixOf s then trimStartFor pat n (s.drop pat.length) else s

/-- Every occurrence of a nonempty pattern at the start is removed. -/
def trimStartMatches (pat s : List α) : List α := trimStartFor pat s.length s

variable [LawfulBEq α] {pat : List α}

theorem trimStartFor_spec (hpat : pat ≠ []) (k : ℕ) (s : List α) (hk : s.length ≤ k) :
    ∃ n, s = (List.replicate n pat).flatten ++ trimStartFor pat k s ∧
      ¬pat <+: trimStartFor pat k s := by
  have hlen : 0 < pat.length := List.length_pos_iff.mpr hpat
  induction k generalizing s with
  | zero =>
    obtain rfl := List.length_eq_zero_iff.mp (Nat.le_zero.mp hk)
    exact ⟨0, rfl, fun hpre => hpat (List.prefix_nil.mp hpre)⟩
  | succ k ih =>
    unfold trimStartFor
    split
    · next hpre =>
      obtain ⟨t, rfl⟩ := List.isPrefixOf_iff_prefix.mp hpre
      rw [List.drop_left]
      rw [List.length_append] at hk
      obtain ⟨n, ht, hend⟩ := ih t (by omega)
      refine ⟨n + 1, ?_, hend⟩
      rw [List.replicate_succ, List.flatten_cons, List.append_assoc, ← ht]
    · next hpre => exact ⟨0, rfl, fun h => hpre (List.isPrefixOf_iff_prefix.mpr h)⟩

theorem trimStartMatches_spec (pat : List α) (hpat : pat ≠ []) (s : List α) :
    ∃ n, s = (List.replicate n pat).flatten ++ trimStartMatches pat s ∧
      ¬pat <+: trimStartMatches pat s :=
  trimStartFor_spec hpat s.length s (Nat.le_refl _)

theorem trimStartMatches_append (hpat : pat ≠ []) (n : ℕ) {t : List α} (ht : ¬pat <+: t) :
    trimStartMatches pat ((List.replicate n pat).flatten ++ t) = t := by
  have hlen : 0 < pat.length := List.length_pos_iff.mpr hpat
  have hfor : ∀ k, n ≤ k → trimStartFor pat k ((List.replicate n pat).flatten ++ t) = t := by
    induction n with
    | zero =>
      intro k _
      cases k with
      | zero => rfl
      | succ k => exact if_neg fun h => ht (List.isPrefixOf_iff_prefix.mp h)
    | succ n ih =>
      intro k hk
      cases k with
      | zero => omega
      | succ k =>
        have hpre : pat.isPrefixOf ((List.replicate (n + 1) pat).flatten ++ t) = true := by
          rw [List.isPrefixOf_iff_prefix, List.replicate_succ, List.flatten_cons,
            List.append_assoc]
          exact List.prefix_append _ _
        unfold trimStartFor
        rw [if_pos hpre, List.replicate_succ, List.flatten_cons, List.append_assoc,
          List.drop_left]
        exact ih k (by omega)
  apply hfor
  rw [List.length_append, List.length_flatten, List.map_replicate, List.sum_replicate_nat]
  have hle := Nat.le_mul_of_pos_right n hlen
  omega

end Prefixes

inductive ParseIntError where
  | empty
  | invalidDigit
  | posOverflow
  deriving DecidableEq, Repr

/-- `char::to_digit`, for a radix of at most ten. -/
def toDigit (radix : ℕ) (c : Char) : Option ℕ :=
  if c.isDigit ∧ c.toNat - '0'.toNat < radix then some (c.toNat - '0'.toNat) else none

/-- The digits after the value `n`; no intermediate value reaches the bound. -/
def readDigits (radix bound : ℕ) : ℕ → List Char → Except ParseIntError ℕ
  | n, [] => .ok n
  | n, c :: s =>
    match toDigit radix c with
    | none => .error .invalidDigit
    | some d =>
      if n * radix < bound then
        if n * radix + d < bound then readDigits radix bound (n * radix + d) s
        else .error .posOverflow
      else .error .posOverflow

/-- `from_str_radix` of an unsigned type: one sign `+` may stand before the digits. -/
def fromStrRadix (radix bound : ℕ) (s : List Char) : Except ParseIntError ℕ :=
  if s = [] then .error .empty
  else if s = ['+'] ∨ s = ['-'] then .error .invalidDigit
  else if s.head? = some '+' then readDigits radix bound 0 s.tail
  else readDigits radix bound 0 s

/-- One or more digits with a value below the bound. -/
structure Numeral (radix bound : ℕ) (s : List Char) (v : ℕ) : Prop where
  nonempty : s ≠ []
  digits : ∀ c ∈ s, (toDigit radix c).isSome
  value : Nat.ofDigitChars radix s 0 = v
  lt : v < bound

theorem le_ofDigitChars {radix : ℕ} (hradix : 0 < radix) (s : List Char) (n : ℕ) :
    n ≤ Nat.ofDigitChars radix s n := by
  induction s generalizing n with
  | nil => exact Nat.le_of_eq Nat.ofDigitChars_nil.symm
  | cons c s ih =>
    rw [Nat.ofDigitChars_cons]
    have hmul := Nat.le_mul_of_pos_left n hradix
    have hrest := ih (radix * n + (c.toNat - '0'.toNat))
    omega

theorem toDigit_eq_some {radix : ℕ} {c : Char} {d : ℕ} (h : toDigit radix c = some d) :
    c.toNat - '0'.toNat = d := by
  unfold toDigit at h
  split at h
  · exact Option.some.inj h
  · cases h

theorem readDigits_eq_ok_iff {radix bound : ℕ} (hradix : 0 < radix) (s : List Char) (n v : ℕ)
    (hn : n < bound) :
    readDigits radix bound n s = .ok v ↔
      (∀ c ∈ s, (toDigit radix c).isSome) ∧ Nat.ofDigitChars radix s n = v ∧ v < bound := by
  induction s generalizing n with
  | nil =>
    rw [readDigits, Nat.ofDigitChars_nil]
    constructor
    · intro h
      cases h
      exact ⟨fun c hc => absurd hc List.not_mem_nil, rfl, hn⟩
    · rintro ⟨-, rfl, -⟩
      rfl
  | cons c s ih =>
    rw [readDigits, Nat.ofDigitChars_cons, List.forall_mem_cons]
    cases hd : toDigit radix c with
    | none => simp
    | some d =>
      rw [toDigit_eq_some hd, Nat.mul_comm radix n]
      dsimp only
      have hle := le_ofDigitChars hradix s (n * radix + d)
      by_cases hsum : n * radix + d < bound
      · rw [if_pos (by omega), if_pos hsum, ih _ hsum]
        simp
      · -- later digits only make the value larger
        have hover : ¬(Nat.ofDigitChars radix s (n * radix + d) = v ∧ v < bound) := by
          rintro ⟨rfl, hlt⟩
          omega
        rw [if_neg hsum, ite_self]
        constructor
        · intro h
          cases h
        · rintro ⟨-, hval⟩
          exact absurd hval hover

theorem readDigits_zero_iff {radix bound : ℕ} (hradix : 0 < radix) (hbound : 0 < bound)
    {s : List Char} (hs : s ≠ []) (v : ℕ) :
    readDigits radix bound 0 s = .ok v ↔ Numeral radix bound s v := by
  rw [readDigits_eq_ok_iff hradix s 0 v hbound]
  constructor
  · rintro ⟨hdigits, hval, hlt⟩
    exact ⟨hs, hdigits, hval, hlt⟩
  · intro h
    exact ⟨h.digits, h.value, h.lt⟩

theorem Numeral.head_ne {radix bound : ℕ} {s : List Char} {v : ℕ} (h : Numeral radix bound s v)
    {c : Char} (hc : c.isDigit = false) : s.head? ≠ some c := by
  intro hhead
  have hsome := h.digits c (List.mem_of_mem_head? hhead)
  simp [toDigit, hc] at hsome

/-- What is read is a numeral, or a numeral after a sign. -/
theorem fromStrRadix_eq_ok_iff {radix bound : ℕ} (hradix : 0 < radix) (hbound : 0 < bound)
    (s : List Char) (v : ℕ) :
    fromStrRadix radix bound s = .ok v ↔
      Numeral radix bound s v ∨ ∃ d, s = '+' :: d ∧ Numeral radix bound d v := by
  have hsigned : Numeral radix bound s v → s.head? ≠ some '+' ∧ s.head? ≠ some '-' :=
    fun h => ⟨h.head_ne rfl, h.head_ne rfl⟩
  unfold fromStrRadix
  by_cases hnil : s = []
  · rw [if_pos hnil]
    constructor
    · intro h
      cases h
    · rintro (h | ⟨d, hd, -⟩)
      · exact absurd hnil h.nonempty
      · rw [hnil] at hd
        cases hd
  · rw [if_neg hnil]
    by_cases hsign : s = ['+'] ∨ s = ['-']
    · rw [if_pos hsign]
      constructor
      · intro h
        cases h
      · rintro (h | ⟨d, hd, h⟩)
        · rcases hsign with rfl | rfl
          · exact absurd rfl (hsigned h).1
          · exact absurd rfl (hsigned h).2
        · rcases hsign with rfl | rfl
          · cases hd
            exact absurd rfl h.nonempty
          · cases hd
    · rw [if_neg hsign]
      by_cases hplus : s.head? = some '+'
      · obtain ⟨d, rfl⟩ := List.head?_eq_some_iff.mp hplus
        have hd : d ≠ [] := by
          rintro rfl
          exact hsign (.inl rfl)
        rw [if_pos hplus, List.tail_cons, readDigits_zero_iff hradix hbound hd]
        constructor
        · intro h
          exact .inr ⟨d, rfl, h⟩
        · rintro (h | ⟨d', hd', h⟩)
          · exact absurd hplus (hsigned h).1
          · cases hd'
            exact h
      · rw [if_neg hplus, readDigits_zero_iff hradix hbound hnil]
        constructor
        · exact .inl
        · rintro (h | ⟨d, rfl, -⟩)
          · exact h
          · exact absurd rfl hplus

theorem toDigit_isSome_of_isDigit {c : Char} (h : c.isDigit = true) : (toDigit 10 c).isSome := by
  have hlt : c.toNat - '0'.toNat < 10 := by
    have hrange := Char.isDigit_iff_toNat.mp h
    have hnine : '9'.toNat = '0'.toNat + 9 := rfl
    omega
  unfold toDigit
  rw [if_pos ⟨h, hlt⟩]
  rfl

/-- The decimal digits of a value are a numeral of it. -/
theorem numeral_toDigits {bound n : ℕ} (h : n < bound) :
    Numeral 10 bound (Nat.toDigits 10 n) n where
  nonempty := Nat.toDigits_ne_nil
  digits c hc := by
    have hdigit := Nat.isDigit_of_mem_toDigits (by decide) (by decide) hc
    exact toDigit_isSome_of_isDigit hdigit
  value := Nat.ofDigitChars_ten_toDigits
  lt := h

end ObsFuse.Lib
