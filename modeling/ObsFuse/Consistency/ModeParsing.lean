import ObsFuse.Fs.Settings

/-! # The modes that a mount accepts

`parse_mode` removes every prefix `0o` and every zero after them before it reads the rest. -/

namespace ObsFuse
open Lib

/-- One or more octal digits whose value fits in 32 bits. -/
abbrev OctalDigits (d : Str) (v : ℕ) : Prop := Numeral 8 (2 ^ 32) d v

/-- The octal modes: digits after at most one prefix `0o`. -/
def IsMode (s : Str) (v : ℕ) : Prop :=
  OctalDigits s v ∨ ∃ d, s = "0o".toList ++ d ∧ OctalDigits d v

def prefixes (n : ℕ) : Str := (List.replicate n "0o".toList).flatten

def zeros (n : ℕ) : Str := (List.replicate n "0".toList).flatten

/-- The texts that `parse_mode` reads otherwise: zeros alone, which it refuses, and a sign or
a second prefix, which it accepts. -/
inductive Misread : Str → Prop where
  | onlyZeros {n : ℕ} (k : ℕ) : n ≤ 1 → Misread (prefixes n ++ zeros (k + 1))
  | signed (n k : ℕ) {d : Str} {v : ℕ} :
    OctalDigits d v → Misread (prefixes n ++ (zeros k ++ '+' :: d))
  | prefixed {n : ℕ} {d : Str} {v : ℕ} :
    2 ≤ n → OctalDigits d v → v ≠ 0 → Misread (prefixes n ++ d)

theorem prefixes_succ (n : ℕ) : prefixes (n + 1) = "0o".toList ++ prefixes n := rfl

theorem zeros_eq (n : ℕ) : zeros n = List.replicate n '0' := by
  induction n with
  | zero => rfl
  | succ n ih =>
    have hsucc : zeros (n + 1) = '0' :: zeros n := rfl
    rw [hsucc, ih, List.replicate_succ]

theorem not_mem_zeros {c : Char} (hc : c ≠ '0') (n : ℕ) : c ∉ zeros n := by
  rw [zeros_eq]
  intro h
  exact hc (List.eq_of_mem_replicate h)

/-! ### Octal digits -/

theorem OctalDigits.not_mem {d : Str} {v : ℕ} (h : OctalDigits d v) {c : Char}
    (hc : c.isDigit = false) : c ∉ d := by
  intro hin
  have hsome := h.digits c hin
  simp [toDigit, hc] at hsome

theorem octalDigits_zeros {k v : ℕ} : OctalDigits (zeros k) v ↔ 0 < k ∧ v = 0 := by
  have hvalue : Nat.ofDigitChars 8 (zeros k) 0 = 0 := by
    rw [zeros_eq, Nat.ofDigitChars_replicate_zero, Nat.mul_zero]
  constructor
  · intro h
    refine ⟨?_, h.value.symm.trans hvalue⟩
    rcases Nat.eq_zero_or_pos k with rfl | hk
    · exact absurd rfl h.nonempty
    · exact hk
  · rintro ⟨hk, rfl⟩
    refine ⟨?_, ?_, hvalue, by decide⟩
    · rw [zeros_eq, ne_eq, List.replicate_eq_nil_iff]
      omega
    · intro c hc
      rw [zeros_eq] at hc
      rw [List.eq_of_mem_replicate hc]
      decide

theorem octalDigits_zeros_append {k v : ℕ} {u : Str} (hu : u ≠ []) :
    OctalDigits (zeros k ++ u) v ↔ OctalDigits u v := by
  have hvalue : Nat.ofDigitChars 8 (zeros k ++ u) 0 = Nat.ofDigitChars 8 u 0 := by
    rw [Nat.ofDigitChars_append, zeros_eq, Nat.ofDigitChars_replicate_zero, Nat.mul_zero]
  constructor
  · intro h
    exact ⟨hu, fun c hc => h.digits c (List.mem_append_right _ hc), hvalue.symm.trans h.value, h.lt⟩
  · intro h
    refine ⟨?_, ?_, hvalue.trans h.value, h.lt⟩
    · rw [ne_eq, List.append_eq_nil_iff]
      exact fun hboth => hu hboth.2
    · intro c hc
      rcases List.mem_append.mp hc with hz | hin
      · rw [zeros_eq] at hz
        rw [List.eq_of_mem_replicate hz]
        decide
      · exact h.digits c hin

theorem octalDigits_prefixes {n v : ℕ} {t : Str} :
    OctalDigits (prefixes n ++ t) v ↔ n = 0 ∧ OctalDigits t v := by
  cases n with
  | zero => exact ⟨fun h => ⟨rfl, h⟩, And.right⟩
  | succ n =>
    constructor
    · intro h
      refine absurd ?_ (h.not_mem (c := 'o') rfl)
      rw [prefixes_succ]
      simp
    · rintro ⟨hn, -⟩
      omega

/-- A numeral that does not start with a zero is not zero. -/
theorem OctalDigits.ne_zero {u : Str} {v : ℕ} (h : OctalDigits u v) (hu : ¬"0".toList <+: u) :
    v ≠ 0 := by
  cases u with
  | nil => exact absurd rfl h.nonempty
  | cons c u =>
    rintro rfl
    have hvalue := h.value
    rw [Nat.ofDigitChars_cons] at hvalue
    have hle := @le_ofDigitChars 8 (by decide) u (8 * 0 + (c.toNat - '0'.toNat))
    rw [hvalue] at hle
    -- the first digit is a zero
    have hdigit := h.digits c (List.mem_cons_self ..)
    have hc : c = '0' := by
      unfold toDigit at hdigit
      split at hdigit
      · next hc =>
        have hge : '0'.toNat ≤ c.toNat := by
          have hd := hc.1
          simp only [Char.isDigit, Bool.and_eq_true, decide_eq_true_eq] at hd
          exact hd.1
        apply Char.toNat_inj.mp
        omega
      · cases hdigit
    exact hu ⟨u, by rw [hc]; rfl⟩

/-! ### What is accepted -/

theorem not_prefix_of_not_mem {t : Str} (h : 'o' ∉ t) : ¬"0o".toList <+: t := by
  rintro ⟨r, rfl⟩
  exact h (by simp)

/-- Every text is prefixes, then zeros, then a rest that starts with neither. -/
theorem mode_split (s : Str) :
    ∃ n k u, s = prefixes n ++ (zeros k ++ u) ∧ ¬"0o".toList <+: zeros k ++ u ∧
      ¬"0".toList <+: u := by
  obtain ⟨n, hn, hstart⟩ := trimStartMatches_spec "0o".toList (by decide) s
  obtain ⟨k, hk, hrest⟩ := trimStartMatches_spec "0".toList (by decide)
    (trimStartMatches "0o".toList s)
  rw [← zeros] at hk
  rw [← prefixes] at hn
  rw [hk] at hn hstart
  exact ⟨n, k, _, hn, hstart, hrest⟩

variable {n k v : ℕ} {u : Str}

theorem parseMode_ok_iff (hstart : ¬"0o".toList <+: zeros k ++ u) (hrest : ¬"0".toList <+: u) :
    parseMode (prefixes n ++ (zeros k ++ u)) = .ok v ↔
      OctalDigits u v ∨ ∃ d, u = '+' :: d ∧ OctalDigits d v := by
  have htrim : parseMode (prefixes n ++ (zeros k ++ u)) =
      (fromStrRadix 8 (2 ^ 32) u).mapError fun e => ⟨"Invalid permission mode", e⟩ := by
    unfold parseMode prefixes
    rw [trimStartMatches_append (by decide) n hstart]
    unfold zeros
    rw [trimStartMatches_append (by decide) k hrest]
  rw [htrim, ← fromStrRadix_eq_ok_iff (by decide) (by decide)]
  cases fromStrRadix 8 (2 ^ 32) u with
  | error e => simp [Except.mapError]
  | ok w => simp [Except.mapError]

theorem isMode_iff (hstart : ¬"0o".toList <+: zeros k ++ u) :
    IsMode (prefixes n ++ (zeros k ++ u)) v ↔ n ≤ 1 ∧ OctalDigits (zeros k ++ u) v := by
  unfold IsMode
  rw [octalDigits_prefixes]
  constructor
  · rintro (⟨rfl, h⟩ | ⟨d, hd, h⟩)
    · exact ⟨Nat.zero_le 1, h⟩
    · cases n with
      | zero =>
        have hpre : "0o".toList <+: zeros k ++ u := ⟨d, hd.symm⟩
        exact absurd hpre hstart
      | succ n =>
        rw [prefixes_succ, List.append_assoc] at hd
        rw [← List.append_cancel_left hd, octalDigits_prefixes] at h
        obtain ⟨rfl, h⟩ := h
        exact ⟨Nat.le_refl 1, h⟩
  · rintro ⟨hn, h⟩
    cases n with
    | zero => exact .inl ⟨rfl, h⟩
    | succ n =>
      obtain rfl : n = 0 := by omega
      exact .inr ⟨_, rfl, h⟩

/-! ### What is misread -/

theorem onlyZeros_refused (hn : n ≤ 1) (k : ℕ) :
    IsMode (prefixes n ++ zeros (k + 1)) 0 ∧ parseMode (prefixes n ++ zeros (k + 1)) ≠ .ok 0 := by
  have hstart : ¬"0o".toList <+: zeros (k + 1) ++ [] := by
    rw [List.append_nil]
    exact not_prefix_of_not_mem (not_mem_zeros (by decide) _)
  have hmode : IsMode (prefixes n ++ (zeros (k + 1) ++ [])) 0 := by
    rw [isMode_iff hstart, List.append_nil, octalDigits_zeros]
    exact ⟨hn, Nat.succ_pos k, rfl⟩
  have hparse : parseMode (prefixes n ++ (zeros (k + 1) ++ [])) ≠ .ok 0 := by
    rw [ne_eq, parseMode_ok_iff hstart (by decide)]
    rintro (h | ⟨d, hd, -⟩)
    · exact h.nonempty rfl
    · cases hd
  rw [List.append_nil] at hmode hparse
  exact ⟨hmode, hparse⟩

theorem signed_accepted {d : Str} (hd : OctalDigits d v) (n k : ℕ) :
    parseMode (prefixes n ++ (zeros k ++ '+' :: d)) = .ok v ∧
      ¬IsMode (prefixes n ++ (zeros k ++ '+' :: d)) v := by
  have hstart : ¬"0o".toList <+: zeros k ++ '+' :: d := by
    apply not_prefix_of_not_mem
    rw [List.mem_append, List.mem_cons]
    rintro (h | h | h)
    · exact not_mem_zeros (by decide) k h
    · exact absurd h (by decide)
    · exact hd.not_mem rfl h
  have hrest : ¬"0".toList <+: '+' :: d := by
    rintro ⟨r, hr⟩
    cases hr
  refine ⟨(parseMode_ok_iff hstart hrest).mpr (.inr ⟨d, rfl, hd⟩), ?_⟩
  intro hmode
  have hdigits := ((isMode_iff hstart).mp hmode).2
  exact hdigits.not_mem (c := '+') rfl (by simp)

theorem prefixed_accepted (hn : 2 ≤ n) {d : Str} (hd : OctalDigits d v) (hv : v ≠ 0) :
    parseMode (prefixes n ++ d) = .ok v ∧ ¬IsMode (prefixes n ++ d) v := by
  obtain ⟨a, k, u, rfl, hstart, hrest⟩ := mode_split d
  obtain ⟨rfl, hdigits⟩ := octalDigits_prefixes.mp hd
  have hu : u ≠ [] := by
    rintro rfl
    rw [List.append_nil, octalDigits_zeros] at hdigits
    exact hv hdigits.2
  constructor
  · exact (parseMode_ok_iff hstart hrest).mpr (.inl ((octalDigits_zeros_append hu).mp hdigits))
  · intro hmode
    have hone := ((isMode_iff hstart).mp hmode).1
    omega

theorem Misread.not_exact {s : Str} (h : Misread s) : ¬∀ v, parseMode s = .ok v ↔ IsMode s v := by
  intro hexact
  cases h with
  | onlyZeros k hn =>
    obtain ⟨hmode, hparse⟩ := onlyZeros_refused hn k
    exact hparse ((hexact 0).mpr hmode)
  | signed n k hd =>
    obtain ⟨hparse, hmode⟩ := signed_accepted hd n k
    exact hmode ((hexact _).mp hparse)
  | prefixed hn hd hv =>
    obtain ⟨hparse, hmode⟩ := prefixed_accepted hn hd hv
    exact hmode ((hexact _).mp hparse)

theorem parseMode_ok_iff_isMode {s : Str} (h : ¬Misread s) :
    parseMode s = .ok v ↔ IsMode s v := by
  obtain ⟨n, k, u, rfl, hstart, hrest⟩ := mode_split s
  rw [parseMode_ok_iff hstart hrest, isMode_iff hstart]
  constructor
  · rintro (hd | ⟨d, rfl, hd⟩)
    · have hall := (octalDigits_zeros_append (k := k) hd.nonempty).mpr hd
      refine ⟨?_, hall⟩
      by_contra hn
      exact h (.prefixed (by omega) hall (hd.ne_zero hrest))
    · exact absurd (.signed n k hd) h
  · rintro ⟨hn, hd⟩
    by_cases hu : u = []
    · subst hu
      rw [List.append_nil, octalDigits_zeros] at hd
      obtain ⟨hk, -⟩ := hd
      obtain ⟨k, rfl⟩ := Nat.exists_eq_succ_of_ne_zero (Nat.ne_of_gt hk)
      refine absurd ?_ h
      rw [List.append_nil]
      exact .onlyZeros k hn
    · exact .inl ((octalDigits_zeros_append hu).mp hd)

/-- A text is read as the mode that it is, or refused where it is none, exactly when it is not
zeros alone and has neither a sign nor a second prefix before its digits. -/
theorem parse_mode_exact_iff (s : Str) :
    (∀ v, parseMode s = .ok v ↔ IsMode s v) ↔ ¬Misread s := by
  constructor
  · intro hexact hmis
    exact hmis.not_exact hexact
  · intro hmis v
    exact parseMode_ok_iff_isMode hmis

theorem zero_mode_refused :
    IsMode "000".toList 0 ∧
      parseMode "000".toList = .error ⟨"Invalid permission mode", .empty⟩ := by
  have hzeros : "000".toList = zeros 3 := by decide
  constructor
  · rw [hzeros]
    exact .inl (octalDigits_zeros.mpr ⟨by decide, rfl⟩)
  · decide

end ObsFuse
