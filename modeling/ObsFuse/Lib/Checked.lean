import Mathlib.Algebra.Ring.Nat
import Mathlib.Data.List.Basic

/-! # Arithmetic that stops

Sums and products of `w`-bit numbers, divisions and slices. Each of them has no value where a
machine would wrap around, divide by zero or leave the list. -/

namespace ObsFuse.Lib

variable {α : Type*} {w a b : ℕ}

def checkedAdd (w a b : ℕ) : Option ℕ := if a + b < 2 ^ w then some (a + b) else none

def uncheckedAdd (a b : ℕ) : Option ℕ := some (a + b)

def checkedMul (w a b : ℕ) : Option ℕ := if a * b < 2 ^ w then some (a * b) else none

def checkedSub (a b : ℕ) : Option ℕ := if b ≤ a then some (a - b) else none

def checkedDiv (a b : ℕ) : Option ℕ := if b = 0 then none else some (a / b)

def checkedRem (a b : ℕ) : Option ℕ := if b = 0 then none else some (a % b)

def checkedSlice (l : List α) (start stop : ℕ) : Option (List α) :=
  if start ≤ stop ∧ stop ≤ l.length then some ((l.take stop).drop start) else none

theorem checkedAdd_eq (h : a + b < 2 ^ w) : checkedAdd w a b = some (a + b) := if_pos h

/-- An addition that has a value for every sum up to `n`. -/
def AddsUpTo (add : ℕ → ℕ → Option ℕ) (n : ℕ) : Prop :=
  ∀ a b, a + b ≤ n → add a b = some (a + b)

theorem AddsUpTo.mono {add : ℕ → ℕ → Option ℕ} {m n : ℕ} (h : AddsUpTo add n) (hle : m ≤ n) :
    AddsUpTo add m := fun a b hab => h a b (Nat.le_trans hab hle)

theorem uncheckedAdd_addsUpTo (n : ℕ) : AddsUpTo uncheckedAdd n := fun _ _ _ => rfl

theorem checkedAdd_addsUpTo {n : ℕ} (h : n < 2 ^ w) : AddsUpTo (checkedAdd w) n :=
  fun _ _ hab => checkedAdd_eq (Nat.lt_of_le_of_lt hab h)

theorem checkedMul_eq (h : a * b < 2 ^ w) : checkedMul w a b = some (a * b) := if_pos h

theorem checkedSub_eq (h : b ≤ a) : checkedSub a b = some (a - b) := if_pos h

theorem checkedDiv_eq (h : 0 < b) : checkedDiv a b = some (a / b) := if_neg (by omega)

theorem checkedRem_eq (h : 0 < b) : checkedRem a b = some (a % b) := if_neg (by omega)

theorem checkedSlice_eq {l : List α} {start stop : ℕ} (h : start ≤ stop) (hl : stop ≤ l.length) :
    checkedSlice l start stop = some ((l.take stop).drop start) := if_pos ⟨h, hl⟩

end ObsFuse.Lib
