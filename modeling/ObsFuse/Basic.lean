import ObsFuse.Lib.Table

/-! # Common types of the embedding

Rust's `Vec<u8>`/`Bytes` are lists of bytes and `String`/`&str` are lists of
characters. Machine integers are natural numbers; where a `u64` sum of the source
can exceed 2^64 it is written with `u64`, as the release build computes it
(`Cargo.toml` sets no overflow checks there). -/

namespace ObsFuse
open Lib

abbrev Byte := UInt8
abbrev Bytes := List Byte
abbrev Str := List Char

/-- Reading of the monotonic clock (`Instant`), in nanoseconds. -/
abbrev Instant := ℕ
/-- Reading of the wall clock (`SystemTime`). -/
abbrev SystemTime := ℤ

/-- The clock readings an operation works with. -/
structure Now where
  instant : Instant
  system : SystemTime
  deriving DecidableEq, Repr

/-- `n` as a wrapped 64-bit sum. -/
def u64 (n : ℕ) : ℕ := n % 2 ^ 64

def u32 (n : ℕ) : ℕ := n % 2 ^ 32

theorem u64_eq {n : ℕ} (h : n < 2 ^ 64) : u64 n = n := Nat.mod_eq_of_lt h

theorem u64_lt (n : ℕ) : u64 n < 2 ^ 64 := Nat.mod_lt _ (by decide)

/-- How a call of the program ends: a value, an error, or not at all (a loop of the
source whose test stays true). -/
inductive Outcome (ε α : Type) where
  | ok (a : α)
  | err (e : ε)
  | loops
  deriving DecidableEq, Repr

namespace Outcome
variable {ε ε' α β : Type}

def map (f : α → β) : Outcome ε α → Outcome ε β
  | .ok a => .ok (f a)
  | .err e => .err e
  | .loops => .loops

def mapErr (f : ε → ε') : Outcome ε α → Outcome ε' α
  | .ok a => .ok a
  | .err e => .err (f e)
  | .loops => .loops

def isOk : Outcome ε α → Bool
  | .ok _ => true
  | _ => false

def isErr : Outcome ε α → Bool
  | .err _ => true
  | _ => false

@[simp] theorem mapErr_ok (f : ε → ε') (a : α) : (Outcome.ok a).mapErr f = .ok a := rfl
@[simp] theorem mapErr_err (f : ε → ε') (e : ε) :
    (Outcome.err e : Outcome ε α).mapErr f = .err (f e) := rfl
@[simp] theorem mapErr_loops (f : ε → ε') :
    (Outcome.loops : Outcome ε α).mapErr f = .loops := rfl
@[simp] theorem isOk_ok (a : α) : (Outcome.ok a : Outcome ε α).isOk = true := rfl
@[simp] theorem isOk_err (e : ε) : (Outcome.err e : Outcome ε α).isOk = false := rfl
@[simp] theorem isOk_loops : (Outcome.loops : Outcome ε α).isOk = false := rfl
@[simp] theorem isErr_ok (a : α) : (Outcome.ok a : Outcome ε α).isErr = false := rfl
@[simp] theorem isErr_err (e : ε) : (Outcome.err e : Outcome ε α).isErr = true := rfl
@[simp] theorem isErr_loops : (Outcome.loops : Outcome ε α).isErr = false := rfl

theorem isOk_iff {o : Outcome ε α} : o.isOk = true ↔ ∃ a, o = .ok a := by
  cases o <;> simp

theorem map_eq_err {f : α → β} {o : Outcome ε α} {e : ε} : o.map f = .err e ↔ o = .err e := by
  cases o <;> simp [map]

@[simp] theorem mapErr_eq_ok {f : ε → ε'} {o : Outcome ε α} {a : α} :
    o.mapErr f = .ok a ↔ o = .ok a := by
  cases o <;> simp [mapErr]

end Outcome

end ObsFuse
