import Mathlib.Data.List.Basic

/-! # Lists cut into blocks

A list is cut into blocks of one length and a rest that is shorter. What a stream is cut into
does not depend on the pieces in which it arrives. The blocks that a range of positions meets
are those from its start rounded down to its end rounded up. -/

namespace ObsFuse.Lib

variable {α : Type*} {n : ℕ} {s t b r r' : List α} {bs bs' : List (List α)}

/-- The list is the blocks, of `n` elements each, and then the rest, of fewer. -/
inductive Split (n : ℕ) : List α → List (List α) → List α → Prop where
  | short {s : List α} : s.length < n → Split n s [] s
  | block {b s r : List α} {bs : List (List α)} :
    b.length = n → Split n s bs r → Split n (b ++ s) (b :: bs) r

namespace Split

theorem flatten (h : Split n s bs r) : bs.flatten ++ r = s := by
  induction h with
  | short _ => rfl
  | block _ _ ih => rw [List.flatten_cons, List.append_assoc, ih]

theorem full (h : Split n s bs r) : ∀ b ∈ bs, b.length = n := by
  induction h with
  | short _ =>
    intro b hb
    cases hb
  | block hb _ ih => exact List.forall_mem_cons.mpr ⟨hb, ih⟩

theorem rest_lt (h : Split n s bs r) : r.length < n := by
  induction h with
  | short hs => exact hs
  | block _ _ ih => exact ih

theorem length_eq (h : Split n s bs r) : s.length = bs.length * n + r.length := by
  induction h with
  | short _ => simp
  | block hb _ ih =>
    rw [List.length_append, List.length_cons, hb, ih, Nat.add_mul]
    omega

theorem length_blocks (h : Split n s bs r) : bs.length = s.length / n := by
  have hlen := h.length_eq
  have hlt := h.rest_lt
  have hpos : 0 < n := by omega
  rw [hlen, Nat.mul_comm, Nat.mul_add_div hpos, Nat.div_eq_of_lt hlt, Nat.add_zero]

theorem unique (h : Split n s bs r) (h' : Split n s bs' r') : bs = bs' ∧ r = r' := by
  induction h generalizing bs' r' with
  | short hs =>
    cases h' with
    | short _ => exact ⟨rfl, rfl⟩
    | block hb _ =>
      rw [List.length_append] at hs
      omega
  | @block b s r bs hb hrest ih =>
    generalize hall : b ++ s = all at h'
    cases h' with
    | short hs =>
      rw [← hall, List.length_append] at hs
      omega
    | block hb' hrest' =>
      obtain ⟨rfl, rfl⟩ := List.append_inj hall (hb.trans hb'.symm)
      obtain ⟨rfl, rfl⟩ := ih hrest'
      exact ⟨rfl, rfl⟩

/-- What is left of one piece is cut together with the next one. -/
theorem append (h : Split n s bs r) (h' : Split n (r ++ t) bs' r') :
    Split n (s ++ t) (bs ++ bs') r' := by
  induction h with
  | short _ => exact h'
  | block hb _ ih =>
    rw [List.append_assoc]
    exact .block hb (ih h')

end Split

/-- The blocks from the start of a range rounded down to its end rounded up are those that
begin before its end and end after its start. -/
theorem block_meets_iff {b o len : ℕ} (hn : 0 < n) :
    (o / n ≤ b ∧ b < (o + len + n - 1) / n) ↔ b * n < o + len ∧ o < b * n + n := by
  have hstart : o / n ≤ b ↔ o < b * n + n := by
    rw [← Nat.lt_succ_iff, Nat.div_lt_iff_lt_mul hn, Nat.succ_mul]
  have hend : b < (o + len + n - 1) / n ↔ b * n < o + len := by
    rw [← Nat.succ_le_iff, Nat.le_div_iff_mul_le hn, Nat.succ_mul]
    omega
  rw [hstart, hend, and_comm]

end ObsFuse.Lib
