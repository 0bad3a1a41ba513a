import ObsFuse.Lib.Table
import Mathlib.Algebra.BigOperators.Group.List.Basic

/-! # The weight of a finite map

The sum of a weight over the values of a map, and what each update of the map does to
it. The laws are stated without subtraction: `weightAt` is what the map holds under one
key, so that an insertion or a removal needs no case distinction. -/

namespace ObsFuse.Lib

namespace Table

variable {K V : Type*} [DecidableEq K] (w : V → ℕ)

def weight (t : Table K V) : ℕ := (t.entries.map fun e => w e.2).sum

/-- The weight of the value under a key; 0 where there is none. -/
def weightAt (t : Table K V) (k : K) : ℕ := ((t.lookup k).map w).getD 0

section
variable (t : Table K V) (k : K)

omit [DecidableEq K] in
@[simp] theorem weight_empty : weight w (∅ : Table K V) = 0 := rfl

theorem weightAt_of_lookup {v : V} (h : AList.lookup k t = some v) : t.weightAt w k = w v := by
  unfold weightAt
  rw [h]
  rfl

theorem weightAt_of_none (h : AList.lookup k t = none) : t.weightAt w k = 0 := by
  unfold weightAt
  rw [h]
  rfl

/-- After removals, a key weighs nothing exactly when it weighed nothing or was removed. -/
theorem weightAt_eq_zero_iff {t' : Table K V}
    (h : AList.lookup k t' = none ∨ AList.lookup k t' = AList.lookup k t) :
    t'.weightAt w k = 0 ↔ ∀ v ∈ AList.lookup k t, w v = 0 ∨ AList.lookup k t' = none := by
  rcases h with hnone | hsame
  · rw [weightAt_of_none w t' k hnone]
    simp [hnone]
  · cases hlookup : AList.lookup k t with
    | none =>
      rw [hlookup] at hsame
      rw [weightAt_of_none w t' k hsame]
      simp
    | some v =>
      rw [hlookup] at hsame
      rw [weightAt_of_lookup w t' k hsame, hsame]
      simp

theorem weight_erase : weight w (t.erase k) + t.weightAt w k = weight w t := by
  cases h : AList.lookup k t with
  | none =>
    have hout : k ∉ t.entries.keys := AList.lookup_eq_none.mp h
    rw [weightAt_of_none w t k h]
    show ((t.entries.kerase k).map fun e => w e.2).sum + 0 = weight w t
    rw [List.kerase_of_notMem_keys hout]
    rfl
  | some v =>
    have hin : k ∈ t.entries.keys := AList.lookup_isSome.mp (by rw [h]; rfl)
    obtain ⟨v', before, after, -, hentries, herase⟩ := List.exists_of_kerase hin
    have hv : AList.lookup k t = some v' :=
      t.lookup_of_mem_entries (by
        rw [hentries]
        exact List.mem_append_right _ (List.mem_cons_self ..))
    rw [weightAt_of_lookup w t k hv]
    show ((t.entries.kerase k).map fun e => w e.2).sum + w v' = (t.entries.map fun e => w e.2).sum
    rw [herase, hentries]
    simp only [List.map_append, List.map_cons, List.sum_append, List.sum_cons]
    omega

theorem weight_insert (v : V) :
    weight w (t.insert k v) + t.weightAt w k = weight w t + w v := by
  have herase := weight_erase w t k
  have hinsert : weight w (t.insert k v) = w v + weight w (t.erase k) := by
    unfold weight
    rw [AList.entries_insert]
    rfl
  omega

theorem weightAt_le : t.weightAt w k ≤ weight w t := by
  have herase := weight_erase w t k
  omega

omit [DecidableEq K] in
theorem weight_keep (p : K → V → Bool) :
    weight w (t.keep p) + ((t.entries.filter fun e => !p e.1 e.2).map fun e => w e.2).sum =
      weight w t := by
  have hperm := (List.filter_append_perm (fun e => p e.1 e.2) t.entries).map fun e => w e.2
  have hsum := hperm.sum_eq
  rw [List.map_append, List.sum_append] at hsum
  exact hsum

end

omit [DecidableEq K] in
theorem weight_one (t : Table K V) : weight (fun _ => 1) t = t.entries.length := by
  unfold weight
  rw [List.map_const', List.sum_replicate_nat, Nat.mul_one]

theorem weightAt_one (t : Table K V) (k : K) :
    t.weightAt (fun _ => 1) k = if k ∈ t then 1 else 0 := by
  by_cases hin : k ∈ t
  · obtain ⟨v, hv⟩ := Option.isSome_iff_exists.mp (AList.lookup_isSome.mpr hin)
    rw [weightAt_of_lookup _ t k hv, if_pos hin]
  · rw [weightAt_of_none _ t k (AList.lookup_eq_none.mpr hin), if_neg hin]

end Table

end ObsFuse.Lib
