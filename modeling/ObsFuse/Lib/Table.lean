import Mathlib.Data.List.AList
import Mathlib.Algebra.Ring.Nat

/-! # Finite maps

`Table K V` is Mathlib's association list with distinct keys, at a constant value
type. Added here: in-place modification of one value, restriction to the entries
that pass a test, and lookup equations with the key comparison on the right. -/

namespace ObsFuse.Lib

/-- A finite map; the order of its entries carries no meaning. -/
abbrev Table (K V : Type*) := AList (fun _ : K => V)

namespace Table

variable {K V : Type*} [DecidableEq K]

theorem lookup_insert_if (t : Table K V) (k k' : K) (v : V) :
    AList.lookup k' (AList.insert k v t) = if k' = k then some v else AList.lookup k' t := by
  split
  · next h => subst h; exact AList.lookup_insert t
  · next h => exact AList.lookup_insert_ne h

/-- What is found after an insertion is what was inserted, or was there under another key. -/
theorem lookup_insert_cases {t : Table K V} {k k' : K} {v w : V}
    (h : AList.lookup k' (AList.insert k v t) = some w) :
    k' = k ∧ w = v ∨ k' ≠ k ∧ AList.lookup k' t = some w := by
  rw [lookup_insert_if] at h
  split at h
  · next heq => exact .inl ⟨heq, (Option.some.inj h).symm⟩
  · next hne => exact .inr ⟨hne, h⟩

theorem forall_lookup_insert {t : Table K V} {P : V → Prop}
    (h : ∀ k, ∀ v ∈ AList.lookup k t, P v) (k : K) {v : V} (hv : P v) :
    ∀ k', ∀ w ∈ AList.lookup k' (AList.insert k v t), P w := by
  intro k' w hw
  rw [Option.mem_def, lookup_insert_if] at hw
  split at hw
  · rw [← Option.some.inj hw]
    exact hv
  · exact h k' w hw

theorem lookup_erase_if (t : Table K V) (k k' : K) :
    AList.lookup k' (AList.erase k t) = if k' = k then none else AList.lookup k' t := by
  split
  · next h => subst h; exact AList.lookup_erase k' t
  · next h => exact AList.lookup_erase_ne h

theorem lookup_of_erase {t : Table K V} {k k' : K} {v : V}
    (h : AList.lookup k' (AList.erase k t) = some v) : AList.lookup k' t = some v := by
  rw [lookup_erase_if] at h
  split at h
  · cases h
  · exact h

theorem lookup_erase_or (t : Table K V) (k k' : K) :
    AList.lookup k' (AList.erase k t) = none ∨
      AList.lookup k' (AList.erase k t) = AList.lookup k' t := by
  rw [lookup_erase_if]
  split
  · exact .inl rfl
  · exact .inr rfl

/-- Removals one after the other take away what is under one of their keys. -/
theorem lookup_foldl_erase {ε : Type*} (key : ε → K) (es : List ε) (t : Table K V) (k : K) :
    AList.lookup k (es.foldl (fun t e => t.erase (key e)) t) =
      if k ∈ es.map key then none else AList.lookup k t := by
  induction es generalizing t with
  | nil => rfl
  | cons e es ih =>
    rw [List.foldl_cons, ih, lookup_erase_if, List.map_cons]
    by_cases hrest : k ∈ es.map key
    · rw [if_pos hrest, if_pos (List.mem_cons_of_mem _ hrest)]
    · by_cases hkey : k = key e
      · rw [if_neg hrest, if_pos hkey, if_pos (List.mem_cons.mpr (.inl hkey))]
      · have hnot : k ∉ key e :: es.map key := by
          intro hin
          rcases List.mem_cons.mp hin with heq | htail
          · exact hkey heq
          · exact hrest htail
        rw [if_neg hrest, if_neg hkey, if_neg hnot]

theorem lookup_of_foldl_erase {ε : Type*} {key : ε → K} {es : List ε} {t : Table K V} {k : K}
    {v : V} (h : AList.lookup k (es.foldl (fun t e => t.erase (key e)) t) = some v) :
    AList.lookup k t = some v := by
  rw [lookup_foldl_erase] at h
  split at h
  · cases h
  · exact h

def modify (t : Table K V) (k : K) (f : V → V) : Table K V :=
  match t.lookup k with
  | some v => t.insert k (f v)
  | none => t

theorem lookup_modify (t : Table K V) (k k' : K) (f : V → V) :
    AList.lookup k' (t.modify k f) =
      if k' = k then (AList.lookup k t).map f else AList.lookup k' t := by
  unfold modify
  split
  · next v hv => simp only [lookup_insert_if, hv, Option.map_some]
  · next hn =>
    by_cases h : k' = k
    · subst h; simp [hn]
    · simp [h]

/-- What holds of all values holds after a modification exactly when it holds of the new one. -/
theorem forall_lookup_modify_iff {t : Table K V} {P : V → Prop}
    (h : ∀ k, ∀ v ∈ AList.lookup k t, P v) (k : K) (f : V → V) :
    (∀ k', ∀ w ∈ AList.lookup k' (t.modify k f), P w) ↔ ∀ v ∈ AList.lookup k t, P (f v) := by
  constructor
  · intro hall v hv
    apply hall k
    rw [lookup_modify, if_pos rfl]
    exact Option.mem_map_of_mem f hv
  · intro hnew k' w hw
    rw [Option.mem_def, lookup_modify] at hw
    split at hw
    · obtain ⟨v, hv, hfv⟩ := Option.map_eq_some_iff.mp hw
      rw [← hfv]
      exact hnew v hv
    · exact h k' w hw

def keep (t : Table K V) (p : K → V → Bool) : Table K V :=
  ⟨t.entries.filter fun e => p e.1 e.2, t.nodupKeys.sublist (List.filter_sublist ..)⟩

omit [DecidableEq K] in
theorem mem_keep_entries (t : Table K V) (p : K → V → Bool) (k : K) (v : V) :
    (⟨k, v⟩ : Sigma fun _ : K => V) ∈ (t.keep p).entries ↔
      (⟨k, v⟩ : Sigma fun _ : K => V) ∈ t.entries ∧ p k v = true := by
  simp only [keep, List.mem_filter]

theorem lookup_keep (t : Table K V) (p : K → V → Bool) (k : K) :
    AList.lookup k (t.keep p) = (AList.lookup k t).filter (p k) := by
  ext v
  rw [← Option.mem_def, AList.mem_lookup_iff, mem_keep_entries, ← AList.mem_lookup_iff,
    Option.mem_def, Option.filter_eq_some_iff]

theorem lookup_of_mem_entries (t : Table K V) {k : K} {v : V}
    (h : (⟨k, v⟩ : Sigma fun _ : K => V) ∈ t.entries) : AList.lookup k t = some v :=
  AList.mem_lookup_iff.mpr h

theorem mem_entries_of_lookup (t : Table K V) {k : K} {v : V} (h : AList.lookup k t = some v) :
    (⟨k, v⟩ : Sigma fun _ : K => V) ∈ t.entries :=
  AList.mem_lookup_iff.mp h

theorem length_erase_lt (t : Table K V) {k : K} {v : V}
    (h : (⟨k, v⟩ : Sigma fun _ : K => V) ∈ t.entries) :
    (t.erase k).entries.length < t.entries.length := by
  have hk : k ∈ t.entries.keys := List.mem_map_of_mem h
  obtain ⟨w, l₁, l₂, -, hl, he⟩ := List.exists_of_kerase hk
  show (t.entries.kerase k).length < t.entries.length
  rw [he, hl]
  simp

theorem length_erase_le (t : Table K V) (k : K) :
    (t.erase k).entries.length ≤ t.entries.length :=
  (List.kerase_sublist k t.entries).length_le

theorem length_foldl_erase_le {ε : Type*} (key : ε → K) (es : List ε) (t : Table K V) :
    (es.foldl (fun t e => t.erase (key e)) t).entries.length ≤ t.entries.length := by
  induction es generalizing t with
  | nil => exact Nat.le_refl _
  | cons e es ih => exact Nat.le_trans (ih (t.erase (key e))) (t.length_erase_le (key e))

end Table

/-- An order in which the entries of a hash map are visited: any permutation of them. -/
structure IterOrder (α : Type*) where
  visit : List α → List α
  perm : ∀ l, (visit l).Perm l

def IterOrder.storage {α : Type*} : IterOrder α := ⟨id, fun _ => .rfl⟩

theorem IterOrder.mem_visit {α : Type*} (o : IterOrder α) {a : α} {l : List α} :
    a ∈ o.visit l ↔ a ∈ l :=
  (o.perm l).mem_iff

end ObsFuse.Lib
