import Mathlib.Data.List.Induction
import Mathlib.Order.Lattice
import Mathlib.Data.Nat.Basic
import Mathlib.Tactic.Common

/-! # Overlaying sequences

The effect of positional writes on a sequence over an arbitrary alphabet with a
fill element `z`: a write of `d` at `off` puts `d` at the positions
`off, …, off + |d| - 1`, keeps every other element and fills a gap past the old
end with `z`. An empty write has no effect. -/

namespace ObsFuse.Lib

variable {α : Type*}

/-- The sequence `old` with `d` written at offset `off`. -/
def overlay (z : α) (old : List α) (off : ℕ) (d : List α) : List α :=
  if d = [] then old
  else (old.take off ++ List.replicate (off - old.length) z) ++ d ++ old.drop (off + d.length)

/-- The writes `(offset, data)` of `ws` taken in order. -/
def overlays (z : α) (old : List α) (ws : List (ℕ × List α)) : List α :=
  ws.foldl (fun old w => overlay z old w.1 w.2) old

@[simp] theorem overlay_nil (z : α) (old : List α) (off : ℕ) : overlay z old off [] = old := by
  simp [overlay]

@[simp] theorem overlays_nil (z : α) (old : List α) : overlays z old [] = old := rfl

@[simp] theorem overlays_cons (z : α) (old : List α) (w : ℕ × List α) (ws : List (ℕ × List α)) :
    overlays z old (w :: ws) = overlays z (overlay z old w.1 w.2) ws := rfl

theorem overlays_append (z : α) (old : List α) (ws vs : List (ℕ × List α)) :
    overlays z old (ws ++ vs) = overlays z (overlays z old ws) vs :=
  List.foldl_append ..

theorem length_overlay (z : α) (old : List α) (off : ℕ) (d : List α) :
    (overlay z old off d).length =
      if d = [] then old.length else max old.length (off + d.length) := by
  unfold overlay
  split
  · rfl
  · simp only [List.length_append, List.length_take, List.length_replicate, List.length_drop]
    omega

theorem getElem?_overlay (z : α) (old : List α) (off : ℕ) (d : List α) (hd : d ≠ []) (x : ℕ) :
    (overlay z old off d)[x]? =
      if off ≤ x ∧ x < off + d.length then d[x - off]?
      else if old.length ≤ x ∧ x < off then some z else old[x]? := by
  have hpre : (old.take off ++ List.replicate (off - old.length) z).length = off := by
    simp only [List.length_append, List.length_take, List.length_replicate]
    omega
  simp only [overlay, hd, if_false]
  by_cases h1 : x < off
  · rw [List.getElem?_append_left (by simp only [List.length_append, hpre]; omega),
      List.getElem?_append_left (by omega), if_neg (by omega)]
    by_cases h2 : old.length ≤ x
    · rw [if_pos ⟨h2, h1⟩, List.getElem?_append_right (by simp only [List.length_take]; omega),
        List.getElem?_replicate, if_pos (by simp only [List.length_take]; omega)]
    · rw [if_neg (by omega), List.getElem?_append_left (by simp only [List.length_take]; omega),
        List.getElem?_take_of_lt h1]
  · by_cases h2 : x < off + d.length
    · rw [if_pos ⟨by omega, h2⟩,
        List.getElem?_append_left (by simp only [List.length_append, hpre]; omega),
        List.getElem?_append_right (by omega), hpre]
    · rw [if_neg (by omega), if_neg (by omega),
        List.getElem?_append_right (by simp only [List.length_append, hpre]; omega),
        List.length_append, hpre, List.getElem?_drop]
      congr 1
      omega

theorem overlay_eq_self (z : α) (old : List α) (d : List α) (h : old.length ≤ d.length) :
    overlay z old 0 d = d := by
  by_cases hd : d = []
  · have hc : old = [] := by simpa [hd] using h
    simp [hd, hc]
  · simp [overlay, hd, List.drop_eq_nil_of_le h]

theorem overlay_eq_data_iff (z : α) (old : List α) (off : ℕ) (d : List α) (hd : d ≠ []) :
    overlay z old off d = d ↔ off = 0 ∧ old.length ≤ d.length := by
  constructor
  · intro h
    have hl := congrArg List.length h
    rw [length_overlay, if_neg hd] at hl
    omega
  · intro hc
    obtain ⟨rfl, h⟩ := hc
    exact overlay_eq_self z old d h

theorem overlay_overlay (z : α) (old : List α) (off : ℕ) (d e : List α) (hd : d ≠ []) :
    overlay z (overlay z old off d) (off + d.length) e = overlay z old off (d ++ e) := by
  by_cases he : e = []
  · simp [he]
  apply List.ext_getElem?
  intro x
  have hde : d ++ e ≠ [] := by simp [hd]
  rw [getElem?_overlay z _ _ _ he, getElem?_overlay z _ _ _ hde, getElem?_overlay z old _ _ hd,
    length_overlay, if_neg hd, List.length_append]
  by_cases h1 : off ≤ x ∧ x < off + d.length
  · rw [if_neg (by omega), if_neg (by omega), if_pos h1, if_pos (by omega),
      List.getElem?_append_left (by omega)]
  · by_cases h2 : off + d.length ≤ x ∧ x < off + d.length + e.length
    · rw [if_pos h2, if_pos (by omega), List.getElem?_append_right (by omega)]
      congr 1
      omega
    · have h3 : ¬(off ≤ x ∧ x < off + (d.length + e.length)) := by omega
      rw [if_neg h2, if_neg (by omega), if_neg h1, if_neg h3]

/-- The length of the sequence after the writes of `ws`. -/
def extent (n : ℕ) : List (ℕ × List α) → ℕ
  | [] => n
  | w :: ws => extent (if w.2 = [] then n else max n (w.1 + w.2.length)) ws

theorem length_overlays (z : α) (old : List α) (ws : List (ℕ × List α)) :
    (overlays z old ws).length = extent old.length ws := by
  induction ws generalizing old with
  | nil => rfl
  | cons w ws ih => rw [overlays_cons, ih, length_overlay, extent]

/-- The element due at position `x`: that of the last write that covers `x`, else the
old one, else the fill element where a later write left a gap. -/
def due (z : α) (old : List α) (ws : List (ℕ × List α)) (x : ℕ) : Option α :=
  match ws.reverse.find? fun w => w.1 ≤ x ∧ x < w.1 + w.2.length with
  | some w => w.2[x - w.1]?
  | none => if x < old.length then old[x]? else if x < extent old.length ws then some z else none

theorem extent_append (n : ℕ) (ws vs : List (ℕ × List α)) :
    extent n (ws ++ vs) = extent (extent n ws) vs := by
  induction ws generalizing n with
  | nil => rfl
  | cons w ws ih => exact ih _

theorem le_extent (n : ℕ) (ws : List (ℕ × List α)) : n ≤ extent n ws := by
  induction ws generalizing n with
  | nil => exact le_rfl
  | cons w ws ih =>
    refine le_trans ?_ (ih _)
    split <;> omega

/-- Writing in order gives every position the element due there. -/
theorem getElem?_overlays (z : α) (old : List α) (ws : List (ℕ × List α)) (x : ℕ) :
    (overlays z old ws)[x]? = due z old ws x := by
  induction ws using List.reverseRecOn with
  | nil =>
    simp only [overlays_nil, due, List.reverse_nil, List.find?_nil, extent]
    by_cases h : x < old.length
    · simp [h]
    · simp [h]
  | append_singleton ws w ih =>
    have hlen := length_overlays z old ws
    have hle := le_extent old.length ws
    simp only [overlays_append, overlays_cons, overlays_nil, due, List.reverse_append,
      List.reverse_singleton, List.singleton_append, List.find?_cons, extent_append, extent]
    by_cases hw : w.2 = []
    · have hno : ¬(w.1 ≤ x ∧ x < w.1 + w.2.length) := by simp [hw]
      simp only [hw, overlay_nil, List.length_nil, if_true] at hno ⊢
      simp only [hno, decide_false]
      exact ih
    · rw [getElem?_overlay z _ _ _ hw, hlen]
      by_cases hin : w.1 ≤ x ∧ x < w.1 + w.2.length
      · simp [hin]
      · simp only [hin, if_false, decide_false, hw]
        rw [ih, due]
        cases hf : ws.reverse.find? fun w => decide (w.1 ≤ x ∧ x < w.1 + w.2.length) with
        | some v =>
          have hx : x < extent old.length ws := by
            have hv := ih
            simp only [due, hf] at hv
            have hp := List.find?_some hf
            simp only [decide_eq_true_eq] at hp
            have hs : (overlays z old ws)[x]?.isSome := by
              rw [hv]; simp; omega
            simpa [hlen] using hs
          rw [if_neg (by omega)]
        | none =>
          by_cases hc : x < old.length
          · rw [if_neg (by omega)]
            simp [hc]
          · by_cases hx : x < extent old.length ws
            · rw [if_neg (by omega)]
              simp only [hc, hx, if_true, if_false]
              rw [if_pos (by omega)]
            · simp only [hc, hx, if_false]
              by_cases hg : x < w.1
              · rw [if_pos ⟨by omega, hg⟩, if_pos (by omega)]
              · rw [if_neg (by omega), if_neg (by omega)]

/-! ### Writes that follow one another -/

/-- Each write starts where the one before it ends; the first one starts at `n`. -/
def Contiguous : ℕ → List (ℕ × List α) → Prop
  | _, [] => True
  | n, w :: ws => w.1 = n ∧ Contiguous (n + w.2.length) ws

instance decidableContiguous : (n : ℕ) → (ws : List (ℕ × List α)) → Decidable (Contiguous n ws)
  | _, [] => isTrue trivial
  | n, w :: ws =>
    have := decidableContiguous (n + w.2.length) ws
    inferInstanceAs (Decidable (w.1 = n ∧ Contiguous (n + w.2.length) ws))

def written (ws : List (ℕ × List α)) : List α := (ws.map (·.2)).flatten

@[simp] theorem written_nil : written ([] : List (ℕ × List α)) = [] := rfl

@[simp] theorem written_cons (w : ℕ × List α) (ws : List (ℕ × List α)) :
    written (w :: ws) = w.2 ++ written ws := rfl

@[simp] theorem written_append (ws vs : List (ℕ × List α)) :
    written (ws ++ vs) = written ws ++ written vs := by
  simp [written]

theorem contiguous_append {n : ℕ} {ws vs : List (ℕ × List α)} :
    Contiguous n (ws ++ vs) ↔ Contiguous n ws ∧ Contiguous (n + (written ws).length) vs := by
  induction ws generalizing n with
  | nil => simp [Contiguous]
  | cons w ws ih =>
    simp only [List.cons_append, Contiguous, ih, written_cons, List.length_append, and_assoc,
      Nat.add_assoc]

theorem overlays_contiguous (z : α) (old : List α) {n : ℕ} {ws : List (ℕ × List α)}
    (h : Contiguous n ws) : overlays z old ws = overlay z old n (written ws) := by
  induction ws using List.reverseRecOn with
  | nil => simp
  | append_singleton ws w ih =>
    obtain ⟨hws, hw, -⟩ := contiguous_append.mp h
    rw [overlays_append, ih hws, overlays_cons, overlays_nil, hw, written_append, written_cons,
      written_nil, List.append_nil]
    by_cases he : written ws = []
    · simp [he]
    · exact overlay_overlay z old n _ _ he

end ObsFuse.Lib
