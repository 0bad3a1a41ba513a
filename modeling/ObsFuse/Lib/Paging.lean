import Mathlib.Data.List.Nodup
import Mathlib.Algebra.Ring.Nat

/-! # Reading a list in pages, by the key of the last item

A page begins after the first item that has the marker as its key, and takes some items. The
key of the last item taken is the next marker. -/

namespace ObsFuse.Lib

variable {α κ : Type*} [DecidableEq κ] (key : α → κ)

/-- The items after the first one that has the key. -/
def afterKey (k : κ) : List α → List α
  | [] => []
  | x :: xs => if key x = k then xs else afterKey k xs

def afterMarker (l : List α) : Option κ → List α
  | none => l
  | some k => afterKey key k l

def nextMarker (marker : Option κ) (page : List α) : Option κ :=
  (page.getLast?.map key).or marker

/-- The items of the pages that take the given numbers of items, one page after the other. -/
def scan (l : List α) : Option κ → List ℕ → List α
  | _, [] => []
  | marker, n :: ns =>
    let page := (afterMarker key l marker).take n
    page ++ scan l (nextMarker key marker page) ns

variable {key} {l : List α}

theorem afterKey_append {k : κ} {a b : List α} (h : k ∉ a.map key) :
    afterKey key k (a ++ b) = afterKey key k b := by
  induction a with
  | nil => rfl
  | cons x xs ih =>
    rw [List.map_cons, List.mem_cons, not_or] at h
    rw [List.cons_append, afterKey, if_neg (Ne.symm h.1), ih h.2]

theorem map_afterMarker (marker : Option κ) :
    (afterMarker key l marker).map key = afterMarker id (l.map key) marker := by
  cases marker with
  | none => rfl
  | some k =>
    show (afterKey key k l).map key = afterKey id k (l.map key)
    induction l with
    | nil => rfl
    | cons x xs ih =>
      rw [List.map_cons, afterKey, afterKey, id_eq]
      by_cases h : key x = k
      · rw [if_pos h, if_pos h]
      · rw [if_neg h, if_neg h, ih]

omit [DecidableEq κ] in
theorem nextMarker_nil (marker : Option κ) : nextMarker key marker [] = marker := rfl

/-- Each page goes on where the pages before have ended. -/
theorem afterMarker_take (hnodup : (l.map key).Nodup) (marker : Option κ) {m : ℕ}
    (h : afterMarker key l marker = l.drop m) (n : ℕ) :
    afterMarker key l (nextMarker key marker ((l.drop m).take n)) = l.drop (m + n) := by
  rcases List.eq_nil_or_concat ((l.drop m).take n) with hnil | ⟨page, last, hpage⟩
  · rw [hnil, nextMarker_nil, h]
    rcases List.take_eq_nil_iff.mp hnil with hzero | hend
    · rw [hzero, Nat.add_zero]
    · rw [hend, List.drop_of_length_le]
      have hlen := List.drop_eq_nil_iff.mp hend
      omega
  · rw [List.concat_eq_append] at hpage
    have hsplit : l = l.take m ++ page ++ last :: l.drop (m + n) := by
      have hdrop : (l.drop m).take n ++ (l.drop m).drop n = l.drop m := List.take_append_drop ..
      rw [hpage, List.drop_drop] at hdrop
      calc l = l.take m ++ l.drop m := (List.take_append_drop m l).symm
        _ = l.take m ++ (page ++ [last] ++ l.drop (m + n)) := by rw [hdrop]
        _ = l.take m ++ page ++ last :: l.drop (m + n) := by simp
    have hfirst : key last ∉ (l.take m ++ page).map key := by
      rw [hsplit, List.map_append, List.nodup_append] at hnodup
      intro hmem
      exact hnodup.2.2 _ hmem _ (List.mem_cons_self ..) rfl
    have hmarker : nextMarker key marker ((l.drop m).take n) = some (key last) := by
      unfold nextMarker
      rw [hpage, List.getLast?_concat]
      rfl
    rw [hmarker, afterMarker]
    conv_lhs => rw [hsplit]
    rw [afterKey_append hfirst, afterKey, if_pos rfl]

theorem scan_eq_take (hnodup : (l.map key).Nodup) (marker : Option κ) {m : ℕ}
    (h : afterMarker key l marker = l.drop m) (ns : List ℕ) :
    scan key l marker ns = (l.drop m).take ns.sum := by
  induction ns generalizing marker m with
  | nil => rfl
  | cons n ns ih =>
    have hnext := afterMarker_take hnodup marker h n
    rw [scan, h, ih _ hnext, List.sum_cons, List.take_add, List.drop_drop]

/-- A key that repeats leads the scan back: after the item at `i`, it goes on after the first
item of that key. -/
theorem afterKey_get {i : ℕ} (hi : i < l.length) :
    ∃ j ≤ i, afterKey key (key l[i]) l = l.drop (j + 1) ∧
      ∀ k, k < i → ∀ hk : k < l.length, key l[k] = key l[i] → j ≤ k := by
  induction l generalizing i with
  | nil => exact absurd hi (Nat.not_lt_zero i)
  | cons x xs ih =>
    rw [afterKey]
    split
    · next hx =>
      exact ⟨0, Nat.zero_le i, rfl, fun k _ _ _ => Nat.zero_le k⟩
    · next hx =>
      cases i with
      | zero => exact absurd rfl hx
      | succ i =>
        obtain ⟨j, hj, hdrop, hleast⟩ := ih (Nat.lt_of_succ_lt_succ hi)
        refine ⟨j + 1, Nat.succ_le_succ hj, hdrop, fun k hk hlen heq => ?_⟩
        cases k with
        | zero => exact absurd heq hx
        | succ k =>
          exact Nat.succ_le_succ (hleast k (Nat.lt_of_succ_lt_succ hk) (Nat.lt_of_succ_lt_succ hlen)
            heq)

/-- With at most one item a page, a list with a repeated key is never read to its end. -/
theorem length_scan_single {j k : ℕ} (hjk : j < k) (hj : j < l.length) (hk : k < l.length)
    (hsame : key l[j] = key l[k]) (marker : Option κ) {m : ℕ} (hm : m ≤ k)
    (h : afterMarker key l marker = l.drop m) {ns : List ℕ} (hns : ∀ n ∈ ns, n ≤ 1) :
    (scan key l marker ns).length = ns.sum := by
  induction ns generalizing marker m with
  | nil => rfl
  | cons n ns ih =>
    have htail : ∀ n ∈ ns, n ≤ 1 := fun n hn => hns n (List.mem_cons_of_mem _ hn)
    have hlt : m < l.length := Nat.lt_of_le_of_lt hm hk
    rcases Nat.le_one_iff_eq_zero_or_eq_one.mp (hns n (List.mem_cons_self ..)) with rfl | rfl
    · rw [scan, List.take_zero, nextMarker_nil, List.nil_append, ih marker hm h htail,
        List.sum_cons, Nat.zero_add]
    · have hpage : (l.drop m).take 1 = [l[m]] := by
        rw [List.drop_eq_getElem_cons hlt]
        rfl
      obtain ⟨i, hi, hnext, hleast⟩ := @afterKey_get _ _ _ key l m hlt
      have hback : i + 1 ≤ k := by
        rcases Nat.lt_or_eq_of_le hm with hbefore | heq
        · omega
        · have hfirst := hleast j (by omega) hj (by simp only [heq]; exact hsame)
          omega
      have hrest : afterMarker key l (nextMarker key marker [l[m]]) = l.drop (i + 1) := hnext
      rw [scan, h, hpage, List.length_append, ih _ hback hrest htail, List.sum_cons]
      rfl

theorem length_scan_of_repeat (hrepeat : ¬(l.map key).Nodup) {ns : List ℕ}
    (hns : ∀ n ∈ ns, n ≤ 1) : (scan key l none ns).length = ns.sum := by
  rw [List.nodup_iff_getElem?_ne_getElem?] at hrepeat
  push Not at hrepeat
  obtain ⟨j, k, hjk, hk, heq⟩ := hrepeat
  rw [List.length_map] at hk
  have hj : j < l.length := Nat.lt_trans hjk hk
  rw [List.getElem?_map, List.getElem?_map, List.getElem?_eq_getElem hj,
    List.getElem?_eq_getElem hk] at heq
  exact length_scan_single hjk hj hk (Option.some.inj heq) none (Nat.zero_le k)
    List.drop_zero.symm hns

end ObsFuse.Lib
