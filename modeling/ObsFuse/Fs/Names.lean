import ObsFuse.Fs.InodeNames

/-! # File names within paths

The last component of a path, and the paths that a directory gives its entries. -/

namespace ObsFuse
open Lib

theorem trimEnd_of_getLast? {s : Str} (h : s.getLast? ≠ some '/') : trimEnd s = s := by
  unfold trimEnd
  rw [List.rdropWhile_eq_self_iff]
  intro hne hlast
  apply h
  rw [List.getLast?_eq_some_getLast hne]
  exact congrArg some (of_decide_eq_true hlast)

theorem trimStart_of_head? {s : Str} (h : s.head? ≠ some '/') : trimStart s = s := by
  unfold trimStart
  rw [List.dropWhile_eq_self_iff]
  intro hlen hfirst
  apply h
  rw [List.head?_eq_getElem?, List.getElem?_eq_getElem hlen]
  exact congrArg some (of_decide_eq_true hfirst)

theorem trimEnd_eq_self {s : Str} (h : '/' ∉ s) : trimEnd s = s :=
  trimEnd_of_getLast? fun hlast => h (List.mem_of_getLast? hlast)

theorem trimStart_eq_self {s : Str} (h : '/' ∉ s) : trimStart s = s :=
  trimStart_of_head? fun hhead => h (List.mem_of_head? hhead)

theorem normalizePath_eq_self {s : Str} (h : '/' ∉ s) : normalizePath s = s := by
  unfold normalizePath
  rw [trimStart_eq_self h, trimEnd_eq_self h]

theorem trimEnd_concat (s : Str) (c : Char) :
    trimEnd (s ++ [c]) = if c = '/' then trimEnd s else s ++ [c] := by
  unfold trimEnd
  rw [List.rdropWhile_concat]
  simp only [decide_eq_true_eq]

theorem trimStart_concat (s : Str) (c : Char) :
    trimStart (s ++ [c]) =
      if trimStart s = [] ∧ c = '/' then [] else trimStart s ++ [c] := by
  unfold trimStart
  rw [List.dropWhile_append]
  by_cases hs : List.dropWhile (fun c : Char => decide (c = '/')) s = []
  · rw [hs]
    by_cases hc : c = '/'
    · simp [hc]
    · simp [hc]
  · simp [hs]

theorem trimStart_trimEnd (s : Str) : trimStart (trimEnd s) = normalizePath s := by
  unfold normalizePath
  induction s using List.reverseRecOn with
  | nil => rfl
  | append_singleton s c ih =>
    rw [trimEnd_concat, trimStart_concat]
    by_cases hc : c = '/'
    · rw [if_pos hc, ih]
      by_cases hs : trimStart s = []
      · rw [if_pos ⟨hs, hc⟩, hs]
      · rw [if_neg fun h => hs h.1, trimEnd_concat, if_pos hc]
    · rw [if_neg hc, if_neg fun h => hc h.2, trimEnd_concat, if_neg hc, trimStart_concat,
        if_neg fun h => hc h.2]

/-! ### The last component -/

theorem noSlash_or_last (s : Str) : '/' ∉ s ∨ ∃ a b, s = a ++ '/' :: b ∧ '/' ∉ b := by
  induction s with
  | nil => exact .inl List.not_mem_nil
  | cons c s ih =>
    rcases ih with hs | ⟨a, b, hs, hb⟩
    · by_cases hc : c = '/'
      · exact .inr ⟨[], s, by rw [hc, List.nil_append], hs⟩
      · left
        rw [List.mem_cons, not_or]
        exact ⟨fun h => hc h.symm, hs⟩
    · exact .inr ⟨c :: a, b, by rw [hs, List.cons_append], hb⟩

theorem getLast?_splitOn_append (a : Str) {b : Str} (hb : '/' ∉ b) :
    ((a ++ '/' :: b).splitOn '/').getLast? = some b := by
  rw [List.splitOn_append_cons_self, List.splitOn_eq_singleton hb, List.getLast?_concat]

theorem fileName_of_trimEnd {p a b : Str} (hp : trimEnd p = a ++ '/' :: b) (hb : '/' ∉ b) :
    fileName p = b := by
  simp only [fileName]
  rw [hp, getLast?_splitOn_append a hb]
  rfl

theorem fileName_of_noSlash {p : Str} (hp : '/' ∉ trimEnd p) : fileName p = trimEnd p := by
  simp only [fileName]
  rw [List.splitOn_eq_singleton hp]
  rfl

theorem fileName_noSlash (p : Str) : '/' ∉ fileName p := by
  rcases noSlash_or_last (trimEnd p) with h | ⟨a, b, h, hb⟩
  · rw [fileName_of_noSlash h]
    exact h
  · rw [fileName_of_trimEnd h hb]
    exact hb

theorem fileName_concat_slash (p : Str) : fileName (p ++ ['/']) = fileName p := by
  unfold fileName
  rw [trimEnd_concat, if_pos rfl]

/-! ### The first component -/

def firstComponent (path : Str) : Str := path.takeWhile (· ≠ '/')

theorem firstComponent_noSlash (path : Str) : '/' ∉ firstComponent path := by
  intro h
  have hc := List.mem_takeWhile_imp h
  simp at hc

theorem firstComponent_append {name : Str} (h : '/' ∉ name) (rest : Str) :
    firstComponent (name ++ '/' :: rest) = name := by
  unfold firstComponent
  rw [List.takeWhile_append_of_pos, List.takeWhile_cons_of_neg (by simp), List.append_nil]
  intro c hc
  rw [decide_eq_true_eq]
  intro heq
  exact h (heq ▸ hc)

theorem firstComponent_eq_self {name : Str} (h : '/' ∉ name) : firstComponent name = name := by
  unfold firstComponent
  rw [List.takeWhile_eq_self_iff]
  intro c hc
  rw [decide_eq_true_eq]
  intro heq
  exact h (heq ▸ hc)

theorem noSlash_or_first (path : Str) :
    '/' ∉ path ∨ ∃ rest, path = firstComponent path ++ '/' :: rest := by
  induction path with
  | nil => exact .inl List.not_mem_nil
  | cons c path ih =>
    by_cases hc : c = '/'
    · right
      refine ⟨path, ?_⟩
      rw [hc]
      rfl
    · have hfirst : firstComponent (c :: path) = c :: firstComponent path :=
        List.takeWhile_cons_of_pos (by simpa using hc)
      rcases ih with hno | ⟨rest, hrest⟩
      · left
        rw [List.mem_cons, not_or]
        exact ⟨fun h => hc h.symm, hno⟩
      · right
        refine ⟨rest, ?_⟩
        rw [hfirst, List.cons_append, ← hrest]

/-! ### The paths of a directory's entries -/

theorem normalizePath_joinPath (path : Str) {name : Str} (hname : '/' ∉ name) (hne : name ≠ []) :
    normalizePath (joinPath path name) =
      if normalizePath path = [] then name else normalizePath path ++ '/' :: name := by
  have hself := normalizePath_eq_self hname
  unfold joinPath
  by_cases hpath : path = []
  · rw [if_pos hpath, hself, hpath]
    rfl
  · rw [if_neg hpath]
    show trimEnd (trimStart (trimEnd path ++ '/' :: name)) = _
    unfold trimStart
    rw [List.dropWhile_append]
    show trimEnd (if (trimStart (trimEnd path)).isEmpty then _ else trimStart (trimEnd path) ++ _) =
      _
    rw [trimStart_trimEnd]
    by_cases hroot : normalizePath path = []
    · rw [hroot]
      exact hself
    · rw [if_neg hroot, if_neg]
      · exact trimEnd_append_normal hself hne _
      · rw [List.isEmpty_iff]
        exact hroot

theorem joinPath_of_normal {path name : Str} (hpath : normalizePath path = path) :
    joinPath path name = if path = [] then name else path ++ '/' :: name := by
  have hend : trimEnd path = path := by
    rw [← hpath]
    exact trimEnd_trimEnd _
  simp only [joinPath]
  rw [hend]

theorem joinPath_normal {path name : Str} (hpath : normalizePath path = path) (hname : '/' ∉ name)
    (hne : name ≠ []) :
    normalizePath (joinPath path name) = joinPath path name ∧ joinPath path name ≠ [] := by
  rw [normalizePath_joinPath path hname hne, joinPath_of_normal hpath, hpath]
  split
  · exact ⟨rfl, hne⟩
  · exact ⟨rfl, List.append_ne_nil_of_right_ne_nil _ (List.cons_ne_nil _ _)⟩

theorem length_normalizePath_le (path : Str) : (normalizePath path).length ≤ path.length := by
  have hend : (normalizePath path).length ≤ (trimStart path).length :=
    (List.rdropWhile_prefix _ _).length_le
  have hstart : (trimStart path).length ≤ path.length := (List.dropWhile_suffix _).length_le
  exact hend.trans hstart

theorem length_intercalate_take (l : List Str) (n : ℕ) :
    (['/'].intercalate (l.take n)).length ≤ (['/'].intercalate l).length := by
  induction l generalizing n with
  | nil => simp
  | cons x l ih =>
    cases n with
    | zero => simp
    | succ n =>
      have htail := ih n
      rw [List.take_succ_cons]
      by_cases hl : l = []
      · rw [hl, List.take_nil]
      · rw [List.intercalate_cons_of_ne_nil hl]
        by_cases ht : l.take n = []
        · rw [ht, List.intercalate_singleton]
          simp
        · rw [List.intercalate_cons_of_ne_nil ht]
          simp only [List.length_append]
          omega

theorem length_parentPath_le {path parent : Str} (h : parentPath path = some parent) :
    parent.length ≤ (normalizePath path).length := by
  simp only [parentPath] at h
  split at h
  · cases h
  · split at h
    · cases h
      exact Nat.zero_le _
    · cases h
      have hle := length_intercalate_take ((normalizePath path).splitOn '/')
        (((normalizePath path).splitOn '/').length - 1)
      rw [List.intercalate_splitOn] at hle
      exact hle

theorem normalizePath_joinPath_ne_parent {path parent name : Str}
    (h : parentPath path = some parent) (hname : '/' ∉ name) (hne : name ≠ []) :
    normalizePath (joinPath path name) ≠ normalizePath parent := by
  intro heq
  have hroot : normalizePath path ≠ [] := by
    intro hnil
    unfold parentPath at h
    rw [if_pos hnil] at h
    cases h
  have hlen := congrArg List.length heq
  rw [normalizePath_joinPath path hname hne, if_neg hroot, List.length_append,
    List.length_cons] at hlen
  have hparent := (length_normalizePath_le parent).trans (length_parentPath_le h)
  omega

end ObsFuse
