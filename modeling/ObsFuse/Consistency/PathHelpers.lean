import ObsFuse.Fs.Names

/-! # The path helpers and their inverses

A path that is joined from a parent and a name is taken apart into the two again. -/

namespace ObsFuse

/-- A parent path without slashes at its ends, which may be empty, and the name of an entry. -/
structure EntryOf (parent name : Str) : Prop where
  starts : parent.head? ≠ some '/'
  ends : parent.getLast? ≠ some '/'
  nonempty : name ≠ []
  single : '/' ∉ name

namespace EntryOf
variable {parent name : Str}

theorem normal (h : EntryOf parent name) : normalizePath parent = parent := by
  unfold normalizePath
  rw [trimStart_of_head? h.starts, trimEnd_of_getLast? h.ends]

theorem joinPath_eq (h : EntryOf parent name) :
    joinPath parent name = if parent = [] then name else parent ++ '/' :: name :=
  joinPath_of_normal h.normal

theorem normalizePath_joinPath (h : EntryOf parent name) :
    normalizePath (joinPath parent name) = joinPath parent name :=
  (joinPath_normal h.normal h.single h.nonempty).1

theorem fileName_joinPath (h : EntryOf parent name) : fileName (joinPath parent name) = name := by
  have hname : trimEnd name = name := trimEnd_eq_self h.single
  rw [h.joinPath_eq]
  by_cases hroot : parent = []
  · rw [if_pos hroot, fileName_of_noSlash (by rw [hname]; exact h.single), hname]
  · rw [if_neg hroot]
    have hlast : (parent ++ '/' :: name).getLast? = name.getLast? := by
      rw [List.getLast?_append_of_ne_nil _ (List.cons_ne_nil _ _),
        List.getLast?_cons_of_ne_nil h.nonempty]
    have hend : (parent ++ '/' :: name).getLast? ≠ some '/' := by
      rw [hlast]
      exact fun hslash => h.single (List.mem_of_getLast? hslash)
    exact fileName_of_trimEnd (trimEnd_of_getLast? hend) h.single

theorem parentPath_joinPath (h : EntryOf parent name) :
    parentPath (joinPath parent name) = some parent := by
  have hne := (joinPath_normal h.normal h.single h.nonempty).2
  simp only [parentPath]
  rw [h.normalizePath_joinPath, if_neg hne, h.joinPath_eq]
  by_cases hroot : parent = []
  · rw [if_pos hroot, List.splitOn_eq_singleton h.single, hroot]
    rfl
  · have hparts : (parent ++ '/' :: name).splitOn '/' = parent.splitOn '/' ++ [name] := by
      rw [List.splitOn_append_cons_self, List.splitOn_eq_singleton h.single]
    have hsome : 0 < (parent.splitOn '/').length :=
      List.length_pos_iff.mpr (List.splitOn_ne_nil _ _)
    rw [if_neg hroot, hparts, List.length_append, List.length_singleton, if_neg (by omega),
      Nat.add_sub_cancel, List.take_left, List.intercalate_splitOn]

end EntryOf

/-- The parent and the name of a joined path are those that it was joined from, and it is in
normal form; so no other pair gives the same path. -/
theorem path_helpers_inverse (parent name : Str) (h : EntryOf parent name) :
    parentPath (joinPath parent name) = some parent ∧
      fileName (joinPath parent name) = name ∧
      normalizePath (joinPath parent name) = joinPath parent name ∧
      ∀ parent' name', EntryOf parent' name' →
        joinPath parent' name' = joinPath parent name → parent' = parent ∧ name' = name := by
  refine ⟨h.parentPath_joinPath, h.fileName_joinPath, h.normalizePath_joinPath, ?_⟩
  intro parent' name' h' heq
  have hparent := h'.parentPath_joinPath
  have hname := h'.fileName_joinPath
  rw [heq, h.parentPath_joinPath] at hparent
  rw [heq, h.fileName_joinPath] at hname
  exact ⟨(Option.some.inj hparent).symm, hname.symm⟩

/-- A repeated slash within the parent stays. -/
theorem repeated_slash_kept :
    parentPath "a//b/c".toList = some "a//b".toList ∧ fileName "a//b/c".toList = "c".toList ∧
      normalizePath "a//b/c".toList = "a//b/c".toList ∧
      ∀ parent' name', EntryOf parent' name' →
        joinPath parent' name' = "a//b/c".toList →
          parent' = "a//b".toList ∧ name' = "c".toList :=
  path_helpers_inverse "a//b".toList "c".toList ⟨by decide, by decide, by decide, by decide⟩

end ObsFuse
