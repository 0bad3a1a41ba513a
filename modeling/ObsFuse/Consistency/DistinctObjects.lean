import ObsFuse.Fs.LossyNames
import ObsFuse.Fs.Names
import ObsFuse.Consistency.LiveNames

/-! # The objects of different names

The object of a file is the configured path, the path of the parent directory and the
decoded name, joined by slashes. Joining loses nothing; decoding loses what is not UTF-8. -/

namespace ObsFuse
open Lib

theorem lastSlash_injective {a a' b b' : Str} (hb : '/' ∉ b) (hb' : '/' ∉ b')
    (h : a ++ '/' :: b = a' ++ '/' :: b') : a = a' ∧ b = b' := by
  have hlast : some b = some b' := by
    rw [← getLast?_splitOn_append a hb, ← getLast?_splitOn_append a' hb', h]
  cases hlast
  exact ⟨List.append_cancel_right h, rfl⟩

theorem joinPath_injective {path path' name name' : Str} (hpath : normalizePath path = path)
    (hpath' : normalizePath path' = path') (hname : '/' ∉ name) (hname' : '/' ∉ name')
    (h : joinPath path name = joinPath path' name') : path = path' ∧ name = name' := by
  have hslash : ∀ a b : Str, '/' ∈ a ++ '/' :: b := by
    intro a b
    exact List.mem_append_right a List.mem_cons_self
  rw [joinPath_of_normal hpath, joinPath_of_normal hpath'] at h
  by_cases hnil : path = []
  · by_cases hnil' : path' = []
    · rw [if_pos hnil, if_pos hnil'] at h
      exact ⟨hnil.trans hnil'.symm, h⟩
    · rw [if_pos hnil, if_neg hnil'] at h
      exact absurd (h ▸ hslash path' name') hname
  · by_cases hnil' : path' = []
    · rw [if_neg hnil, if_pos hnil'] at h
      exact absurd (h ▸ hslash path name) hname'
    · rw [if_neg hnil, if_neg hnil'] at h
      exact lastSlash_injective hname hname' h

namespace ObsFsCore

/-- The objects of two names are the same one only if the names are in the same directory
and decode to the same string. -/
theorem obsPath_childPath_eq_iff (s : ObsFsCore) {path path' : Str} {name name' : OsStr}
    (hpath : normalizePath path = path) (hpath' : normalizePath path' = path')
    (hne : name ≠ []) (hne' : name' ≠ []) (hslash : '/'.toUInt8 ∉ name)
    (hslash' : '/'.toUInt8 ∉ name') :
    s.obsPath (childPath path name) = s.obsPath (childPath path' name') ↔
      path = path' ∧ Alike name name' := by
  have hdec := toStringLossy_noSlash hslash
  have hdec' := toStringLossy_noSlash hslash'
  refine ⟨?_, ?_⟩
  · intro h
    have hchild := s.obsPath_injective
      (joinPath_normal hpath hdec (toStringLossy_ne_nil hne)).1
      (joinPath_normal hpath' hdec' (toStringLossy_ne_nil hne')).1 h
    obtain ⟨hparent, hname⟩ := joinPath_injective hpath hpath' hdec hdec' hchild
    exact ⟨hparent, (toStringLossy_eq_iff name name').mp hname⟩
  · rintro ⟨rfl, halike⟩
    rw [childPath, childPath, (toStringLossy_eq_iff name name').mpr halike]

end ObsFsCore

/-- Two names have different objects exactly when they are not two names in one directory
that differ only in parts decoded as `U+FFFD`. -/
theorem distinct_objects_iff (s : ObsFsCore) (path path' : Str) (name name' : OsStr)
    (hpath : normalizePath path = path) (hpath' : normalizePath path' = path')
    (hne : name ≠ []) (hne' : name' ≠ []) (hslash : '/'.toUInt8 ∉ name)
    (hslash' : '/'.toUInt8 ∉ name') :
    (s.obsPath (ObsFsCore.childPath path name) = s.obsPath (ObsFsCore.childPath path' name') →
        path = path' ∧ name = name') ↔
      ¬(path = path' ∧ name ≠ name' ∧ Alike name name') := by
  rw [s.obsPath_childPath_eq_iff hpath hpath' hne hne' hslash hslash']
  refine ⟨?_, ?_⟩
  · rintro h ⟨hparent, hdiff, halike⟩
    exact hdiff (h ⟨hparent, halike⟩).2
  · rintro h ⟨hparent, halike⟩
    refine ⟨hparent, ?_⟩
    by_contra hdiff
    exact h ⟨hparent, hdiff, halike⟩

/-- A name that is not UTF-8 and one that is, in a directory of a mount with a prefix. -/
theorem decodable_name_has_its_own_object :
    let s := { emptyMount with
      config := { emptyMount.config with obsPrefix := some ['t', '/'] } }
    s.obsPath (ObsFsCore.childPath ['d'] [0xFF]) =
        s.obsPath (ObsFsCore.childPath ['d'] ['f'.toUInt8]) →
      ['d'] = ['d'] ∧ [0xFF] = ['f'.toUInt8] := by
  refine (distinct_objects_iff _ ['d'] ['d'] [0xFF] ['f'.toUInt8] (by decide) (by decide)
    (by decide) (by decide) (by decide) (by decide)).mpr ?_
  rintro ⟨-, -, halike⟩
  rw [← toStringLossy_eq_iff] at halike
  exact absurd halike (by decide)

/-- Two names of one byte that is not UTF-8 have one object. A file made under the first
appears under the second too, and is gone when the second is unlinked. -/
theorem undecodable_names_share_object :
    let s := (emptyMount.doCreate ⟨1, 1⟩ 1 [0xFF] 0 0).2
    let (unlinked, t) := s.doUnlink 1 [0xFE]
    ¬(s.obsPath (ObsFsCore.childPath [] [0xFF]) = s.obsPath (ObsFsCore.childPath [] [0xFE]) →
        ([] : Str) = [] ∧ ([0xFF] : OsStr) = [0xFE]) ∧
      (s.doLookup ⟨2, 2⟩ 1 [0xFE]).1.map Prod.fst = .ok 2 ∧
      s.obsClient.objects.keys = [[replacementChar]] ∧
      unlinked = .ok () ∧ t.obsClient.objects.keys = [] := by
  refine ⟨?_, by decide, by decide, by decide, by decide⟩
  intro h
  exact absurd (h rfl).2 (by decide)

end ObsFuse
