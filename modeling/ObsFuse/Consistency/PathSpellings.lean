import ObsFuse.Fs.Names

/-! # Spellings of one path

Slashes before, after and between the components of a path do not name anything. The inode
manager drops those at the ends only. -/

namespace ObsFuse
open Lib

def components (path : Str) : List Str := (path.splitOn '/').filter (· ≠ [])

def slashes (n : ℕ) : Str := List.replicate n '/'

/-- The two texts differ in the slashes at their ends only. -/
def AlikeInside (p q : Str) : Prop :=
  ∃ core a b c d, p = slashes a ++ (core ++ slashes b) ∧ q = slashes c ++ (core ++ slashes d)

theorem trimStart_slashes_append (n : ℕ) (s : Str) : trimStart (slashes n ++ s) = trimStart s := by
  unfold trimStart slashes
  rw [List.dropWhile_append_of_pos]
  intro c hc
  rw [List.eq_of_mem_replicate hc]
  rfl

theorem trimEnd_append_slashes (s : Str) (n : ℕ) : trimEnd (s ++ slashes n) = trimEnd s := by
  induction n with
  | zero => exact congrArg trimEnd (List.append_nil s)
  | succ n ih =>
    have hlast : slashes (n + 1) = slashes n ++ ['/'] := List.replicate_succ'
    rw [hlast, ← List.append_assoc, trimEnd_concat, if_pos rfl]
    exact ih

theorem normalizePath_slashes (a b : ℕ) (s : Str) :
    normalizePath (slashes a ++ (s ++ slashes b)) = normalizePath s := by
  have hstart : normalizePath (slashes a ++ (s ++ slashes b)) = normalizePath (s ++ slashes b) := by
    unfold normalizePath
    rw [trimStart_slashes_append]
  rw [hstart, ← trimStart_trimEnd, trimEnd_append_slashes, trimStart_trimEnd]

theorem eq_slashes {s : Str} (h : ∀ c ∈ s, c = '/') : s = slashes s.length :=
  List.eq_replicate_of_mem h

theorem exists_trimStart (s : Str) : ∃ n, s = slashes n ++ trimStart s := by
  have hslashes : ∀ c ∈ s.takeWhile (fun c => decide (c = '/')), c = '/' := by
    intro c hc
    exact of_decide_eq_true (List.mem_takeWhile_imp (p := fun c => decide (c = '/')) hc)
  have hsplit : s = s.takeWhile (fun c => decide (c = '/')) ++ trimStart s :=
    List.takeWhile_append_dropWhile.symm
  rw [eq_slashes hslashes] at hsplit
  exact ⟨_, hsplit⟩

theorem exists_trimEnd (s : Str) : ∃ n, s = trimEnd s ++ slashes n := by
  have hslashes : ∀ c ∈ s.rtakeWhile (fun c => decide (c = '/')), c = '/' := by
    intro c hc
    exact of_decide_eq_true (List.mem_rtakeWhile_imp (p := fun c => decide (c = '/')) hc)
  have hsplit : s = trimEnd s ++ s.rtakeWhile (fun c => decide (c = '/')) :=
    List.rdropWhile_append_rtakeWhile.symm
  rw [eq_slashes hslashes] at hsplit
  exact ⟨_, hsplit⟩

theorem slashes_around (path : Str) :
    ∃ a b, path = slashes a ++ (normalizePath path ++ slashes b) := by
  obtain ⟨a, hstart⟩ := exists_trimStart path
  obtain ⟨b, hend⟩ := exists_trimEnd (trimStart path)
  exact ⟨a, b, hstart.trans (congrArg (slashes a ++ ·) hend)⟩

theorem normalizePath_eq_iff {p q : Str} :
    normalizePath p = normalizePath q ↔ AlikeInside p q := by
  constructor
  · intro h
    obtain ⟨a, b, hp⟩ := slashes_around p
    obtain ⟨c, d, hq⟩ := slashes_around q
    rw [← h] at hq
    exact ⟨normalizePath p, a, b, c, d, hp, hq⟩
  · rintro ⟨core, a, b, c, d, rfl, rfl⟩
    rw [normalizePath_slashes, normalizePath_slashes]

/-! ### Components -/

theorem components_append_slash (a b : Str) :
    components (a ++ '/' :: b) = components a ++ components b := by
  unfold components
  rw [List.splitOn_append_cons_self, List.filter_append]

theorem components_slashes_append (n : ℕ) (s : Str) :
    components (slashes n ++ s) = components s := by
  induction n with
  | zero => rfl
  | succ n ih =>
    have hhead : slashes (n + 1) ++ s = [] ++ '/' :: (slashes n ++ s) := rfl
    rw [hhead, components_append_slash, ih]
    rfl

theorem components_append_slashes (s : Str) (n : ℕ) :
    components (s ++ slashes n) = components s := by
  induction n with
  | zero => exact congrArg components (List.append_nil s)
  | succ n ih =>
    have hlast : slashes (n + 1) = slashes n ++ ['/'] := List.replicate_succ'
    rw [hlast, ← List.append_assoc, components_append_slash, ih]
    exact List.append_nil _

namespace InodeManager
variable {m : InodeManager} {p q : Str}

/-- The two paths have one inode, and creating it under one of them and then under the other
gives that inode and allocates nothing the second time. -/
structure Shares (m : InodeManager) (p q : Str) : Prop where
  found : m.getInode p = m.getInode q
  created : ∀ (now now' : Now) (isDir isDir' : Bool) (size size' : ℕ),
    (m.getOrCreateInode now p isDir size).2.getOrCreateInode now' q isDir' size' =
      m.getOrCreateInode now p isDir size

/-- Both paths lead to one inode already. -/
def Joined (m : InodeManager) (p q : Str) : Prop :=
  ∃ inode, m.getInode p = some inode ∧ m.getInode q = some inode

theorem shares_of_alike (h : AlikeInside p q) : m.Shares p q := by
  have hnorm := normalizePath_eq_iff.mpr h
  constructor
  · exact congrArg (AList.lookup · m.pathToInode) hnorm
  · intro now now' isDir isDir' size size'
    have hmapped := getInode_getOrCreateInode m now p isDir size
    unfold getInode at hmapped
    rw [hnorm] at hmapped
    exact getOrCreateInode_mapped hmapped now' isDir' size'

theorem shares_of_joined (h : m.Joined p q) : m.Shares p q := by
  obtain ⟨inode, hp, hq⟩ := h
  constructor
  · rw [hp, hq]
  · intro now now' isDir isDir' size size'
    rw [getOrCreateInode_mapped hp]
    exact getOrCreateInode_mapped hq now' isDir' size'

theorem Shares.alike_or_joined (h : m.Shares p q) : AlikeInside p q ∨ m.Joined p q := by
  rw [← normalizePath_eq_iff]
  by_contra hnot
  obtain ⟨hne, hjoined⟩ := not_or.mp hnot
  have hfound := h.found
  cases hp : m.getInode p with
  | some inode =>
    rw [hp] at hfound
    exact hjoined ⟨inode, hp, hfound.symm⟩
  | none =>
    -- the second creation allocates, and maps the second path
    rw [hp] at hfound
    have hagain := h.created ⟨0, 0⟩ ⟨0, 0⟩ false false 0 0
    have hsecond := getInode_getOrCreateInode (m.getOrCreateInode ⟨0, 0⟩ p false 0).2 ⟨0, 0⟩ q
      false 0
    rw [hagain, getInode_getOrCreateInode_of_ne (Ne.symm hne), ← hfound] at hsecond
    cases hsecond

/-- Where each mapped path is that of its entry, no two paths lead to one inode. -/
theorem Mapped.alike_of_joined (hm : m.Mapped) (h : m.Joined p q) : AlikeInside p q := by
  obtain ⟨inode, hp, hq⟩ := h
  have hpath := (hm.getPath_of_getInode hp).symm.trans (hm.getPath_of_getInode hq)
  exact normalizePath_eq_iff.mp (Option.some.inj hpath)

end InodeManager

/-- Two spellings of a path share an inode exactly when they differ in the slashes at their
ends only, or when both lead to one inode already; the latter adds no case where each mapped
path is that of its entry. -/
theorem spellings_share_inode_iff (m : InodeManager) (p q : Str) :
    ((components p = components q → m.Shares p q) ↔
      (components p = components q → AlikeInside p q ∨ m.Joined p q)) ∧
    (m.Mapped → m.Joined p q → AlikeInside p q) := by
  refine ⟨imp_congr_right fun _ => ⟨InodeManager.Shares.alike_or_joined, ?_⟩, ?_⟩
  · rintro (h | h)
    · exact InodeManager.shares_of_alike h
    · exact InodeManager.shares_of_joined h
  · intro hm hjoined
    exact hm.alike_of_joined hjoined

/-- A repeated slash between two components makes a second inode. -/
theorem double_slash_second_inode :
    let m := InodeManager.new ⟨0, 0⟩ ⟨.fixed, ⟨1000, 1000, 0o644, 0o755⟩⟩
    let m₁ := (m.getOrCreateInode ⟨0, 0⟩ "a/b".toList false 0).2
    components "a/b".toList = components "a//b".toList ∧
      m₁.getInode "a/b".toList = some 2 ∧ m₁.getInode "a//b".toList = none ∧
      (m₁.getOrCreateInode ⟨0, 0⟩ "a//b".toList false 0).1 = 3 := by
  decide

end ObsFuse
