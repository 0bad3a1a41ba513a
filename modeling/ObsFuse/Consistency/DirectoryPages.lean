import ObsFuse.Fs.Mount
import ObsFuse.Fs.ReaddirPath
import ObsFuse.Lib.Runs

/-! # Reading a directory in pages

A page starts at the offset of the last entry that was read. The offsets count the shown
objects only, the loop that skips to a page counts all listed ones. Here is which pages
continue a first read of the whole directory. -/

namespace ObsFuse
open Lib

section
variable {α : Type} (p : α → Bool) (l : List α) (k : ℕ)

theorem drop_filter : (l.filter p).drop k =
    ((l.drop k).filter p).drop (k - ((l.take k).filter p).length) := by
  have hle : ((l.take k).filter p).length ≤ k :=
    (List.length_filter_le p _).trans (List.length_take_le k l)
  have hsplit : l.filter p = (l.take k).filter p ++ (l.drop k).filter p := by
    rw [← List.filter_append, List.take_append_drop]
  rw [hsplit, List.drop_append, List.drop_of_length_le hle, List.nil_append]

/-- Dropping and filtering agree if nothing dropped, or nothing kept, is filtered. -/
theorem filter_drop_of_split (h : (∀ a ∈ l.take k, p a = true) ∨ ∀ a ∈ l.drop k, p a = false) :
    (l.drop k).filter p = (l.filter p).drop k := by
  rw [drop_filter]
  rcases h with hall | hnone
  · rw [List.filter_eq_self.mpr hall]
    by_cases hk : k ≤ l.length
    · rw [List.length_take_of_le hk, Nat.sub_self, List.drop_zero]
    · rw [List.drop_of_length_le (by omega), List.filter_nil, List.drop_nil]
  · have hnil : (l.drop k).filter p = [] := by
      rw [List.filter_eq_nil_iff]
      intro a ha
      rw [hnone a ha]
      exact Bool.false_ne_true
    rw [hnil, List.drop_nil]

theorem split_of_length_filter_drop
    (h : ((l.drop k).filter p).length = ((l.filter p).drop k).length) :
    (∀ a ∈ l.take k, p a = true) ∨ ∀ a ∈ l.drop k, p a = false := by
  rw [drop_filter, List.length_drop] at h
  by_cases hnone : (l.drop k).filter p = []
  · right
    intro a ha
    exact Bool.eq_false_iff.mpr (List.filter_eq_nil_iff.mp hnone a ha)
  · left
    have hpos := List.length_pos_iff.mpr hnone
    have htake : ((l.take k).filter p).length = (l.take k).length := by
      have hk := List.length_take_le k l
      have hf := List.length_filter_le p (l.take k)
      omega
    exact List.length_filter_eq_length_iff.mp htake

end

namespace ObsFsCore

/-- A page: when the directory is read, and from which offset on. -/
abbrev Page := Now × ℤ

def readPage (inode : ℕ) (s : ObsFsCore) (page : Page) : ObsFsCore :=
  (s.doReaddir page.1 inode page.2).2

/-- The page has exactly the entries of the whole directory past its offset. -/
def Resumes (s : ObsFsCore) (now : Now) (inode : ℕ) (pages : List Page) (page : Page) : Prop :=
  ∃ entries, (s.doReaddir now inode 0).1 = .ok entries ∧
    ((run (readPage inode) s ((now, 0) :: pages)).doReaddir page.1 inode page.2).1 =
      .ok (entries.filter fun e => decide (page.2 < e.offset))

/-- After a read of the whole listing, further pages keep the paths. -/
theorem readPage_pathToInode {s₀ s : ObsFsCore} {inode : ℕ} {path : Str} {infos : List ObjectMeta}
    (hmapped : ∀ info ∈ infos.filter (·.shown),
      (s₀.inodeMgr.getInode (joinPath path info.name)).isSome)
    (hs : s.inodeMgr.pathToInode = s₀.inodeMgr.pathToInode ∧ s.config = s₀.config) (page : Page)
    (hlist : s.Lists inode path infos) :
    (readPage inode s page).inodeMgr.pathToInode = s₀.inodeMgr.pathToInode ∧
      (readPage inode s page).config = s₀.config := by
  obtain ⟨-, hinterned, -, hkeep⟩ := doReaddir_lists hlist page.1 page.2
  refine ⟨?_, hinterned.config.trans hs.2⟩
  refine (hkeep ?_).trans hs.1
  intro info hi
  have hshown : info ∈ infos.filter (·.shown) := by
    rw [List.mem_filter] at hi ⊢
    exact ⟨List.mem_of_mem_drop hi.1, hi.2⟩
  have hsome := hmapped info hshown
  unfold InodeManager.getInode at hsome ⊢
  rw [hs.1]
  exact hsome

theorem dotEntries_filter (s : ObsFsCore) (inode : ℕ) (path : Str) (offset : ℤ) :
    (s.dotEntries inode path 0).filter (fun e => decide (offset < e.offset)) =
      s.dotEntries inode path offset := by
  have hdot : (DirEntry.dot inode).offset = 1 := rfl
  have hdotdot : (DirEntry.dotdot (s.parentInode inode path)).offset = 2 := rfl
  unfold dotEntries
  rw [if_pos (by omega), if_pos (by omega), List.filter_append, List.filter_singleton,
    List.filter_singleton, hdot, hdotdot, Bool.cond_decide, Bool.cond_decide]

end ObsFsCore

/-- After a first read of the whole directory, and any pages in between, a page continues it
exactly when it skips no object without an entry, or there is no entry left to skip to. -/
theorem readdir_resumes_iff (s : ObsFsCore) (now : Now) {inode : ℕ} {path : Str}
    {infos : List ObjectMeta} (pages : List ObsFsCore.Page) (page : ObsFsCore.Page)
    (hlist : Along (ObsFsCore.readPage inode) (fun s _ => s.Lists inode path infos) s
      ((now, 0) :: pages ++ [page])) :
    s.Resumes now inode pages page ↔
      (∀ info ∈ infos.take (page.2 - 2).toNat, info.shown = true) ∨
        ∀ info ∈ infos.drop (page.2 - 2).toNat, info.shown = false := by
  rw [along_append, along_cons, along_cons] at hlist
  obtain ⟨⟨hfirst, hpages⟩, hlast, -⟩ := hlist
  obtain ⟨hentries, hinterned, hmapped, -⟩ := ObsFsCore.doReaddir_lists hfirst now 0
  have hzero : ((0 : ℤ) - 2).toNat = 0 := by omega
  have hthree : max (3 : ℤ) (0 + 1) = 3 := by omega
  rw [hzero, List.drop_zero] at hentries hmapped
  rw [hthree] at hentries
  rw [run_cons] at hlast
  unfold ObsFsCore.Resumes
  rw [run_cons]
  generalize hs₁ : ObsFsCore.readPage inode s (now, 0) = s₁ at hpages hlast
  have hs₁' : (s.doReaddir now inode 0).2 = s₁ := hs₁
  rw [hs₁'] at hentries hinterned hmapped
  -- the paths stay those of the first read
  have hkept := @run_invariant _ _ (ObsFsCore.readPage inode) (fun t _ => t.Lists inode path infos)
    (fun t => t.inodeMgr.pathToInode = s₁.inodeMgr.pathToInode ∧ t.config = s₁.config)
    (fun _ p ht hl => ObsFsCore.readPage_pathToInode hmapped ht p hl) s₁ pages ⟨rfl, rfl⟩ hpages
  generalize run (ObsFsCore.readPage inode) s₁ pages = s₂ at hlast hkept
  obtain ⟨hpage, -, -, -⟩ := ObsFsCore.doReaddir_lists hlast page.1 page.2
  have hkept' := ObsFsCore.readPage_pathToInode hmapped hkept page hlast
  have hparent : s₂.dotEntries inode path page.2 = s.dotEntries inode path page.2 := by
    have hsame : s₂.parentInode inode path = s₁.parentInode inode path := by
      unfold ObsFsCore.parentInode InodeManager.getInode
      rw [hkept.1]
    unfold ObsFsCore.dotEntries
    rw [hsame, hinterned.parentInode]
  have hchild : ∀ name,
      (s₂.doReaddir page.1 inode page.2).2.childInode path name = s₁.childInode path name := by
    intro name
    unfold ObsFsCore.childInode InodeManager.getInode
    rw [← hkept'.1]
    rfl
  have hrest : (numbered (s₁.childInode path) (infos.filter (·.shown)) 3).filter
        (fun e => decide (page.2 < e.offset)) =
      numbered (s₁.childInode path) ((infos.filter (·.shown)).drop (page.2 - 2).toNat)
        (max 3 (page.2 + 1)) := by
    have hcut : (page.2 + 1 - 3).toNat = (page.2 - 2).toNat := by omega
    rw [filter_numbered, hcut]
  rw [hpage, hentries, hparent, numbered_congr (fun info _ => hchild info.name)]
  simp only [Outcome.ok.injEq, exists_eq_left', List.filter_append, hrest,
    s.dotEntries_filter, List.append_cancel_left_eq]
  constructor
  · intro heq
    have hlen := congrArg List.length heq
    rw [length_numbered, length_numbered] at hlen
    exact split_of_length_filter_drop _ infos _ hlen
  · intro hsplit
    rw [filter_drop_of_split _ infos _ hsplit]

/-- Two files, read whole, then from the second on, then from the first on. -/
theorem two_files_resume :
    (ObsFsCore.emptyObjects [['a'], ['b']]).Resumes ⟨0, 0⟩ 1 [(⟨1, 1⟩, 3)] (⟨2, 2⟩, 2) :=
  (@readdir_resumes_iff (.emptyObjects [['a'], ['b']]) ⟨0, 0⟩ 1 []
    [⟨['a'], 0, none, false⟩, ⟨['b'], 0, none, false⟩] [(⟨1, 1⟩, 3)] (⟨2, 2⟩, 2)
    (by decide)).mpr (by decide)

/-- An object named `.` gets no entry, but counts where a page is skipped to: the page after
the first file has it again. -/
theorem page_repeats_entry :
    let s := ObsFsCore.emptyObjects [['.'], ['a'], ['b']]
    (s.doReaddir ⟨0, 0⟩ 1 0).1 = .ok [.dot 1, .dotdot 1, ⟨2, ['a'], .regularFile, 3⟩,
        ⟨3, ['b'], .regularFile, 4⟩] ∧
      ((s.doReaddir ⟨0, 0⟩ 1 0).2.doReaddir ⟨0, 0⟩ 1 3).1 =
        .ok [⟨2, ['a'], .regularFile, 4⟩, ⟨3, ['b'], .regularFile, 5⟩] ∧
      ¬s.Resumes ⟨0, 0⟩ 1 [] (⟨0, 0⟩, 3) := by
  have hwhole : ((ObsFsCore.emptyObjects [['.'], ['a'], ['b']]).doReaddir ⟨0, 0⟩ 1 0).1 =
      .ok [.dot 1, .dotdot 1, ⟨2, ['a'], .regularFile, 3⟩, ⟨3, ['b'], .regularFile, 4⟩] := by
    decide
  refine ⟨hwhole, by decide, ?_⟩
  intro h
  obtain ⟨entries, hentries, hpage⟩ := h
  rw [hwhole] at hentries
  cases hentries
  exact absurd hpage (by decide)

end ObsFuse
