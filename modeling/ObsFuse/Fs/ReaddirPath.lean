import ObsFuse.Fs.Core
import ObsFuse.Fs.Names

/-! # Reading a directory

`do_readdir` as a function of the listing: which listed objects are left out, and which
entries and offsets the others get. -/

namespace ObsFuse
open Lib

/-- A listed object that gets an entry. -/
def ObjectMeta.shown (info : ObjectMeta) : Bool :=
  !decide (info.name = [] ∨ info.name = ['.'] ∨ info.name = ['.', '.'])

/-- The entry of a listed object that has the inode number `inode`. -/
def ObjectMeta.toEntry (info : ObjectMeta) (inode : ℕ) (offset : ℤ) : DirEntry :=
  ⟨inode, info.name, if info.isDir then .directory else .regularFile, offset⟩

/-- The entries of listed objects, with consecutive offsets from `offset` on. -/
def numbered (inodeOf : Str → ℕ) : List ObjectMeta → ℤ → List DirEntry
  | [], _ => []
  | info :: infos, offset =>
    info.toEntry (inodeOf info.name) offset :: numbered inodeOf infos (offset + 1)

@[simp] theorem numbered_nil (inodeOf : Str → ℕ) (offset : ℤ) : numbered inodeOf [] offset = [] :=
  rfl

@[simp] theorem length_numbered (inodeOf : Str → ℕ) (infos : List ObjectMeta) (offset : ℤ) :
    (numbered inodeOf infos offset).length = infos.length := by
  induction infos generalizing offset with
  | nil => rfl
  | cons info infos ih => simp only [numbered, List.length_cons, ih]

theorem names_numbered (inodeOf : Str → ℕ) (infos : List ObjectMeta) (offset : ℤ) :
    (numbered inodeOf infos offset).map (·.name) = infos.map (·.name) := by
  induction infos generalizing offset with
  | nil => rfl
  | cons info infos ih => simp only [numbered, List.map_cons, ih, ObjectMeta.toEntry]

theorem numbered_congr {f g : Str → ℕ} {infos : List ObjectMeta}
    (h : ∀ info ∈ infos, f info.name = g info.name) (offset : ℤ) :
    numbered f infos offset = numbered g infos offset := by
  induction infos generalizing offset with
  | nil => rfl
  | cons info infos ih =>
    have htail : ∀ x ∈ infos, f x.name = g x.name := fun x hx => h x (List.mem_cons_of_mem _ hx)
    simp only [numbered, ih htail, h info (List.mem_cons_self ..)]

/-- The entries past an offset: the offsets are consecutive, so it says how many are dropped. -/
theorem filter_numbered (inodeOf : Str → ℕ) (infos : List ObjectMeta) (start offset : ℤ) :
    (numbered inodeOf infos start).filter (fun e => decide (offset < e.offset)) =
      numbered inodeOf (infos.drop (offset + 1 - start).toNat) (max start (offset + 1)) := by
  induction infos generalizing start with
  | nil => simp
  | cons info infos ih =>
    have hhead : (info.toEntry (inodeOf info.name) start).offset = start := rfl
    rw [numbered, List.filter_cons, hhead, ih]
    by_cases h : offset < start
    · have h0 : (offset + 1 - start).toNat = 0 := by omega
      have h1 : (offset + 1 - (start + 1)).toNat = 0 := by omega
      have hmax : max start (offset + 1) = start := by omega
      have hmax' : max (start + 1) (offset + 1) = start + 1 := by omega
      rw [decide_eq_true h, if_pos rfl, h0, h1, hmax, hmax', List.drop_zero, List.drop_zero,
        numbered]
    · have hdrop : (offset + 1 - start).toNat = (offset + 1 - (start + 1)).toNat + 1 := by omega
      have hmax : max (start + 1) (offset + 1) = max start (offset + 1) := by omega
      rw [decide_eq_false h, if_neg Bool.false_ne_true, hdrop, hmax, List.drop_succ_cons]

namespace ObsFsCore
variable {s s' : ObsFsCore} {path : Str}

/-- The key under which `do_readdir` lists a directory. -/
def listingKey (s : ObsFsCore) (path : Str) : Str :=
  if s.obsPath path = [] then [] else dirKey (s.obsPath path)

/-- The inode has the path, and listing that directory gives the objects. -/
def Lists (s : ObsFsCore) (inode : ℕ) (path : Str) (infos : List ObjectMeta) : Prop :=
  s.inodeMgr.getPath inode = some path ∧
    (s.obsClient.listDir (s.listingKey path)).1 = .ok infos

instance (s : ObsFsCore) (inode : ℕ) (path : Str) (infos : List ObjectMeta) :
    Decidable (s.Lists inode path infos) :=
  inferInstanceAs (Decidable (_ ∧ _))

def childInode (s : ObsFsCore) (path name : Str) : ℕ :=
  (s.inodeMgr.getInode (joinPath path name)).getD 0

/-- What reading a directory does to the paths: only entries of it are newly mapped. -/
structure Interned (path : Str) (s s' : ObsFsCore) : Prop where
  config : s'.config = s.config
  mapped : ∀ p i, s.inodeMgr.getInode p = some i → s'.inodeMgr.getInode p = some i
  other : ∀ p, (∀ name, '/' ∉ name → name ≠ [] →
    normalizePath p ≠ normalizePath (joinPath path name)) →
    s'.inodeMgr.getInode p = s.inodeMgr.getInode p

theorem Interned.refl (path : Str) (s : ObsFsCore) : Interned path s s :=
  ⟨rfl, fun _ _ h => h, fun _ _ => rfl⟩

theorem Interned.trans {s'' : ObsFsCore} (h : Interned path s s') (h' : Interned path s' s'') :
    Interned path s s'' where
  config := h'.config.trans h.config
  mapped p i hi := h'.mapped p i (h.mapped p i hi)
  other p hp := (h'.other p hp).trans (h.other p hp)

theorem Interned.childInode (h : Interned path s s') {name : Str}
    (hmapped : (s.inodeMgr.getInode (joinPath path name)).isSome) :
    s'.childInode path name = s.childInode path name := by
  obtain ⟨i, hi⟩ := Option.isSome_iff_exists.mp hmapped
  unfold ObsFsCore.childInode
  rw [hi, h.mapped _ i hi]

theorem internInode_interned (s : ObsFsCore) (now : Now) (path : Str) {name : Str}
    (hname : '/' ∉ name) (hne : name ≠ []) (isDir : Bool) (size : ℕ) (attr : ℕ → FileAttr) :
    Interned path s (s.internInode now (joinPath path name) isDir size attr).2 where
  config := rfl
  mapped _ _ hi := InodeManager.getInode_getOrCreateInode_of_some hi ..
  other _ hp := InodeManager.getInode_getOrCreateInode_of_ne (hp name hname hne) ..

/-- The inode of the `..` entry. -/
def parentInode (s : ObsFsCore) (inode : ℕ) (path : Str) : ℕ :=
  if inode = rootInode then rootInode
  else ((parentPath path).bind s.inodeMgr.getInode).getD rootInode

theorem Interned.parentInode (h : Interned path s s') (inode : ℕ) :
    s'.parentInode inode path = s.parentInode inode path := by
  unfold ObsFsCore.parentInode
  cases hp : parentPath path with
  | none => rfl
  | some parent =>
    have hsame : s'.inodeMgr.getInode parent = s.inodeMgr.getInode parent := by
      apply h.other
      intro name hname hne heq
      exact normalizePath_joinPath_ne_parent hp hname hne heq.symm
    rw [Option.bind_some, Option.bind_some, hsame]

/-- The `.` and `..` entries of a page. -/
def dotEntries (s : ObsFsCore) (inode : ℕ) (path : Str) (offset : ℤ) : List DirEntry :=
  (if offset < 1 then [DirEntry.dot inode] else []) ++
    if offset < 2 then [DirEntry.dotdot (s.parentInode inode path)] else []

/-! ### The loop -/

theorem readdirLoop_skip (now : Now) (path : Str) (offset : ℤ) (infos : List ObjectMeta)
    (start : ℤ) (s : ObsFsCore) :
    readdirLoop now path offset infos start s =
      readdirLoop now path offset (infos.drop (offset + 1 - start).toNat)
        (max start (offset + 1)) s := by
  induction infos generalizing start with
  | nil =>
    rw [List.drop_nil]
    rfl
  | cons info infos ih =>
    by_cases h : start ≤ offset
    · have hdrop : (offset + 1 - start).toNat = (offset + 1 - (start + 1)).toNat + 1 := by omega
      have hmax : max (start + 1) (offset + 1) = max start (offset + 1) := by omega
      rw [readdirLoop, if_pos h, ih, hdrop, hmax, List.drop_succ_cons]
    · have hdrop : (offset + 1 - start).toNat = 0 := by omega
      have hmax : max start (offset + 1) = start := by omega
      rw [hdrop, hmax, List.drop_zero]

theorem readdirLoop_shown (now : Now) (path : Str) {offset start : ℤ} (hstart : offset < start)
    (infos : List ObjectMeta) (s : ObsFsCore) :
    readdirLoop now path offset infos start s =
      readdirLoop now path offset (infos.filter (·.shown)) start s := by
  induction infos generalizing start s with
  | nil => rfl
  | cons info infos ih =>
    have hno : ¬start ≤ offset := by omega
    have hnext : offset < start + 1 := by omega
    rw [List.filter_cons]
    by_cases h : info.name = [] ∨ info.name = ['.'] ∨ info.name = ['.', '.']
    · have hshown : info.shown = false := by
        unfold ObjectMeta.shown
        rw [decide_eq_true h]
        rfl
      rw [hshown, if_neg Bool.false_ne_true, readdirLoop, if_neg hno]
      dsimp only
      rw [if_pos h]
      exact ih hstart s
    · have hshown : info.shown = true := by
        unfold ObjectMeta.shown
        rw [decide_eq_false h]
        rfl
      rw [hshown, if_pos rfl, readdirLoop, readdirLoop, if_neg hno, if_neg hno]
      dsimp only
      rw [if_neg h, if_neg h, ih hnext]

/-- Past the offset, each shown object is interned and gets the next entry. -/
theorem readdirLoop_entries (now : Now) (path : Str) {offset start : ℤ} (hstart : offset < start)
    {infos : List ObjectMeta} (hshown : ∀ info ∈ infos, info.shown = true) (s : ObsFsCore) :
    let r := readdirLoop now path offset infos start s
    r.1 = numbered (r.2.2.childInode path) infos start ∧ Interned path s r.2.2 ∧
      ∀ info ∈ infos, (r.2.2.inodeMgr.getInode (joinPath path info.name)).isSome := by
  induction infos generalizing start s with
  | nil => exact ⟨rfl, .refl path s, fun _ h => absurd h List.not_mem_nil⟩
  | cons info infos ih =>
    have hno : ¬start ≤ offset := by omega
    have hnext : offset < start + 1 := by omega
    have hname : ¬(info.name = [] ∨ info.name = ['.'] ∨ info.name = ['.', '.']) := by
      have hhead := hshown info (List.mem_cons_self ..)
      unfold ObjectMeta.shown at hhead
      simpa using hhead
    rw [readdirLoop, if_neg hno]
    dsimp only
    rw [if_neg hname]
    generalize hintern : s.internInode now (joinPath path info.name) info.isDir info.size
      (fun inode => s.config.permission.fromObjectMeta now inode info) = r
    obtain ⟨⟨inode, attr⟩, t⟩ := r
    have hst : Interned path s t := by
      have h := s.internInode_interned now path (fileName_noSlash info.path)
        (fun h => hname (.inl h)) info.isDir info.size
        (fun inode => s.config.permission.fromObjectMeta now inode info)
      unfold ObjectMeta.name at hintern
      rw [hintern] at h
      exact h
    have hinode : t.inodeMgr.getInode (joinPath path info.name) = some inode := by
      have h := s.inodeMgr.getInode_getOrCreateInode now (joinPath path info.name) info.isDir
        info.size
      cases hintern
      exact h
    dsimp only
    obtain ⟨hentries, htr, hmapped⟩ :=
      ih hnext (fun x hx => hshown x (List.mem_cons_of_mem _ hx)) t
    generalize readdirLoop now path offset infos (start + 1) t = r at hentries htr hmapped
    obtain ⟨entries, inodes, u⟩ := r
    dsimp only at hentries htr hmapped ⊢
    have hkept : u.inodeMgr.getInode (joinPath path info.name) = some inode :=
      htr.mapped _ _ hinode
    refine ⟨?_, hst.trans htr, ?_⟩
    · have hhead : u.childInode path info.name = inode := by
        unfold ObsFsCore.childInode
        rw [hkept]
        rfl
      rw [numbered, hhead, hentries]
      rfl
    · intro x hx
      rcases List.mem_cons.mp hx with heq | htail
      · rw [heq, hkept]
        rfl
      · exact hmapped x htail

theorem internInode_inodeMgr {inode : ℕ} {p : Str} (h : s.inodeMgr.getInode p = some inode)
    (now : Now) (isDir : Bool) (size : ℕ) (attr : ℕ → FileAttr) :
    (s.internInode now p isDir size attr).2.inodeMgr = s.inodeMgr :=
  congrArg Prod.snd (InodeManager.getOrCreateInode_mapped h now isDir size)

theorem readdirLoop_mapped (now : Now) (path : Str) {offset start : ℤ} (hstart : offset < start)
    {infos : List ObjectMeta} (hshown : ∀ info ∈ infos, info.shown = true)
    (hmapped : ∀ info ∈ infos, (s.inodeMgr.getInode (joinPath path info.name)).isSome) :
    (readdirLoop now path offset infos start s).2.2.inodeMgr = s.inodeMgr := by
  induction infos generalizing start s with
  | nil => rfl
  | cons info infos ih =>
    have hno : ¬start ≤ offset := by omega
    have hnext : offset < start + 1 := by omega
    have hname : ¬(info.name = [] ∨ info.name = ['.'] ∨ info.name = ['.', '.']) := by
      have hhead := hshown info (List.mem_cons_self ..)
      unfold ObjectMeta.shown at hhead
      simpa using hhead
    obtain ⟨i, hi⟩ := Option.isSome_iff_exists.mp (hmapped info (List.mem_cons_self ..))
    rw [readdirLoop, if_neg hno]
    dsimp only
    rw [if_neg hname]
    have hsame := internInode_inodeMgr hi now info.isDir info.size
      (fun inode => s.config.permission.fromObjectMeta now inode info)
    have htail := @ih (s.internInode now (joinPath path info.name) info.isDir info.size
      (fun inode => s.config.permission.fromObjectMeta now inode info)).2 _ hnext
      (fun x hx => hshown x (List.mem_cons_of_mem _ hx))
      (fun x hx => by rw [hsame]; exact hmapped x (List.mem_cons_of_mem _ hx))
    exact htail.trans hsame

/-! ### The call -/

/-- A call that gets a listing: the dot entries, then the shown objects past the offset. Once
all of these are mapped, reading changes no path any more. -/
theorem doReaddir_lists {inode : ℕ} {infos : List ObjectMeta} (h : s.Lists inode path infos)
    (now : Now) (offset : ℤ) :
    let r := s.doReaddir now inode offset
    let page := (infos.drop (offset - 2).toNat).filter (·.shown)
    r.1 = .ok (s.dotEntries inode path offset ++
        numbered (r.2.childInode path) page (max 3 (offset + 1))) ∧
      Interned path s r.2 ∧
      (∀ info ∈ page, (r.2.inodeMgr.getInode (joinPath path info.name)).isSome) ∧
      ((∀ info ∈ page, (s.inodeMgr.getInode (joinPath path info.name)).isSome) →
        r.2.inodeMgr.pathToInode = s.inodeMgr.pathToInode) := by
  obtain ⟨hpath, hlist⟩ := h
  have hcut : (offset + 1 - 3).toNat = (offset - 2).toNat := by omega
  have hstart : offset < max 3 (offset + 1) := by omega
  generalize hpage : (infos.drop (offset - 2).toNat).filter (·.shown) = page
  have hshown : ∀ info ∈ page, info.shown = true := by
    intro info hi
    rw [← hpage] at hi
    exact (List.mem_filter.mp hi).2
  unfold listingKey at hlist
  unfold doReaddir
  rw [hpath]
  dsimp only
  generalize s.obsClient.listDir (if s.obsPath path = [] then [] else dirKey (s.obsPath path)) = l
    at hlist
  obtain ⟨answer, cl⟩ := l
  dsimp only at hlist
  rw [hlist]
  dsimp only
  rw [readdirLoop_skip, hcut, readdirLoop_shown now path hstart, hpage]
  have hentries := readdirLoop_entries now path hstart hshown { s with obsClient := cl }
  have hsame := @readdirLoop_mapped { s with obsClient := cl } now path _ _ hstart page hshown
  generalize readdirLoop now path offset page (max 3 (offset + 1)) { s with obsClient := cl } = r
    at hentries hsame
  obtain ⟨entries, inodes, t⟩ := r
  dsimp only at hentries hsame ⊢
  obtain ⟨hnumbered, hinterned, hmapped⟩ := hentries
  refine ⟨?_, ⟨hinterned.config, hinterned.mapped, hinterned.other⟩, hmapped, ?_⟩
  · rw [hnumbered]
    rfl
  · intro hall
    have heq : t.inodeMgr.pathToInode = s.inodeMgr.pathToInode := by rw [hsame hall]
    exact heq

end ObsFsCore

end ObsFuse
