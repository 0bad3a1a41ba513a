import ObsFuse.Consistency.LiveNames
import ObsFuse.Fs.EncodedNames
import ObsFuse.Fs.WinFsp

/-! # The file that a Windows name opens

An open walks from the root, one lookup for each part of the name. It ends at the inode that has
the parts, joined by single slashes, as its path, however the name is spelled. -/

namespace ObsFuse
open Lib

/-! ### Texts -/

theorem toStringLossy_osStr (name : Str) : toStringLossy (WinFspFs.osStr name) = name :=
  toStringLossy_flatMap_encode name

theorem map_backslash_eq {path : Str} (h : '\\' ∉ path) :
    path.map (fun c => if c = '\\' then '/' else c) = path := by
  have hself : ∀ c ∈ path, (if c = '\\' then '/' else c) = id c := by
    intro c hc
    have hne : c ≠ '\\' := fun heq => h (by rwa [heq] at hc)
    exact if_neg hne
  rw [List.map_congr_left hself, List.map_id]

/-- On paths without a backslash, Windows normalizes as Unix does. -/
theorem windowsPath_eq {path : Str} (h : '\\' ∉ path) : windowsPath path = normalizePath path := by
  have hsub : '\\' ∉ normalizePath path := by
    intro hc
    have hstart : '\\' ∈ trimStart path := (List.rdropWhile_prefix _ _).subset hc
    exact h ((List.dropWhile_suffix _).subset hstart)
  unfold windowsPath
  rw [map_backslash_eq hsub, normalizePath_normalizePath]

theorem noSlash_of_mem_splitOn {path part : Str} (h : part ∈ path.splitOn '/') : '/' ∉ part := by
  induction path generalizing part with
  | nil =>
    rw [List.splitOn_nil, List.mem_singleton] at h
    rw [h]
    exact List.not_mem_nil
  | cons c path ih =>
    rw [List.splitOn_cons_eq_if_modifyHead] at h
    split at h
    · rcases List.mem_cons.mp h with rfl | hrest
      · exact List.not_mem_nil
      · exact ih hrest
    · next hc =>
      cases hsplit : path.splitOn '/' with
      | nil => exact absurd hsplit (List.splitOn_ne_nil '/' path)
      | cons first rest =>
        rw [hsplit] at h ih
        rcases List.mem_cons.mp h with rfl | hrest
        · rw [List.mem_cons, not_or]
          refine ⟨?_, ih (List.mem_cons_self ..)⟩
          intro heq
          rw [← heq] at hc
          exact hc rfl
        · exact ih (List.mem_cons_of_mem _ hrest)

theorem mem_components {path part : Str} (h : part ∈ components path) :
    '/' ∉ part ∧ part ≠ [] := by
  obtain ⟨hpart, hne⟩ := List.mem_filter.mp h
  exact ⟨noSlash_of_mem_splitOn hpart, of_decide_eq_true hne⟩

/-- The path of the inode that a walk over the parts reaches from the path. -/
def joinParts (path : Str) (parts : List Str) : Str := parts.foldl joinPath path

theorem joinParts_eq {path : Str} (hpath : normalizePath path = path) {parts : List Str}
    (hparts : ∀ part ∈ parts, '/' ∉ part ∧ part ≠ []) (hne : path ≠ []) :
    joinParts path parts = ['/'].intercalate (path :: parts) := by
  induction parts generalizing path with
  | nil => rw [List.intercalate_singleton]; rfl
  | cons part parts ih =>
    obtain ⟨hslash, hnil⟩ := hparts part (List.mem_cons_self ..)
    obtain ⟨hnormal, hne'⟩ := joinPath_normal hpath hslash hnil
    have hrest : ∀ p ∈ parts, '/' ∉ p ∧ p ≠ [] := fun p hp => hparts p (List.mem_cons_of_mem _ hp)
    show joinParts (joinPath path part) parts = _
    rw [ih hnormal hrest hne', joinPath_of_normal hpath, if_neg hne]
    cases parts with
    | nil => simp [List.intercalate]
    | cons p ps => simp [List.intercalate]

theorem joinParts_root {parts : List Str} (hparts : ∀ part ∈ parts, '/' ∉ part ∧ part ≠ []) :
    joinParts [] parts = ['/'].intercalate parts := by
  cases parts with
  | nil => rfl
  | cons part parts =>
    obtain ⟨hslash, hnil⟩ := hparts part (List.mem_cons_self ..)
    have hrest : ∀ p ∈ parts, '/' ∉ p ∧ p ≠ [] := fun p hp => hparts p (List.mem_cons_of_mem _ hp)
    exact joinParts_eq (normalizePath_eq_self hslash) hrest hnil

/-! ### Inodes -/

namespace InodeManager

/-- The two maps agree, no entry has a number that is still to come, and `n` more numbers can
be given out. -/
structure Ready (m : InodeManager) (n : ℕ) : Prop where
  mapped : m.Mapped
  unused : ∀ i, m.nextInode ≤ i → m.getPath i = none
  room : m.nextInode + n < 2 ^ 64

variable {m m' : InodeManager}

theorem Ready.mono {n k : ℕ} (h : m.Ready n) (hk : k ≤ n) : m.Ready k :=
  ⟨h.mapped, h.unused, by have := h.room; omega⟩

theorem Ready.getOrCreateInode {n : ℕ} (h : m.Ready (n + 1)) (now : Now) (path : Str)
    (isDir : Bool) (size : ℕ) : (m.getOrCreateInode now path isDir size).2.Ready n ∧
      ∀ i p, m.Live i p → (m.getOrCreateInode now path isDir size).2.Live i p := by
  have hfresh : m.getEntry m.nextInode = none :=
    (m.getPath_eq_none_iff _).mp (h.unused _ (Nat.le_refl _))
  obtain ⟨hmapped, hlive⟩ := h.mapped.getOrCreateInode hfresh now path isDir size
  refine ⟨?_, hlive⟩
  cases hp : AList.lookup (normalizePath path) m.pathToInode with
  | some inode =>
    rw [getOrCreateInode_mapped hp]
    exact h.mono (Nat.le_succ n)
  | none =>
    have hroom := h.room
    have hnext : (m.getOrCreateInode now path isDir size).2.nextInode = m.nextInode + 1 := by
      simp only [InodeManager.getOrCreateInode]
      rw [hp]
      exact u64_eq (by omega)
    refine ⟨hmapped, ?_, ?_⟩
    · intro i hi
      rw [hnext] at hi
      rw [getPath_getOrCreateInode hp now isDir size, if_neg (by omega)]
      exact h.unused i (by omega)
    · rw [hnext]
      omega

theorem new_ready (now : Now) (config : PermissionConfig) {n : ℕ} (h : n < 2 ^ 64 - 2) :
    (new now config).Ready n := by
  refine ⟨new_mapped now config, ?_, ?_⟩
  · intro i hi
    have hne : i ≠ rootInode := by
      have hnext : (new now config).nextInode = 2 := rfl
      have hroot : rootInode = 1 := rfl
      omega
    simp only [new, getPath]
    rw [Table.lookup_insert_if, if_neg hne]
    rfl
  · show 2 + n < 2 ^ 64
    omega

theorem new_root_live (now : Now) (config : PermissionConfig) :
    (new now config).Live rootInode [] := ⟨rfl, rfl⟩

end InodeManager

namespace ObsFsCore

theorem Interns.ready {s s' : ObsFsCore} (h : Interns s s') {n : ℕ}
    (hready : s.inodeMgr.Ready (n + 1)) :
    s'.inodeMgr.Ready n ∧ ∀ i p, s.inodeMgr.Live i p → s'.inodeMgr.Live i p := by
  rcases h.inodeMgr with hsame | ⟨now, path, isDir, size, hnew⟩
  · rw [hsame]
    exact ⟨hready.mono (Nat.le_succ n), fun _ _ hl => hl⟩
  · rw [hnew]
    exact hready.getOrCreateInode now path isDir size

theorem lookupRemote_getInode {s : ObsFsCore} {now : Now} {path : Str} {inode : ℕ}
    {attr : FileAttr} (h : (s.lookupRemote now path).1 = .ok (inode, attr)) :
    (s.lookupRemote now path).2.inodeMgr.getInode path = some inode := by
  rw [lookupRemote_eq] at h ⊢
  generalize s.probe now path = r at h
  obtain ⟨_ | ⟨isDir, size, made⟩, cl⟩ := r
  · cases h
  · cases h
    exact s.inodeMgr.getInode_getOrCreateInode now path isDir size

/-- A lookup answers the inode to which the path of the name leads. -/
theorem doLookup_getInode {s : ObsFsCore} {now : Now} {parent : ℕ} {name : OsStr} {inode : ℕ}
    {attr : FileAttr} {parentPath : Str} (hparent : s.inodeMgr.getPath parent = some parentPath)
    (h : (s.doLookup now parent name).1 = .ok (inode, attr)) :
    (s.doLookup now parent name).2.inodeMgr.getInode (childPath parentPath name) =
      some inode := by
  revert h
  unfold doLookup
  rw [hparent]
  dsimp only
  split
  · exact nofun
  · split
    · exact lookupRemote_getInode
    · next found hfound =>
      split
      · intro h
        cases h
        exact hfound
      · exact lookupRemote_getInode

theorem doGetattr_inodeMgr (s : ObsFsCore) (now : Now) (inode : ℕ) :
    (s.doGetattr now inode).2.inodeMgr = s.inodeMgr := by
  unfold doGetattr
  dsimp only
  split
  · rfl
  · split
    · rfl
    · split
      · rfl
      · rfl

end ObsFsCore

namespace WinFspFs

theorem walk_live {clock : ℕ → Now} {parts : List Str} {core : ObsFsCore} {inode found : ℕ}
    {path : Str} (hready : core.inodeMgr.Ready parts.length)
    (hparts : ∀ part ∈ parts, '/' ∉ part ∧ part ≠ []) (hlive : core.inodeMgr.Live inode path)
    (h : (walk clock inode parts core).1 = .ok found) :
    (walk clock inode parts core).2.inodeMgr.Live found (joinParts path parts) := by
  induction parts generalizing clock core inode path with
  | nil =>
    cases h
    exact hlive
  | cons part parts ih =>
    obtain ⟨hslash, hnil⟩ := hparts part (List.mem_cons_self ..)
    have hrest : ∀ p ∈ parts, '/' ∉ p ∧ p ≠ [] := fun p hp => hparts p (List.mem_cons_of_mem _ hp)
    have hinterns := core.doLookup_interns (clock 0) inode (osStr part)
    have hfound := @ObsFsCore.doLookup_getInode core (clock 0) inode (osStr part)
    unfold walk at h ⊢
    generalize core.doLookup (clock 0) inode (osStr part) = r at h hinterns hfound
    obtain ⟨⟨next, attr⟩ | e | _, core'⟩ := r
    · have hnext := hfound hlive.getPath rfl
      have hchild : ObsFsCore.childPath path (osStr part) = joinPath path part := by
        unfold ObsFsCore.childPath
        rw [toStringLossy_osStr]
      have hnormal := joinPath_normal (hready.mapped.normal _ _ hlive.getPath) hslash hnil
      obtain ⟨hready', -⟩ := hinterns.ready hready
      have hlive' := hready'.mapped.live hnext
      rw [hchild, hnormal.1] at hlive'
      exact ih hready' hrest hlive' h
    · cases h
    · cases h

/-- A walk keeps every name there is, also one that ends in an error. -/
theorem walk_keeps {parts : List Str} {core : ObsFsCore} {k : ℕ} (clock : ℕ → Now) (inode : ℕ)
    (hready : core.inodeMgr.Ready (k + parts.length)) :
    (walk clock inode parts core).2.inodeMgr.Ready k ∧ ∀ i p, core.inodeMgr.Live i p →
      (walk clock inode parts core).2.inodeMgr.Live i p := by
  induction parts generalizing clock core inode with
  | nil => exact ⟨hready, fun _ _ hl => hl⟩
  | cons part parts ih =>
    have hinterns := core.doLookup_interns (clock 0) inode (osStr part)
    obtain ⟨hready', hkeep⟩ := hinterns.ready hready
    unfold walk
    generalize core.doLookup (clock 0) inode (osStr part) = r at hready' hkeep
    obtain ⟨⟨next, attr⟩ | e | _, core'⟩ := r
    · obtain ⟨hrest, hkeep'⟩ := ih (fun n => clock (n + 1)) next hready'
      exact ⟨hrest, fun i p hl => hkeep' i p (hkeep i p hl)⟩
    · exact ⟨hready'.mono (Nat.le_add_right ..), hkeep⟩
    · exact ⟨hready'.mono (Nat.le_add_right ..), hkeep⟩

/-- The path that a file name stands for. -/
def namedPath (fileName : Str) : Str := ['/'].intercalate (components (normalizeName fileName))

theorem inodeOf_live {clock : ℕ → Now} {path : Str} {core : ObsFsCore} {found : ℕ}
    (hready : core.inodeMgr.Ready (components path).length)
    (hroot : core.inodeMgr.Live rootInode [])
    (h : (inodeOf clock path core).1 = .ok found) :
    (inodeOf clock path core).2.inodeMgr.Live found (['/'].intercalate (components path)) := by
  have hparts : ∀ part ∈ components path, '/' ∉ part ∧ part ≠ [] := fun _ => mem_components
  rw [← joinParts_root hparts]
  unfold inodeOf at h ⊢
  split
  · next hnil =>
    rw [if_pos hnil] at h
    cases h
    rw [hnil]
    exact hroot
  · next hne =>
    rw [if_neg hne] at h
    exact walk_live hready hparts hroot h

theorem inodeOf_keeps {path : Str} {core : ObsFsCore} {k : ℕ} (clock : ℕ → Now)
    (hready : core.inodeMgr.Ready (k + (components path).length)) :
    (inodeOf clock path core).2.inodeMgr.Ready k ∧ ∀ i p, core.inodeMgr.Live i p →
      (inodeOf clock path core).2.inodeMgr.Live i p := by
  unfold inodeOf
  split
  · exact ⟨hready.mono (Nat.le_add_right ..), fun _ _ hl => hl⟩
  · exact walk_keeps clock rootInode hready

theorem openHandle_inodeMgr (core : ObsFsCore) (now : Now) (inode flags : ℕ) (isDir : Bool) :
    (openHandle core now inode flags isDir).2.inodeMgr = core.inodeMgr := by
  unfold openHandle
  cases isDir with
  | true => rfl
  | false => rfl

/-- An open asks for names only where it walks. -/
theorem openFile_inodeMgr (core : ObsFsCore) (clock : ℕ → Now) (now now' : Now) (fileName : Str)
    (grantedAccess : ℕ) :
    (openFile core clock now now' fileName grantedAccess).2.inodeMgr =
      (inodeOf clock (normalizeName fileName) core).2.inodeMgr := by
  unfold openFile
  generalize inodeOf clock (normalizeName fileName) core = r
  obtain ⟨inode | e | _, core'⟩ := r
  · have hattr := core'.doGetattr_inodeMgr now inode
    dsimp only
    generalize core'.doGetattr now inode = q at hattr
    obtain ⟨attr | e | _, core''⟩ := q
    · exact (openHandle_inodeMgr core'' now' inode _ _).trans hattr
    · exact hattr
    · exact hattr
  · rfl
  · rfl

theorem openFile_inode {core : ObsFsCore} {clock : ℕ → Now} {now now' : Now} {fileName : Str}
    {grantedAccess : ℕ} {context : FileContext} {info : FileInfo}
    (h : (openFile core clock now now' fileName grantedAccess).1 = .ok (context, info)) :
    (inodeOf clock (normalizeName fileName) core).1 = .ok context.inode := by
  unfold openFile at h
  generalize inodeOf clock (normalizeName fileName) core = r at h
  obtain ⟨inode | e | _, core'⟩ := r
  · dsimp only at h
    generalize core'.doGetattr now inode = q at h
    obtain ⟨attr | e | _, core''⟩ := q
    · cases h
      rfl
    · cases h
    · cases h
  · cases h
  · cases h

theorem openFile_live {core : ObsFsCore} {clock : ℕ → Now} {now now' : Now} {fileName : Str}
    {grantedAccess k : ℕ} {context : FileContext} {info : FileInfo}
    (hready : core.inodeMgr.Ready (k + (components (normalizeName fileName)).length))
    (hroot : core.inodeMgr.Live rootInode [])
    (h : (openFile core clock now now' fileName grantedAccess).1 = .ok (context, info)) :
    let core' := (openFile core clock now now' fileName grantedAccess).2
    core'.inodeMgr.Live context.inode (namedPath fileName) ∧ core'.inodeMgr.Ready k ∧
      ∀ i p, core.inodeMgr.Live i p → core'.inodeMgr.Live i p := by
  intro core'
  have hmgr : core'.inodeMgr = (inodeOf clock (normalizeName fileName) core).2.inodeMgr :=
    openFile_inodeMgr ..
  rw [hmgr]
  exact ⟨inodeOf_live (hready.mono (Nat.le_add_left ..)) hroot (openFile_inode h),
    inodeOf_keeps clock hready⟩

theorem components_namedPath (fileName : Str) :
    components (namedPath fileName) = components (normalizeName fileName) := by
  have hparts : ∀ part ∈ components (normalizeName fileName), '/' ∉ part ∧ part ≠ [] :=
    fun _ => mem_components
  unfold namedPath
  generalize components (normalizeName fileName) = parts at hparts
  cases parts with
  | nil => rfl
  | cons part parts =>
    unfold components
    rw [List.splitOn_intercalate '/' (fun l hl => (hparts l hl).1) (List.cons_ne_nil _ _)]
    rw [List.filter_eq_self]
    intro l hl
    exact decide_eq_true (hparts l hl).2

end WinFspFs

/-- An open by name, where no path is mapped astray, ends at the inode whose path has the parts
of the name; so a second open ends at the same inode exactly if its name has the same parts, be
they separated by slashes or backslashes, by one or many. -/
theorem windows_open_by_parts {core : ObsFsCore} {fileName fileName' : Str}
    (hready : core.inodeMgr.Ready ((components (WinFspFs.normalizeName fileName')).length +
      (components (WinFspFs.normalizeName fileName)).length))
    (hroot : core.inodeMgr.Live rootInode []) (clock clock' : ℕ → Now) (now₁ now₂ now₃ now₄ : Now)
    (access access' : ℕ) {context context' : FileContext} {info info' : FileInfo}
    (h : (WinFspFs.openFile core clock now₁ now₂ fileName access).1 = .ok (context, info))
    (h' : (WinFspFs.openFile (WinFspFs.openFile core clock now₁ now₂ fileName access).2 clock' now₃
      now₄ fileName' access').1 = .ok (context', info')) :
    (WinFspFs.openFile core clock now₁ now₂ fileName access).2.inodeMgr.getPath context.inode =
        some (WinFspFs.namedPath fileName) ∧
      (context'.inode = context.inode ↔ components (WinFspFs.normalizeName fileName') =
        components (WinFspFs.normalizeName fileName)) := by
  obtain ⟨hlive, hready', hkeep⟩ := WinFspFs.openFile_live hready hroot h
  rw [← Nat.zero_add (components _).length] at hready'
  obtain ⟨hlive', -, hkeep'⟩ := WinFspFs.openFile_live hready' (hkeep _ _ hroot) h'
  have hfirst := hkeep' _ _ hlive
  refine ⟨hlive.getPath, ?_⟩
  constructor
  · intro hsame
    have hpath := hlive'.getPath
    rw [hsame, hfirst.getPath] at hpath
    rw [← WinFspFs.components_namedPath, ← WinFspFs.components_namedPath fileName,
      Option.some.inj hpath]
  · intro hparts
    have hpath : WinFspFs.namedPath fileName' = WinFspFs.namedPath fileName :=
      congrArg (List.intercalate ['/']) hparts
    rw [hpath] at hlive'
    exact hlive'.unique hfirst

/-- Two spellings of the name of a file in a directory. -/
theorem two_spellings_open_one_file :
    let core := ObsFsCore.new .basic Config.basic_valid (.still (.holding .plain ["d/f".toList]))
    let opened := WinFspFs.openFile core (fun _ => ⟨0, 0⟩) ⟨0, 0⟩ ⟨0, 0⟩ "\\d\\f".toList 0
    let again := WinFspFs.openFile opened.2 (fun _ => ⟨0, 0⟩) ⟨0, 0⟩ ⟨0, 0⟩ "\\d/\\f/".toList 0
    ∃ info, opened.1 = .ok (⟨3, 1, false⟩, info) ∧ again.1 = .ok (⟨3, 2, false⟩, info) ∧
      opened.2.inodeMgr.getPath 3 = some "d/f".toList := by
  intro core opened again
  have hfirst : opened.1 = .ok (⟨3, 1, false⟩,
      WinFspFs.buildFileInfo (FileAttr.file 0 3 0 0 0 0o644)) := by decide
  have hsecond : again.1 = .ok (⟨3, 2, false⟩,
      WinFspFs.buildFileInfo (FileAttr.file 0 3 0 0 0 0o644)) := by decide
  have hready : core.inodeMgr.Ready
      ((components (WinFspFs.normalizeName "\\d/\\f/".toList)).length +
        (components (WinFspFs.normalizeName "\\d\\f".toList)).length) :=
    InodeManager.new_ready _ _ (by decide)
  have hboth := windows_open_by_parts hready (InodeManager.new_root_live _ _) (fun _ => ⟨0, 0⟩)
    (fun _ => ⟨0, 0⟩) ⟨0, 0⟩ ⟨0, 0⟩ ⟨0, 0⟩ ⟨0, 0⟩ 0 0 hfirst hsecond
  exact ⟨_, hfirst, hsecond, hboth.1⟩

end ObsFuse
