import ObsFuse.Fs.LookupPath
import ObsFuse.Fs.Steps
import ObsFuse.Fs.WritePath
import ObsFuse.Fs.Mount

/-! # Buffered bytes and the names of their files

A buffer copies the object path when it is made. Creating, looking up, renaming and
unlinking change the names of inodes without looking at the buffers. Here is which of these
steps leave every buffer that holds bytes with the live name of its file. -/

namespace ObsFuse
open Lib

namespace ObsFsCore

theorem obsPath_injective (s : ObsFsCore) {p q : Str} (hp : normalizePath p = p)
    (hq : normalizePath q = q) (h : s.obsPath p = s.obsPath q) : p = q := by
  unfold obsPath at h
  cases hpre : s.config.obsPrefix with
  | none =>
    rw [hpre] at h
    exact h
  | some pre =>
    rw [hpre] at h
    dsimp only at h
    -- the root's object path is the configured one, which no longer path can equal
    have hroot : ∀ r : Str, normalizePath r = r → r ≠ [] → pre ≠ trimEnd pre ++ '/' :: r := by
      intro r hr hne heq
      have htrim := congrArg trimEnd heq
      rw [trimEnd_append_normal hr hne] at htrim
      have hlen := congrArg List.length htrim
      rw [List.length_append, List.length_cons] at hlen
      omega
    by_cases hpn : p = []
    · by_cases hqn : q = []
      · rw [hpn, hqn]
      · rw [if_pos hpn, if_neg hqn] at h
        exact absurd h (hroot q hq hqn)
    · by_cases hqn : q = []
      · rw [if_neg hpn, if_pos hqn] at h
        exact absurd h.symm (hroot p hp hpn)
      · rw [if_neg hpn, if_neg hqn] at h
        have htail := List.append_cancel_left h
        exact (List.cons.inj htail).2

/-- Every buffer that holds bytes belongs to an inode that is live under a name and is for
the object of that name, and no two such buffers are for the same object. -/
structure LiveNames (s : ObsFsCore) : Prop where
  live : ∀ inode buf, AList.lookup inode s.writeBuffer.buffers = some buf → buf.data ≠ [] →
    ∃ path, s.inodeMgr.Live inode path ∧ buf.path = s.obsPath path
  distinct : ∀ i j b c, AList.lookup i s.writeBuffer.buffers = some b →
    AList.lookup j s.writeBuffer.buffers = some c → b.data ≠ [] → c.data ≠ [] →
    b.path = c.path → i = j

/-- A flush or a release of any file sends nothing but the object of a live name of it. -/
def FlushesLive (s : ObsFsCore) : Prop :=
  ∀ inode fh, ∃ reqs, (s.doFlush inode).2.obsClient.log = s.obsClient.log ++ reqs ∧
    (s.doRelease inode fh).2.obsClient.log = s.obsClient.log ++ reqs ∧
    ∀ r ∈ reqs, ∃ path data, s.inodeMgr.Live inode path ∧ r = .write (s.obsPath path) data

/-- No bytes are buffered for the inode. -/
def Idle (s : ObsFsCore) (inode : ℕ) : Prop :=
  ∀ buf ∈ AList.lookup inode s.writeBuffer.buffers, buf.data = []

/-- What keeps the names of buffered bytes in the operations on names and files: a new inode
number is unused; a write that stays in the buffer is of an inode to which its path leads
back and goes to a buffer made for that path; a file that is unlinked, renamed or replaced
has no bytes buffered. -/
def NameSafe (s : ObsFsCore) : FsOp → Prop
  | .lookup .. | .create .. => s.inodeMgr.getEntry s.inodeMgr.nextInode = none
  | .write now inode _ offset _ =>
    ∀ path ∈ s.inodeMgr.getPath inode,
      let buf := s.writeBuffer.bufferFor now.instant inode (s.obsPath path)
        (s.knownSize now.instant inode)
      buf.goesDirect offset = true ∨
        (s.inodeMgr.getInode path = some inode ∧ buf.path = s.obsPath path)
  | .unlink parent name =>
    (s.doUnlink parent name).1.isOk → ∀ parentPath ∈ s.inodeMgr.getPath parent,
      ∀ inode ∈ s.inodeMgr.getInode (childPath parentPath name), s.Idle inode
  | .rename now parent name newParent newName =>
    (s.doRename now parent name newParent newName).1.isOk →
      ∀ parentPath ∈ s.inodeMgr.getPath parent, ∀ newParentPath ∈ s.inodeMgr.getPath newParent,
        normalizePath (childPath parentPath name) =
            normalizePath (childPath newParentPath newName) ∨
          (∀ inode ∈ s.inodeMgr.getInode (childPath parentPath name), s.Idle inode) ∧
            ∀ inode ∈ s.inodeMgr.getInode (childPath newParentPath newName), s.Idle inode
  | .flush _ | .release .. => True
  | _ => False

instance (s : ObsFsCore) (inode : ℕ) : Decidable (s.Idle inode) :=
  inferInstanceAs (Decidable (∀ buf ∈ _, _))

instance decidableNameSafe (s : ObsFsCore) : (op : FsOp) → Decidable (s.NameSafe op)
  | .lookup .. | .create .. => inferInstanceAs (Decidable (_ = none))
  | .write .. => inferInstanceAs (Decidable (∀ path ∈ _, _ ∨ _))
  | .unlink .. => inferInstanceAs (Decidable (_ → ∀ parentPath ∈ _, ∀ inode ∈ _, _))
  | .rename .. =>
    inferInstanceAs (Decidable (_ → ∀ parentPath ∈ _, ∀ newParentPath ∈ _, _ ∨ _))
  | .flush _ | .release .. => isTrue trivial
  | .readdir .. | .getattr .. | .read .. | .mkdir .. | .rmdir .. | .openFile .. | .opendir ..
  | .close _ | .fsync _ | .flushAll _ | .flushExpired .. | .truncate .. | .prefetch .. =>
    isFalse not_false

/-- The invariant behind `LiveNames`: the inode maps agree and bytes are only buffered dirty. -/
structure Named (s : ObsFsCore) : Prop where
  mapped : s.inodeMgr.Mapped
  dirty : ∀ inode buf, AList.lookup inode s.writeBuffer.buffers = some buf → buf.data ≠ [] →
    buf.dirty = true
  live : ∀ inode buf, AList.lookup inode s.writeBuffer.buffers = some buf → buf.data ≠ [] →
    ∃ path, s.inodeMgr.Live inode path ∧ buf.path = s.obsPath path

namespace Named
variable {s s' : ObsFsCore}

theorem liveNames (h : s.Named) : s.LiveNames := by
  refine ⟨h.live, ?_⟩
  intro i j b c hb hc hbne hcne heq
  obtain ⟨p, hp, hbp⟩ := h.live i b hb hbne
  obtain ⟨q, hq, hcq⟩ := h.live j c hc hcne
  rw [hbp, hcq] at heq
  have hpq := s.obsPath_injective (h.mapped.normal _ _ hp.getPath) (h.mapped.normal _ _ hq.getPath)
    heq
  rw [← hpq] at hq
  exact hp.unique hq

theorem flushesLive (h : s.Named) : s.FlushesLive := by
  intro inode fh
  have hrelease := (s.doRelease_buffer inode fh).2.1
  rw [hrelease]
  show ∃ reqs, (s.writeBuffer.flush s.obsClient inode).2.2.log = _ ∧ _
  unfold WriteBuffer.flush WriteBuffer.release
  cases hb : AList.lookup inode s.writeBuffer.buffers with
  | none => exact ⟨[], by simp, by simp, by simp⟩
  | some buf =>
    obtain ⟨-, -, reqs, hlog, hreqs⟩ := @WriteBufferConfig.flushBuffer_keeps
      s.writeBuffer.config buf s.obsClient (h.dirty inode buf hb)
    refine ⟨reqs, hlog, hlog, ?_⟩
    intro r hr
    obtain ⟨hne, hreq⟩ := hreqs r hr
    obtain ⟨path, hlive, hpath⟩ := h.live inode buf hb hne
    exact ⟨path, buf.data, hlive, by rw [hreq, hpath]⟩

theorem of_names (h : s.Named) (hconfig : s'.config = s.config)
    (hbuf : s'.writeBuffer = s.writeBuffer) (hmapped : s'.inodeMgr.Mapped)
    (hlive : ∀ i p, ¬s.Idle i → s.inodeMgr.Live i p → s'.inodeMgr.Live i p) : s'.Named := by
  refine ⟨hmapped, by rw [hbuf]; exact h.dirty, ?_⟩
  intro inode buf hb hne
  rw [hbuf] at hb
  obtain ⟨path, hl, hpath⟩ := h.live inode buf hb hne
  have hbusy : ¬s.Idle inode := fun hidle => hne (hidle buf hb)
  exact ⟨path, hlive inode path hbusy hl, by rw [hpath, obsPath_congr hconfig]⟩

theorem of_buffer (h : s.Named) (hconfig : s'.config = s.config)
    (hpath : ∀ i, s'.inodeMgr.getPath i = s.inodeMgr.getPath i)
    (hmap : s'.inodeMgr.pathToInode = s.inodeMgr.pathToInode) (inode : ℕ)
    (hother : ∀ j, j ≠ inode → AList.lookup j s'.writeBuffer.buffers =
      AList.lookup j s.writeBuffer.buffers)
    (hown : ∀ buf, AList.lookup inode s'.writeBuffer.buffers = some buf → buf.data ≠ [] →
      buf.dirty = true ∧ ∃ path, s.inodeMgr.Live inode path ∧ buf.path = s.obsPath path) :
    s'.Named := by
  refine ⟨h.mapped.congr hpath hmap, ?_, ?_⟩
  · intro j buf hb hne
    by_cases hj : j = inode
    · rw [hj] at hb
      exact (hown buf hb hne).1
    · rw [hother j hj] at hb
      exact h.dirty j buf hb hne
  · intro j buf hb hne
    have hold : ∃ path, s.inodeMgr.Live j path ∧ buf.path = s.obsPath path := by
      by_cases hj : j = inode
      · rw [hj] at hb ⊢
        exact (hown buf hb hne).2
      · rw [hother j hj] at hb
        exact h.live j buf hb hne
    obtain ⟨path, hl, hp⟩ := hold
    exact ⟨path, hl.congr (hpath j) hmap, by rw [hp, obsPath_congr hconfig]⟩

end Named

/-! ### The steps -/

structure Interns (s s' : ObsFsCore) : Prop where
  config : s'.config = s.config
  writeBuffer : s'.writeBuffer = s.writeBuffer
  inodeMgr : s'.inodeMgr = s.inodeMgr ∨
    ∃ now path isDir size, s'.inodeMgr = (s.inodeMgr.getOrCreateInode now path isDir size).2

theorem Interns.of_eq {s t s' : ObsFsCore} (h : Interns t s') (hconfig : t.config = s.config)
    (hbuf : t.writeBuffer = s.writeBuffer) (hmgr : t.inodeMgr = s.inodeMgr) : Interns s s' :=
  ⟨h.config.trans hconfig, h.writeBuffer.trans hbuf, hmgr ▸ h.inodeMgr⟩

theorem lookupRemote_interns (s : ObsFsCore) (now : Now) (path : Str) :
    Interns s (s.lookupRemote now path).2 := by
  rw [lookupRemote_eq]
  generalize s.probe now path = r
  obtain ⟨_ | ⟨isDir, size, attr⟩, cl⟩ := r
  · exact ⟨rfl, rfl, .inl rfl⟩
  · exact ⟨rfl, rfl, .inr ⟨_, _, _, _, rfl⟩⟩

theorem doLookup_interns (s : ObsFsCore) (now : Now) (parent : ℕ) (name : OsStr) :
    Interns s (s.doLookup now parent name).2 := by
  unfold doLookup
  split
  · exact ⟨rfl, rfl, .inl rfl⟩
  · dsimp only
    split
    · exact ⟨rfl, rfl, .inl rfl⟩
    · split
      · exact (lookupRemote_interns _ now _).of_eq rfl rfl rfl
      · split
        · exact ⟨rfl, rfl, .inl rfl⟩
        · exact (lookupRemote_interns _ now _).of_eq rfl rfl rfl

theorem doCreate_interns (s : ObsFsCore) (now : Now) (parent : ℕ) (name : OsStr)
    (mode flags : ℕ) : Interns s (s.doCreate now parent name mode flags).2 := by
  unfold doCreate internInode
  split
  · exact ⟨rfl, rfl, .inl rfl⟩
  · dsimp only
    split
    · exact ⟨rfl, rfl, .inl rfl⟩
    · exact ⟨rfl, rfl, .inr ⟨_, _, _, _, rfl⟩⟩

theorem Named.interns {s s' : ObsFsCore} (h : s.Named) (hi : Interns s s')
    (hfresh : s.inodeMgr.getEntry s.inodeMgr.nextInode = none) : s'.Named := by
  rcases hi.inodeMgr with hsame | ⟨now, path, isDir, size, hnew⟩
  · refine h.of_names hi.config hi.writeBuffer ?_ ?_
    · rw [hsame]
      exact h.mapped
    · intro i p _ hl
      rw [hsame]
      exact hl
  · obtain ⟨hmapped, hlive⟩ := h.mapped.getOrCreateInode hfresh now path isDir size
    refine h.of_names hi.config hi.writeBuffer ?_ ?_
    · rw [hnew]
      exact hmapped
    · intro i p _ hl
      rw [hnew]
      exact hlive i p hl

theorem doUnlink_names (s : ObsFsCore) (parent : ℕ) (name : OsStr) :
    (s.doUnlink parent name).2.config = s.config ∧
      (s.doUnlink parent name).2.writeBuffer = s.writeBuffer ∧
      ((s.doUnlink parent name).2.inodeMgr = s.inodeMgr ∨
        (s.doUnlink parent name).1.isOk = true ∧
          ∃ parentPath ∈ s.inodeMgr.getPath parent,
            ∃ inode ∈ s.inodeMgr.getInode (childPath parentPath name),
              (s.doUnlink parent name).2.inodeMgr = s.inodeMgr.remove inode) := by
  unfold doUnlink
  cases hp : s.inodeMgr.getPath parent with
  | none => exact ⟨rfl, rfl, .inl rfl⟩
  | some parentPath =>
    dsimp only
    obtain ⟨_ | _, cl⟩ := s.obsClient.delete (s.obsPath (childPath parentPath name))
    · exact ⟨rfl, rfl, .inl rfl⟩
    · dsimp only
      cases hi : s.inodeMgr.getInode (childPath parentPath name) with
      | none => exact ⟨rfl, rfl, .inl rfl⟩
      | some inode => exact ⟨rfl, rfl, .inr ⟨rfl, parentPath, rfl, inode, hi, rfl⟩⟩

theorem Named.unlink {s : ObsFsCore} (h : s.Named) {parent : ℕ} {name : OsStr}
    (hsafe : s.NameSafe (.unlink parent name)) : (s.doUnlink parent name).2.Named := by
  obtain ⟨hconfig, hbuf, hmgr⟩ := doUnlink_names s parent name
  rcases hmgr with hsame | ⟨hok, parentPath, hparent, inode, hinode, hremove⟩
  · refine h.of_names hconfig hbuf ?_ ?_
    · rw [hsame]
      exact h.mapped
    · intro i p _ hl
      rw [hsame]
      exact hl
  · have hidle : s.Idle inode := hsafe hok parentPath hparent inode hinode
    obtain ⟨hmapped, hlive⟩ := h.mapped.remove hinode
    refine h.of_names hconfig hbuf ?_ ?_
    · rw [hremove]
      exact hmapped
    · intro i p hbusy hl
      rw [hremove]
      apply hlive i p ?_ hl
      intro heq
      rw [heq] at hbusy
      exact hbusy hidle

theorem doRename_names (s : ObsFsCore) (now : Now) (parent : ℕ) (name : OsStr) (newParent : ℕ)
    (newName : OsStr) :
    (s.doRename now parent name newParent newName).2.config = s.config ∧
      (s.doRename now parent name newParent newName).2.writeBuffer = s.writeBuffer ∧
      ((s.doRename now parent name newParent newName).2.inodeMgr = s.inodeMgr ∨
        (s.doRename now parent name newParent newName).1.isOk = true ∧
          ∃ parentPath ∈ s.inodeMgr.getPath parent, ∃ newParentPath ∈ s.inodeMgr.getPath newParent,
            (s.doRename now parent name newParent newName).2.inodeMgr =
              s.inodeMgr.rename now (childPath parentPath name)
                (childPath newParentPath newName)) := by
  unfold doRename
  cases hp : s.inodeMgr.getPath parent with
  | none => exact ⟨rfl, rfl, .inl rfl⟩
  | some parentPath =>
    cases hq : s.inodeMgr.getPath newParent with
    | none => exact ⟨rfl, rfl, .inl rfl⟩
    | some newParentPath =>
      dsimp only
      obtain ⟨_ | _, cl⟩ := s.obsClient.copy (s.obsPath (childPath parentPath name))
        (s.obsPath (childPath newParentPath newName))
      · exact ⟨rfl, rfl, .inl rfl⟩
      · dsimp only
        obtain ⟨_ | _, cl'⟩ := cl.delete (s.obsPath (childPath parentPath name))
        · exact ⟨rfl, rfl, .inl rfl⟩
        · exact ⟨rfl, rfl, .inr ⟨rfl, parentPath, rfl, newParentPath, rfl, rfl⟩⟩

theorem Named.rename {s : ObsFsCore} (h : s.Named) {now : Now} {parent newParent : ℕ}
    {name newName : OsStr} (hsafe : s.NameSafe (.rename now parent name newParent newName)) :
    (s.doRename now parent name newParent newName).2.Named := by
  obtain ⟨hconfig, hbuf, hmgr⟩ := doRename_names s now parent name newParent newName
  rcases hmgr with hsame | ⟨hok, parentPath, hparent, newParentPath, hnew, hrename⟩
  · refine h.of_names hconfig hbuf ?_ ?_
    · rw [hsame]
      exact h.mapped
    · intro i p _ hl
      rw [hsame]
      exact hl
  · refine h.of_names hconfig hbuf ?_ ?_
    · rw [hrename]
      exact (h.mapped.rename ..).1
    · intro i p hbusy hl
      rw [hrename]
      rcases hsafe hok parentPath hparent newParentPath hnew with hself | hidle
      · exact h.mapped.rename_self now hself hl
      · apply (h.mapped.rename ..).2 i p ?_ ?_ hl
        · intro hsrc
          exact hbusy (hidle.1 i hsrc)
        · intro hdst
          exact hbusy (hidle.2 i hdst)

theorem Named.flush {s : ObsFsCore} (h : s.Named) (inode : ℕ) : (s.doFlush inode).2.Named := by
  have hbuffers : (s.doFlush inode).2.writeBuffer =
      (s.writeBuffer.flush s.obsClient inode).2.1 := rfl
  refine h.of_buffer rfl (fun _ => rfl) rfl inode ?_ ?_
  · intro j hj
    rw [hbuffers]
    unfold WriteBuffer.flush
    cases AList.lookup inode s.writeBuffer.buffers with
    | none => rfl
    | some buf => exact AList.lookup_insert_ne hj
  · intro buf hb hne
    exfalso
    rw [hbuffers] at hb
    unfold WriteBuffer.flush at hb
    cases hold : AList.lookup inode s.writeBuffer.buffers with
    | none =>
      rw [hold] at hb
      dsimp only at hb
      rw [hold] at hb
      cases hb
    | some old =>
      rw [hold] at hb
      dsimp only at hb
      rw [AList.lookup_insert] at hb
      cases hb
      exact hne (s.writeBuffer.config.flushBuffer_keeps (h.dirty inode old hold)).1

theorem Named.release {s : ObsFsCore} (h : s.Named) (inode fh : ℕ) :
    (s.doRelease inode fh).2.Named := by
  have hparts : (s.doRelease inode fh).2.config = s.config ∧
      (s.doRelease inode fh).2.inodeMgr = s.inodeMgr := by
    unfold doRelease
    split
    · exact ⟨rfl, rfl⟩
    · exact ⟨rfl, rfl⟩
    · exact ⟨rfl, rfl⟩
  have hbuffers := (s.doRelease_buffer inode fh).1
  have hlookup : ∀ j, AList.lookup j (s.doRelease inode fh).2.writeBuffer.buffers =
      if j = inode then none else AList.lookup j s.writeBuffer.buffers := by
    intro j
    rw [hbuffers]
    cases hold : AList.lookup inode s.writeBuffer.buffers with
    | none =>
      rw [WriteBuffer.release_none hold]
      split
      · next hj => rw [hj, hold]
      · rfl
    | some buf =>
      rw [WriteBuffer.release_some hold]
      exact Table.lookup_erase_if ..
  refine h.of_buffer hparts.1 ?_ (by rw [hparts.2]) inode ?_ ?_
  · intro i
    rw [hparts.2]
  · intro j hj
    rw [hlookup, if_neg hj]
  · intro buf hb
    rw [hlookup, if_pos rfl] at hb
    cases hb

theorem Named.write {s : ObsFsCore} (h : s.Named) {now : Now} {inode fh offset : ℕ} {data : Bytes}
    (hsafe : s.NameSafe (.write now inode fh offset data)) :
    (s.doWrite now inode fh offset data).2.Named := by
  cases hpath : s.inodeMgr.getPath inode with
  | none =>
    unfold doWrite
    rw [hpath]
    exact h
  | some path =>
    have hbuffers := (s.doWrite_buffer hpath now fh offset data).1
    rw [bufferWrite, WriteBuffer.write_eq] at hbuffers
    generalize hbuf : s.writeBuffer.bufferFor now.instant inode (s.obsPath path)
      (s.knownSize now.instant inode) = buf at hbuffers
    -- the file's buffer, or a new and empty one
    have hdirty : buf.data ≠ [] → buf.dirty = true := by
      intro hne
      rw [← hbuf] at hne ⊢
      cases hold : AList.lookup inode s.writeBuffer.buffers with
      | none =>
        rw [WriteBuffer.bufferFor_none hold] at hne
        exact absurd rfl hne
      | some old =>
        rw [WriteBuffer.bufferFor_some hold] at hne ⊢
        exact h.dirty inode old hold hne
    refine h.of_buffer (doWrite_config ..) (fun _ => doWrite_getPath ..) (doWrite_pathToInode ..)
      inode ?_ ?_
    · intro j hj
      rw [hbuffers]
      exact AList.lookup_insert_ne hj
    · intro b hb hne
      rw [hbuffers] at hb
      dsimp only at hb
      rw [AList.lookup_insert] at hb
      cases hb
      obtain ⟨hkeep, hleft⟩ := @WriteBufferConfig.writeLocked_keeps s.writeBuffer.config buf
        s.obsClient hdirty now.instant (s.obsPath path) offset data
      obtain ⟨hbdirty, hdirect⟩ := hleft hne
      refine ⟨hbdirty, path, ?_⟩
      have hname := hsafe path hpath
      dsimp only at hname
      rw [hbuf, hdirect] at hname
      rcases hname with hno | ⟨hback, hfor⟩
      · cases hno
      · exact ⟨⟨hpath, hback⟩, hkeep.trans hfor⟩

theorem Named.step {s : ObsFsCore} (h : s.Named) {op : FsOp} (hsafe : s.NameSafe op) :
    (s.step op).Named := by
  cases op with
  | lookup now parent name => exact h.interns (doLookup_interns s now parent name) hsafe
  | create now parent name mode flags =>
    exact h.interns (doCreate_interns s now parent name mode flags) hsafe
  | write now inode fh offset data => exact h.write hsafe
  | flush inode => exact h.flush inode
  | release inode fh => exact h.release inode fh
  | unlink parent name => exact h.unlink hsafe
  | rename now parent name newParent newName => exact h.rename hsafe
  | _ => exact hsafe.elim

theorem new_named (config : Config) (valid : config.validate = .ok ()) (env : Surroundings) :
    (ObsFsCore.new config valid env).Named := by
  refine ⟨InodeManager.new_mapped .., ?_, ?_⟩
  · intro inode buf hb
    cases hb
  · intro inode buf hb
    cases hb

end ObsFsCore

/-- In every run from a mount whose steps are name-safe, all buffered bytes are for live
names, and so is what a flush sends, in every state. -/
theorem buffers_keep_live_names (config : Config) (valid : config.validate = .ok ())
    (env : Surroundings) (ops : List FsOp)
    (hops : Along ObsFsCore.step ObsFsCore.NameSafe (.new config valid env) ops) (n : ℕ) :
    (run ObsFsCore.step (.new config valid env) (ops.take n)).LiveNames ∧
      (run ObsFsCore.step (.new config valid env) (ops.take n)).FlushesLive := by
  have hnamed := states_invariant (fun _ _ h hsafe => h.step hsafe)
    (ObsFsCore.new_named config valid env) hops n
  exact ⟨hnamed.liveNames, hnamed.flushesLive⟩

def emptyMount : ObsFsCore := .new .basic Config.basic_valid (.still .fresh)

/-- A file is written, flushed, renamed, closed and written again under its new name. -/
theorem write_rename_write_keeps_live_names :
    (run ObsFsCore.step emptyMount
      ([.create ⟨1, 1⟩ 1 ['f'.toUInt8] 0 0, .write ⟨2, 2⟩ 2 1 0 [7], .flush 2,
        .rename ⟨3, 3⟩ 1 ['f'.toUInt8] 1 ['g'.toUInt8], .release 2 1,
        .write ⟨4, 4⟩ 2 1 0 [8]].take 6)).LiveNames :=
  (buffers_keep_live_names .basic Config.basic_valid (.still .fresh)
    [.create ⟨1, 1⟩ 1 ['f'.toUInt8] 0 0, .write ⟨2, 2⟩ 2 1 0 [7], .flush 2,
      .rename ⟨3, 3⟩ 1 ['f'.toUInt8] 1 ['g'.toUInt8], .release 2 1, .write ⟨4, 4⟩ 2 1 0 [8]]
    (by decide) 6).1

/-- A file is unlinked while a byte of it is buffered: its inode is gone, and the release
makes the object again. -/
theorem unlinked_file_comes_back :
    let s := (emptyMount.doCreate ⟨1, 1⟩ 1 ['f'.toUInt8] 0 0).2
    let (written, s) := s.doWrite ⟨2, 2⟩ 2 1 0 [7]
    let (unlinked, s) := s.doUnlink 1 ['f'.toUInt8]
    written = .ok 1 ∧ unlinked = .ok () ∧ AList.lookup ['f'] s.obsClient.objects = none ∧
      ¬s.LiveNames ∧
      AList.lookup ['f'] (s.doRelease 2 1).2.obsClient.objects = some [7] := by
  refine ⟨by decide, by decide, by decide, ?_, by decide⟩
  intro h
  obtain ⟨path, hlive, -⟩ := h.live 2 (FileWriteBuffer.appended (.new 2 2 ['f'] 0) 2 0 [7])
    (by decide) (by decide)
  cases hlive.getPath

end ObsFuse
