import ObsFuse.Cache.FileBuffer
import ObsFuse.Fs.Frames
import ObsFuse.Fs.Fuse
import ObsFuse.Fs.Mount
import ObsFuse.Lib.Runs
import Mathlib.Data.Finset.Option

/-! # Open handles

The kernel holds the handle numbers that replies have given it, and gives each back with one
request, which it does not repeat. Here is which requests keep the table of handles equal to
the numbers that are out. -/

namespace ObsFuse
open Lib

/-! ### When a flush succeeds -/

/-- A flush of the buffer succeeds: there is nothing to store, or its request does not fail, or
its upload ends. -/
def FileWriteBuffer.Flushable (cfg : WriteBufferConfig) (cl : ObsClient)
    (buf : FileWriteBuffer) : Prop :=
  buf.dirty = true → buf.data ≠ [] →
    buf.multipart = none ∧ cl.fault = none ∨
      ∃ mp ∈ buf.multipart, cfg.uploader.write mp buf.data ≠ none

instance (cfg : WriteBufferConfig) (cl : ObsClient) (buf : FileWriteBuffer) :
    Decidable (buf.Flushable cfg cl) :=
  inferInstanceAs (Decidable (_ → _ → _ ∨ _))

theorem WriteBufferConfig.flushBuffer_ok_iff (cfg : WriteBufferConfig) (buf : FileWriteBuffer)
    (cl : ObsClient) : (cfg.flushBuffer buf cl).1 = .ok () ↔ buf.Flushable cfg cl := by
  unfold FileWriteBuffer.Flushable
  rcases cfg.flushBuffer_cases buf cl with
    ⟨hidle, heq⟩ | ⟨⟨hd, hne⟩, ⟨hm, ⟨hf, heq⟩ | ⟨e, hf, heq⟩⟩ | ⟨mp, hm, ⟨hw, heq⟩ | ⟨hw, heq⟩⟩⟩
  · rw [heq]
    refine iff_of_true rfl ?_
    intro hd hne
    rcases hidle with hclean | hempty
    · rw [hd] at hclean
      cases hclean
    · exact absurd hempty hne
  · rw [heq]
    exact iff_of_true rfl fun _ _ => .inl ⟨hm, hf⟩
  · rw [heq]
    refine iff_of_false nofun ?_
    intro h
    rcases h hd hne with ⟨-, hnone⟩ | ⟨mp, hmp, -⟩
    · rw [hf] at hnone
      cases hnone
    · rw [hm] at hmp
      cases hmp
  · rw [heq]
    refine iff_of_false nofun ?_
    intro h
    rcases h hd hne with ⟨hnone, -⟩ | ⟨mp', hmp', hends⟩
    · rw [hm] at hnone
      cases hnone
    · rw [hm] at hmp'
      cases hmp'
      exact hends hw
  · rw [heq]
    exact iff_of_true rfl fun _ _ => .inr ⟨mp, hm, hw⟩

theorem WriteBuffer.release_ok_iff (wb : WriteBuffer) (cl : ObsClient) (inode : ℕ) :
    (wb.release cl inode).1 = .ok () ↔
      ∀ buf ∈ wb.buffers.lookup inode, buf.Flushable wb.config cl := by
  cases hb : wb.buffers.lookup inode with
  | none =>
    rw [release_none hb]
    exact iff_of_true rfl nofun
  | some buf =>
    rw [release_some hb, wb.config.flushBuffer_ok_iff]
    refine ⟨?_, ?_⟩
    · intro h b hmem
      cases hmem
      exact h
    · intro h
      exact h buf rfl

/-! ### What the requests do to the table -/

namespace ObsFsCore
variable (s : ObsFsCore)

def HasHandle (fh : ℕ) : Prop := fh ∈ s.handleMgr.handles

instance (fh : ℕ) : Decidable (s.HasHandle fh) :=
  inferInstanceAs (Decidable (fh ∈ s.handleMgr.handles))

theorem hasHandle_update (fh k : ℕ) (f : HandleState → HandleState) :
    k ∈ (s.handleMgr.update fh f).handles ↔ s.HasHandle k := by
  unfold HasHandle HandleManager.update
  rw [← AList.lookup_isSome, ← AList.lookup_isSome]
  dsimp only
  rw [Table.lookup_modify]
  split
  · next h =>
    rw [h, Option.isSome_map]
  · rfl

theorem doUnlink_handleMgr (parent : ℕ) (name : OsStr) :
    (s.doUnlink parent name).2.handleMgr = s.handleMgr := by
  unfold doUnlink
  dsimp only
  repeat' split
  all_goals rfl

theorem doTruncate_handleMgr (now : Now) (inode size : ℕ) :
    (s.doTruncate now inode size).2.handleMgr = s.handleMgr := by
  unfold doTruncate
  repeat' split
  all_goals rfl

theorem setattr_handleMgr (now : Now) (inode : ℕ) (set : SetAttr) :
    (ObsFs.setattr s now inode set).2.handleMgr = s.handleMgr := by
  have hupdate : ∀ t : ObsFsCore, (ObsFs.updateAttr t now inode set).2.handleMgr = t.handleMgr := by
    intro t
    simp only [ObsFs.updateAttr]
    repeat' split
    all_goals rfl
  unfold ObsFs.setattr
  split
  · next size _ =>
    have htrunc := s.doTruncate_handleMgr now inode size
    generalize s.doTruncate now inode size = r at htrunc ⊢
    obtain ⟨_ | _ | _, t⟩ := r
    · exact (hupdate t).trans htrunc
    · exact htrunc
    · exact htrunc
  · exact hupdate s

theorem doRead_hasHandle (now : Now) (inode fh offset size k : ℕ) :
    (s.doRead now inode fh offset size).2.HasHandle k ↔ s.HasHandle k := by
  have hremote : ∀ (t : ObsFsCore) obs,
      (t.readRemote now inode obs offset size).2.handleMgr = t.handleMgr := by
    intro t obs
    simp only [readRemote]
    split
    · rfl
    · rfl
  have hupdate := s.hasHandle_update fh k (·.updatePosition now.instant offset size)
  unfold doRead
  dsimp only
  split
  · exact Iff.rfl
  · split
    · exact hupdate
    · split
      · split
        · exact hupdate
        · unfold HasHandle
          rw [hremote]
          exact hupdate
      · unfold HasHandle
        rw [hremote]
        exact hupdate

theorem doWrite_hasHandle (now : Now) (inode fh offset : ℕ) (data : Bytes) (k : ℕ) :
    (s.doWrite now inode fh offset data).2.HasHandle k ↔ s.HasHandle k := by
  unfold doWrite
  dsimp only
  split
  · exact Iff.rfl
  · split
    · exact Iff.rfl
    · exact Iff.rfl
    · exact s.hasHandle_update fh k _

theorem hasHandle_open (now : Now) (inode flags : ℕ) (isDir : Bool) (k : ℕ) :
    k ∈ (s.handleMgr.openHandle now.instant inode flags isDir).2.handles ↔
      k = s.handleMgr.nextHandle ∨ s.HasHandle k :=
  AList.mem_insert _

theorem hasHandle_close (fh k : ℕ) : k ∈ (s.handleMgr.close fh).handles ↔ k ≠ fh ∧ s.HasHandle k :=
  AList.mem_erase

/-- Truncating to nothing succeeds exactly for a known inode, if the request does not fail. -/
theorem doTruncate_zero_ok_iff (now : Now) (inode : ℕ) : (s.doTruncate now inode 0).1 = .ok () ↔
    (s.inodeMgr.getPath inode).isSome ∧ s.obsClient.fault = none := by
  unfold doTruncate
  cases hp : s.inodeMgr.getPath inode with
  | none => simp
  | some path =>
    simp only [WriteBuffer.truncate, if_true]
    generalize s.writeBuffer.getOrCreate now.instant inode (s.obsPath path) 0 = got
    cases hf : s.obsClient.fault with
    | some e =>
      rw [ObsClient.write_failed hf]
      exact iff_of_false nofun nofun
    | none =>
      rw [ObsClient.write_stored hf]
      exact iff_of_true rfl ⟨rfl, rfl⟩

end ObsFsCore

/-! ### The handles that are out -/

/-- The handle that a request gives back. -/
def FuseRequest.gives : FuseRequest → Option ℕ
  | .release _ fh | .releasedir _ fh => some fh
  | _ => none

/-- The handle that a reply without error carries. -/
def takenHandle : FsResult FuseReply → Option ℕ
  | .ok reply => reply.handle
  | _ => none

/-- The filesystem, and the handle numbers of replies for which no request to release them has
been made. -/
structure KernelHandles where
  core : ObsFsCore
  out : Finset ℕ

namespace KernelHandles

def step (m : KernelHandles) (r : FuseRequest) : KernelHandles :=
  let (reply, core) := ObsFs.serve m.core r
  ⟨core, (m.out \ r.gives.toFinset) ∪ (takenHandle reply).toFinset⟩

/-- The table holds exactly the handles that are out. -/
def Exact (m : KernelHandles) : Prop := ∀ fh, m.core.HasHandle fh ↔ fh ∈ m.out

/-- What the requests need: an open with `O_TRUNC` is of a known inode and its request does not
fail, unless the number it takes is in the table already; a handle in the table is released
when the flush of the inode's buffer succeeds. -/
def KeepsHandles (m : KernelHandles) : FuseRequest → Prop
  | .openFile _ inode flags =>
    flags &&& oTrunc ≠ 0 →
      ((m.core.inodeMgr.getPath inode).isSome ∧ m.core.obsClient.fault = none) ∨
        m.core.HasHandle m.core.handleMgr.nextHandle
  | .release inode fh =>
    m.core.HasHandle fh → ∀ buf ∈ m.core.writeBuffer.buffers.lookup inode,
      buf.Flushable m.core.writeBuffer.config m.core.obsClient
  | _ => True

instance decidableKeepsHandles (m : KernelHandles) :
    (r : FuseRequest) → Decidable (m.KeepsHandles r)
  | .openFile .. => inferInstanceAs (Decidable (_ → _ ∨ _))
  | .release .. => inferInstanceAs (Decidable (_ → ∀ buf ∈ _, _))
  | .lookup .. | .getattr .. | .setattr .. | .read .. | .write .. | .fsync _ | .opendir ..
  | .readdir .. | .releasedir .. | .create .. | .mkdir .. | .unlink .. | .rmdir .. | .rename ..
  | .flush _ | .access _ | .destroy _ => isTrue trivial

variable {m : KernelHandles}

theorem mem_step_out (r : FuseRequest) (k : ℕ) : k ∈ (m.step r).out ↔
    (k ∈ m.out ∧ r.gives ≠ some k) ∨ takenHandle (ObsFs.serve m.core r).1 = some k := by
  simp only [step, Finset.mem_union, Finset.mem_sdiff, Option.mem_toFinset, Option.mem_def, ne_eq]

theorem takenHandle_map {α : Type} {f : α → FuseReply} (hf : ∀ a, (f a).handle = none)
    (r : FsResult α) : takenHandle (r.map f) = none := by
  cases r with
  | ok a => exact hf a
  | err e => rfl
  | loops => rfl

/-- A request that neither takes nor gives a handle leaves the table and the numbers alone. -/
theorem Exact.passive (h : m.Exact) {r : FuseRequest} (hgives : r.gives = none)
    (htaken : takenHandle (ObsFs.serve m.core r).1 = none)
    (hcore : ∀ k, (ObsFs.serve m.core r).2.HasHandle k ↔ m.core.HasHandle k) :
    (m.step r).Exact := by
  intro k
  rw [mem_step_out, hgives, htaken]
  simp only [reduceCtorEq, ne_eq, not_false_eq_true, and_true, or_false]
  exact (hcore k).trans (h k)

theorem hasHandle_congr {s t : ObsFsCore} (h : t.handleMgr = s.handleMgr) (k : ℕ) :
    t.HasHandle k ↔ s.HasHandle k := by
  unfold ObsFsCore.HasHandle
  rw [h]

theorem Exact.opened (h : m.Exact) {r : FuseRequest} {fh : ℕ} (hgives : r.gives = none)
    (htaken : takenHandle (ObsFs.serve m.core r).1 = some fh)
    (hcore : ∀ k, (ObsFs.serve m.core r).2.HasHandle k ↔ k = fh ∨ m.core.HasHandle k) :
    (m.step r).Exact := by
  intro k
  rw [mem_step_out, hgives, htaken, ← h k]
  simp only [reduceCtorEq, ne_eq, not_false_eq_true, and_true, Option.some.injEq]
  rw [eq_comm, or_comm]
  exact hcore k

theorem Exact.closed (h : m.Exact) {r : FuseRequest} {fh : ℕ} (hgives : r.gives = some fh)
    (htaken : takenHandle (ObsFs.serve m.core r).1 = none)
    (hcore : ∀ k, (ObsFs.serve m.core r).2.HasHandle k ↔ k ≠ fh ∧ m.core.HasHandle k) :
    (m.step r).Exact := by
  intro k
  rw [mem_step_out, hgives, htaken, ← h k]
  simp only [reduceCtorEq, or_false, ne_eq, Option.some.injEq]
  rw [eq_comm, and_comm]
  exact hcore k

/-- A handle that is given back and stays in the table was not there. -/
theorem Exact.kept_iff (h : m.Exact) {r : FuseRequest} {fh : ℕ} (hgives : r.gives = some fh)
    (htaken : takenHandle (ObsFs.serve m.core r).1 = none)
    (hcore : ∀ k, (ObsFs.serve m.core r).2.HasHandle k ↔ m.core.HasHandle k) :
    (m.step r).Exact ↔ ¬m.core.HasHandle fh := by
  refine ⟨?_, ?_⟩
  · intro hstep hfh
    have hout := (hstep fh).mp ((hcore fh).mpr hfh)
    rw [mem_step_out, hgives, htaken] at hout
    simp at hout
  · intro hno k
    rw [mem_step_out, hgives, htaken, ← h k]
    simp only [reduceCtorEq, or_false, ne_eq, Option.some.injEq]
    refine ⟨?_, ?_⟩
    · intro hk
      have hold := (hcore k).mp hk
      refine ⟨hold, ?_⟩
      intro heq
      rw [heq] at hno
      exact hno hold
    · intro hk
      exact (hcore k).mpr hk.1

/-- A handle that is put in the table and not reported was there. -/
theorem Exact.leaked_iff (h : m.Exact) {r : FuseRequest} {fh : ℕ} (hgives : r.gives = none)
    (htaken : takenHandle (ObsFs.serve m.core r).1 = none)
    (hcore : ∀ k, (ObsFs.serve m.core r).2.HasHandle k ↔ k = fh ∨ m.core.HasHandle k) :
    (m.step r).Exact ↔ m.core.HasHandle fh := by
  have hout : ∀ k, k ∈ (m.step r).out ↔ m.core.HasHandle k := by
    intro k
    rw [mem_step_out, hgives, htaken, h k]
    simp
  refine ⟨?_, ?_⟩
  · intro hstep
    exact (hout fh).mp ((hstep fh).mp ((hcore fh).mpr (.inl rfl)))
  · intro hfh k
    rw [hout]
    refine ⟨?_, ?_⟩
    · intro hk
      rcases (hcore k).mp hk with heq | hold
      · rw [heq]
        exact hfh
      · exact hold
    · intro hk
      exact (hcore k).mpr (.inr hk)

theorem openFile_hasHandle (core : ObsFsCore) (now : Now) (inode flags k : ℕ) :
    (ObsFs.serve core (.openFile now inode flags)).2.HasHandle k ↔
      k = core.handleMgr.nextHandle ∨ core.HasHandle k := by
  rw [← core.hasHandle_open now inode flags false k]
  apply @hasHandle_congr (core.doOpen now inode flags).2
  have htable := (core.doOpen now inode flags).2.doTruncate_handleMgr now inode 0
  simp only [ObsFs.serve, ObsFs.openFile]
  split
  · generalize (core.doOpen now inode flags).2.doTruncate now inode 0 = r at htable ⊢
    obtain ⟨_ | _ | _, t⟩ := r
    · exact htable
    · exact htable
    · exact htable
  · rfl

theorem openFile_takenHandle (core : ObsFsCore) (now : Now) (inode flags : ℕ) :
    takenHandle (ObsFs.serve core (.openFile now inode flags)).1 =
      if flags &&& oTrunc ≠ 0 → (core.inodeMgr.getPath inode).isSome ∧ core.obsClient.fault = none
      then some core.handleMgr.nextHandle else none := by
  have hok : ((core.doOpen now inode flags).2.doTruncate now inode 0).1 = .ok () ↔
      (core.inodeMgr.getPath inode).isSome ∧ core.obsClient.fault = none :=
    (core.doOpen now inode flags).2.doTruncate_zero_ok_iff now inode
  simp only [ObsFs.serve, ObsFs.openFile]
  by_cases htrunc : flags &&& oTrunc ≠ 0
  · rw [if_pos htrunc]
    generalize (core.doOpen now inode flags).2.doTruncate now inode 0 = r at hok ⊢
    obtain ⟨_ | _ | _, t⟩ := r
    · rw [if_pos fun _ => hok.mp rfl]
      rfl
    · rw [if_neg fun h => nomatch hok.mpr (h htrunc)]
      rfl
    · rw [if_neg fun h => nomatch hok.mpr (h htrunc)]
      rfl
  · rw [if_neg htrunc, if_pos fun h => absurd h htrunc]
    rfl

theorem Exact.openFile_iff (h : m.Exact) (now : Now) (inode flags : ℕ) :
    (m.step (.openFile now inode flags)).Exact ↔ m.KeepsHandles (.openFile now inode flags) := by
  have hcore := openFile_hasHandle m.core now inode flags
  have htaken := openFile_takenHandle m.core now inode flags
  simp only [KeepsHandles]
  by_cases hok : flags &&& oTrunc ≠ 0 →
      (m.core.inodeMgr.getPath inode).isSome ∧ m.core.obsClient.fault = none
  · rw [if_pos hok] at htaken
    exact iff_of_true (h.opened rfl htaken hcore) fun htrunc => .inl (hok htrunc)
  · rw [if_neg hok] at htaken
    rw [h.leaked_iff rfl htaken hcore]
    refine ⟨?_, ?_⟩
    · exact fun hthere _ => .inr hthere
    · intro hkeep
      obtain ⟨htrunc, hfails⟩ := Classical.not_imp.mp hok
      exact (hkeep htrunc).resolve_left hfails

theorem Exact.release_iff (h : m.Exact) (inode fh : ℕ) :
    (m.step (.release inode fh)).Exact ↔ m.KeepsHandles (.release inode fh) := by
  have hok := m.core.writeBuffer.release_ok_iff m.core.obsClient inode
  have htaken : takenHandle (ObsFs.serve m.core (.release inode fh)).1 = none :=
    takenHandle_map (fun _ => rfl) _
  have hclose := m.core.hasHandle_close fh
  simp only [KeepsHandles]
  rw [← hok]
  cases hr : m.core.writeBuffer.release m.core.obsClient inode with
  | mk r rest =>
    cases r with
    | ok a =>
      refine iff_of_true (h.closed rfl htaken ?_) fun _ => rfl
      intro k
      rw [← hclose k]
      simp only [ObsFs.serve, ObsFsCore.doRelease, hr]
      rfl
    | err e =>
      rw [h.kept_iff rfl htaken]
      · exact ⟨fun hno hfh => absurd hfh hno, fun hkeep hfh => nomatch hkeep hfh⟩
      · intro k
        simp only [ObsFs.serve, ObsFsCore.doRelease, hr]
        rfl
    | loops =>
      rw [h.kept_iff rfl htaken]
      · exact ⟨fun hno hfh => absurd hfh hno, fun hkeep hfh => nomatch hkeep hfh⟩
      · intro k
        simp only [ObsFs.serve, ObsFsCore.doRelease, hr]
        rfl

theorem Exact.create (h : m.Exact) (now : Now) (parent : ℕ) (name : OsStr) (mode flags : ℕ) :
    (m.step (.create now parent name mode flags)).Exact := by
  cases hp : m.core.inodeMgr.getPath parent with
  | none =>
    apply h.passive rfl
    · simp only [ObsFs.serve, ObsFsCore.doCreate, hp]
      rfl
    · intro k
      simp only [ObsFs.serve, ObsFsCore.doCreate, hp]
  | some parentPath =>
    cases hw : m.core.obsClient.write
        (m.core.obsPath (ObsFsCore.childPath parentPath name)) [] with
    | mk answer cl =>
      cases answer with
      | error e =>
        apply h.passive rfl
        · simp only [ObsFs.serve, ObsFsCore.doCreate, hp, hw]
          rfl
        · intro k
          simp only [ObsFs.serve, ObsFsCore.doCreate, hp, hw]
          rfl
      | ok a =>
        refine @Exact.opened _ h _ m.core.handleMgr.nextHandle rfl ?_ ?_
        · simp only [ObsFs.serve, ObsFsCore.doCreate, hp, hw]
          rfl
        · intro k
          simp only [ObsFs.serve, ObsFsCore.doCreate, hp, hw]
          exact m.core.hasHandle_open now _ flags false k

theorem Exact.step_iff (h : m.Exact) (r : FuseRequest) : (m.step r).Exact ↔ m.KeepsHandles r := by
  cases r with
  | lookup now parent name =>
    exact iff_of_true (h.passive rfl (takenHandle_map (fun _ => rfl) _)
      (hasHandle_congr (m.core.doLookup_sameFiles now parent name).handleMgr)) trivial
  | getattr now inode =>
    exact iff_of_true (h.passive rfl (takenHandle_map (fun _ => rfl) _)
      (hasHandle_congr (m.core.doGetattr_sameFiles now inode).handleMgr)) trivial
  | setattr now inode set =>
    exact iff_of_true (h.passive rfl (takenHandle_map (fun _ => rfl) _)
      (hasHandle_congr (m.core.setattr_handleMgr now inode set))) trivial
  | openFile now inode flags => exact h.openFile_iff now inode flags
  | read now inode fh offset size =>
    exact iff_of_true (h.passive rfl (takenHandle_map (fun _ => rfl) _)
      (m.core.doRead_hasHandle now inode fh offset size)) trivial
  | write now inode fh offset data =>
    exact iff_of_true (h.passive rfl (takenHandle_map (fun _ => rfl) _)
      (m.core.doWrite_hasHandle now inode fh offset data)) trivial
  | release inode fh => exact h.release_iff inode fh
  | fsync inode | flush inode =>
    exact iff_of_true (h.passive rfl (takenHandle_map (fun _ => rfl) _)
      fun _ => Iff.rfl) trivial
  | opendir now inode flags =>
    exact iff_of_true (h.opened rfl rfl (m.core.hasHandle_open now inode flags true)) trivial
  | readdir now inode offset =>
    exact iff_of_true (h.passive rfl (takenHandle_map (fun _ => rfl) _)
      (hasHandle_congr (m.core.doReaddir_sameFiles now inode offset).handleMgr)) trivial
  | releasedir inode fh =>
    exact iff_of_true (h.closed rfl rfl (m.core.hasHandle_close fh)) trivial
  | create now parent name mode flags =>
    exact iff_of_true (h.create now parent name mode flags) trivial
  | mkdir now parent name mode =>
    exact iff_of_true (h.passive rfl (takenHandle_map (fun _ => rfl) _)
      (hasHandle_congr (m.core.doMkdir_sameFiles now parent name mode).handleMgr)) trivial
  | unlink parent name =>
    exact iff_of_true (h.passive rfl (takenHandle_map (fun _ => rfl) _)
      (hasHandle_congr (m.core.doUnlink_handleMgr parent name))) trivial
  | rmdir parent name =>
    exact iff_of_true (h.passive rfl (takenHandle_map (fun _ => rfl) _)
      (hasHandle_congr (m.core.doRmdir_sameFiles parent name).handleMgr)) trivial
  | rename now parent name newParent newName =>
    have hsame := m.core.doRename_sameFiles now parent name newParent newName
    exact iff_of_true (h.passive rfl (takenHandle_map (fun _ => rfl) _)
      (hasHandle_congr hsame.handleMgr)) trivial
  | access inode =>
    exact iff_of_true (h.passive rfl (takenHandle_map (fun _ => rfl) _)
      fun _ => Iff.rfl) trivial
  | destroy order => exact iff_of_true (h.passive rfl rfl fun _ => Iff.rfl) trivial

def start (config : Config) (valid : config.validate = .ok ()) (env : Surroundings) :
    KernelHandles :=
  ⟨.new config valid env, ∅⟩

theorem start_exact (config : Config) (valid : config.validate = .ok ()) (env : Surroundings) :
    (start config valid env).Exact := by
  intro fh
  exact iff_of_false (fun h => nomatch h) (Finset.notMem_empty fh)

end KernelHandles

/-- The table holds exactly the handles that are out, in every state of a run, exactly when no
open fails after its handle was taken and no release of a handle in the table fails to flush. -/
theorem handles_exact_iff (config : Config) (valid : config.validate = .ok ())
    (env : Surroundings) (requests : List FuseRequest) :
    (∀ n, (run KernelHandles.step (.start config valid env) (requests.take n)).Exact) ↔
      Along KernelHandles.step KernelHandles.KeepsHandles (.start config valid env) requests :=
  @forall_states_iff_along _ _ KernelHandles.step KernelHandles.KeepsHandles (fun _ => True)
    KernelHandles.Exact (fun _ _ _ => trivial) (fun _ r _ h => h.step_iff r) _ requests trivial
    (KernelHandles.start_exact config valid env)

/-- A file is created, opened with `O_TRUNC`, written and released twice, and a directory is
opened and released. -/
theorem released_handles_exact :
    (run KernelHandles.step (.start .basic Config.basic_valid (.still .fresh))
      [.create ⟨0, 0⟩ rootInode [97] 0o644 0, .openFile ⟨0, 0⟩ 2 oTrunc,
        .write ⟨0, 0⟩ 2 2 0 [1, 2], .release 2 2, .opendir ⟨0, 0⟩ rootInode 0, .release 2 1,
        .releasedir rootInode 3]).Exact :=
  (handles_exact_iff .basic Config.basic_valid (.still .fresh)
    [.create ⟨0, 0⟩ rootInode [97] 0o644 0, .openFile ⟨0, 0⟩ 2 oTrunc,
      .write ⟨0, 0⟩ 2 2 0 [1, 2], .release 2 2, .opendir ⟨0, 0⟩ rootInode 0, .release 2 1,
      .releasedir rootInode 3]).mpr (by decide) 7

/-- Storage that fails the second request: a file is created and opened again with `O_TRUNC`.
The open is refused and its handle stays in the table. -/
theorem refused_open_leaks_handle :
    let client := { ObsClient.fresh with
      faults := fun n => if n = 1 then some .unexpected else none }
    let created := KernelHandles.step (.start .basic Config.basic_valid (.still client))
      (.create ⟨0, 0⟩ rootInode [97] 0o644 0)
    let r := ObsFs.serve created.core (.openFile ⟨1, 1⟩ 2 oTrunc)
    r.1 = .err .ioError ∧ r.2.HasHandle 2 ∧ created.out = {1} ∧
      ¬(created.step (.openFile ⟨1, 1⟩ 2 oTrunc)).Exact := by
  refine ⟨by decide, by decide, by decide, ?_⟩
  intro h
  have hleak := (h 2).mp (by decide)
  exact absurd hleak (by decide)

end ObsFuse
