import ObsFuse.Cache.BufferRequests
import ObsFuse.Fs.Steps
import ObsFuse.Fs.ReadPath
import ObsFuse.Fs.WritePath
import ObsFuse.Fs.Mount

/-! # Reading back what was just written

`do_read` never looks into the write buffer. After a write it answers from a prefetched
entry, from what the data cache still has of the block, or from the object, and the object
has the new bytes only where the write was passed on to the storage. -/

namespace ObsFuse
open Lib

namespace WriteBufferConfig
variable (cfg : WriteBufferConfig) {buf : FileWriteBuffer} {cl : ObsClient}

/-- What the key `path` holds once a write to it has succeeded, `old` before. -/
def objectAfter (buf : FileWriteBuffer) (path : Str) (offset : ℕ) (data : Bytes)
    (old : Option Bytes) : Option Bytes :=
  if buf.goesDirect offset then some data
  else if buf.multipart = none ∧ buf.data.length + data.length < cfg.multipartThreshold ∧
      cfg.bufferSize ≤ buf.data.length + data.length ∧ buf.data ++ data ≠ [] ∧ buf.path = path then
    some (buf.data ++ data)
  else old

theorem writeLocked_uploading {now : Instant} {path : Str} {offset : ℕ} {data : Bytes}
    (hdir : buf.goesDirect offset = false)
    (hm : (cfg.startMultipart (buf.appended now offset data) path).multipart.isSome) :
    (cfg.writeLocked buf cl now path offset data).2.2 = cl := by
  rw [writeLocked_buffered cfg now path offset data hdir]
  generalize cfg.startMultipart (buf.appended now offset data) path = started at hm ⊢
  cases hparts : cfg.flushParts started with
  | none => rfl
  | some parted =>
    have hsome : parted.multipart.isSome := by
      unfold flushParts at hparts
      rw [if_pos hm] at hparts
      rw [cfg.partLoop_multipart hparts]
      exact hm
    have hnone : parted.multipart.isNone = false := by
      cases hp : parted.multipart with
      | none =>
        rw [hp] at hsome
        cases hsome
      | some mp => rfl
    simp only [hnone, Bool.and_false, Bool.false_eq_true, if_false]

theorem writeLocked_object {now : Instant} {path : Str} {offset n : ℕ} {data : Bytes}
    (h : (cfg.writeLocked buf cl now path offset data).1 = .ok n) :
    AList.lookup path (cfg.writeLocked buf cl now path offset data).2.2.objects =
      cfg.objectAfter buf path offset data (AList.lookup path cl.objects) := by
  unfold objectAfter
  cases hdir : buf.goesDirect offset with
  | true =>
    rw [writeLocked_direct cfg now path offset data hdir] at h ⊢
    generalize cfg.flushBuffer (buf.placed offset data.length) cl = r at h ⊢
    obtain ⟨_ | _ | _, buf', cl'⟩ := r
    · dsimp only at h ⊢
      cases hf : cl'.fault with
      | some e =>
        rw [ObsClient.write_failed hf] at h
        cases h
      | none =>
        rw [ObsClient.write_stored hf]
        simp
    · cases h
    · cases h
  | false =>
    simp only [Bool.false_eq_true, if_false]
    by_cases hm : buf.multipart = none ∧ buf.data.length + data.length < cfg.multipartThreshold
    · obtain ⟨hm, ht⟩ := hm
      by_cases hb : cfg.bufferSize ≤ buf.data.length + data.length
      · rw [writeLocked_autoflush cfg now path offset data hdir hm ht hb] at h ⊢
        by_cases hne : buf.data ++ data = []
        · rw [flushBuffer_idle cfg (.inr hne)] at h ⊢
          simp [hne]
        · cases hf : cl.fault with
          | some e =>
            rw [@flushBuffer_fails cfg (buf.appended now offset data) cl rfl hne hm e hf] at h
            cases h
          | none =>
            rw [@flushBuffer_stores cfg (buf.appended now offset data) cl rfl hne hm hf]
            simp only [ObsClient.stored_lookup, FileWriteBuffer.appended_path,
              FileWriteBuffer.appended_data]
            by_cases hpath : path = buf.path
            · rw [if_pos hpath, if_pos ⟨hm, ht, hb, hne, hpath.symm⟩]
            · rw [if_neg hpath, if_neg fun hc => hpath hc.2.2.2.2.symm]
      · rw [writeLocked_append cfg now path offset data hdir hm ht (by omega),
          if_neg fun hc => hb hc.2.2.1]
    · have hstart : (cfg.startMultipart (buf.appended now offset data) path).multipart.isSome := by
        obtain ⟨mp, heq⟩ := cfg.startMultipart_uploads now path offset data hm
        rw [heq]
        rfl
      rw [writeLocked_uploading cfg hdir hstart, if_neg fun hc => hm ⟨hc.1, hc.2.1⟩]

end WriteBufferConfig

def Holds (d : Bytes) (pos : ℕ) (data : Bytes) : Prop := (d.drop pos).take data.length = data

instance (d : Bytes) (pos : ℕ) (data : Bytes) : Decidable (Holds d pos data) :=
  inferInstanceAs (Decidable (_ = _))

theorem holds_zero (d data : Bytes) :
    d.take (min data.length d.length) = data ↔ Holds d 0 data := by
  have htake : d.take data.length = d.take (min data.length d.length) := List.take_eq_take_min ..
  rw [Holds, List.drop_zero, htake]

theorem holds_clipped (d : Bytes) (pos : ℕ) (data : Bytes) :
    (d.take (min (pos + data.length) d.length)).drop pos = data ↔ Holds d pos data := by
  rw [Holds, ← List.take_eq_take_min, List.drop_take, Nat.add_sub_cancel_left]

namespace ObsFsCore
variable (s : ObsFsCore)

/-- What the data cache answers for the block of `offset` once `len` bytes from there on are
invalidated, if it reaches past the place of the offset in the block. -/
def blockLeft (inode offset len : ℕ) : Option Bytes :=
  let key := s.dataCache.key inode offset
  let left :=
    if s.dataCache.Removes inode offset len key then s.dataCache.fromDisk key
    else s.dataCache.visible key
  left.filter fun d => offset % s.dataCache.blockSize < d.length

/-- What the object of the file holds after a write that succeeds. -/
def objectAfter (now : Now) (inode : ℕ) (path : Str) (offset : ℕ) (data : Bytes) :
    Option Bytes :=
  let obs := s.obsPath path
  let buf := s.writeBuffer.bufferFor now.instant inode obs (s.knownSize now.instant inode)
  s.writeBuffer.config.objectAfter buf obs offset data (AList.lookup obs s.obsClient.objects)

/-- The place from which a read at `now'` is answered has the written bytes: a prefetched
entry that is live then, else what is left of the block, else the object, if the storage
answers the request that follows those of the write and reads the range. -/
def Shows (now now' : Now) (inode offset : ℕ) (data : Bytes) : Prop :=
  match (s.readahead.getPrefetched now'.instant inode offset).1 with
  | some d => Holds d 0 data
  | none =>
    match s.blockLeft inode offset data.length with
    | some d => Holds d (offset % s.dataCache.blockSize) data
    | none =>
      ∃ path, s.inodeMgr.getPath inode = some path ∧
        (s.bufferWrite now inode path offset data).2.2.fault = none ∧
        ∃ object, s.objectAfter now inode path offset data = some object ∧
          s.obsClient.backend.refusesRead object offset data.length = none ∧
            Holds object offset data

theorem cachedAnswer_invalidated {s s' : ObsFsCore} {inode offset len : ℕ}
    (h : s'.dataCache = s.dataCache.invalidateRange inode offset len) :
    s'.cachedAnswer inode offset len = (s.blockLeft inode offset len).map fun d =>
      (d.take (min (offset % s.dataCache.blockSize + len) d.length)).drop
        (offset % s.dataCache.blockSize) := by
  have hkey : s'.dataCache.key inode offset = s.dataCache.key inode offset := by
    rw [h]
    rfl
  have hsize : s'.dataCache.blockSize = s.dataCache.blockSize := by
    rw [h]
    rfl
  simp only [cachedAnswer, blockLeft]
  rw [hkey, hsize, h, DataCache.invalidateRange_visible]
  generalize (if s.dataCache.Removes inode offset len (s.dataCache.key inode offset) then
    s.dataCache.fromDisk (s.dataCache.key inode offset)
    else s.dataCache.visible (s.dataCache.key inode offset)) = left
  rcases left with _ | d
  · rfl
  · by_cases hlt : offset % s.dataCache.blockSize < d.length
    · simp only [Option.filter_some, hlt, decide_true, if_true, Option.map_some]
    · simp only [Option.filter_some, hlt, decide_false, Bool.false_eq_true, if_false,
        Option.map_none]

theorem readRemote_holds (now : Now) (inode : ℕ) (obs : Str) (offset : ℕ) (data : Bytes) :
    (s.readRemote now inode obs offset data.length).1 = .ok data ↔
      s.obsClient.fault = none ∧
        ∃ object, AList.lookup obs s.obsClient.objects = some object ∧
          s.obsClient.backend.refusesRead object offset data.length = none ∧
            Holds object offset data := by
  unfold readRemote ObsClient.readRange
  cases s.obsClient.fault with
  | some e => simp
  | none =>
    cases AList.lookup obs s.obsClient.objects with
    | none => simp
    | some object =>
      cases hc : s.obsClient.backend.refusesRead object offset data.length with
      | some e => simp [hc]
      | none => simp [Holds, hc]

/-- A read right after a successful write, through any handle. -/
theorem doRead_doWrite_iff {s : ObsFsCore} {now : Now} {inode fh offset n : ℕ} {data : Bytes}
    (hok : (s.doWrite now inode fh offset data).1 = .ok n) (now' : Now) (fh' : ℕ) :
    ((s.doWrite now inode fh offset data).2.doRead now' inode fh' offset data.length).1 =
        .ok data ↔ s.Shows now now' inode offset data := by
  obtain ⟨-, ⟨path, hpath⟩, hcache, hread⟩ := s.doWrite_ok hok
  obtain ⟨-, hclient, hresult⟩ := s.doWrite_buffer hpath now fh offset data
  have hconfig := s.doWrite_config now inode fh offset data
  have hpath' := s.doWrite_getPath now inode fh offset data inode
  rw [hresult, Outcome.mapErr_eq_ok] at hok
  have hbackend : (s.bufferWrite now inode path offset data).2.2.backend = s.obsClient.backend :=
    WriteBuffer.write_backend ..
  generalize (s.doWrite now inode fh offset data).2 = s' at hcache hread hclient hconfig hpath' ⊢
  have hobject : AList.lookup (s'.obsPath path) s'.obsClient.objects =
      s.objectAfter now inode path offset data := by
    rw [obsPath_congr hconfig, hclient]
    rw [bufferWrite, WriteBuffer.write_eq] at hok ⊢
    exact s.writeBuffer.config.writeLocked_object hok
  rw [hpath] at hpath'
  rw [doRead_eq s' hpath', cachedAnswer_invalidated hcache, hread, Shows]
  cases (s.readahead.getPrefetched now'.instant inode offset).1 with
  | some d =>
    dsimp only
    rw [Outcome.ok.injEq]
    exact holds_zero d data
  | none =>
    dsimp only
    cases s.blockLeft inode offset data.length with
    | some d =>
      dsimp only [Option.map_some]
      rw [Outcome.ok.injEq]
      exact holds_clipped d _ data
    | none =>
      dsimp only [Option.map_none]
      rw [readRemote_holds]
      have hasked : (s'.askedCache now' inode fh' offset data.length).obsClient = s'.obsClient :=
        rfl
      rw [hasked, hobject, hpath, hclient, hbackend]
      constructor
      · intro h
        exact ⟨path, rfl, h⟩
      · intro h
        obtain ⟨p, hp, hrest⟩ := h
        cases hp
        exact hrest

def ReadsBack : FsOp → Prop
  | .write now inode fh offset data =>
    (s.doWrite now inode fh offset data).1.isOk → ∀ now' fh', now.instant ≤ now'.instant →
      ((s.doWrite now inode fh offset data).2.doRead now' inode fh' offset data.length).1 =
        .ok data
  | _ => True

def WriteShows : FsOp → Prop
  | .write now inode fh offset data =>
    (s.doWrite now inode fh offset data).1.isOk → ∀ now', now.instant ≤ now'.instant →
      s.Shows now now' inode offset data
  | _ => True

theorem readsBack_iff (op : FsOp) : s.ReadsBack op ↔ s.WriteShows op := by
  cases op with
  | write now inode fh offset data =>
    apply forall_congr'
    intro hok
    obtain ⟨n, hn⟩ := Outcome.isOk_iff.mp hok
    constructor
    · intro h now' hle
      exact (doRead_doWrite_iff hn now' fh).mp (h now' fh hle)
    · intro h now' fh' hle
      exact (doRead_doWrite_iff hn now' fh').mpr (h now' hle)
  | _ => exact Iff.rfl

end ObsFsCore

/-- In a run of the filesystem from any state, every successful write is read back exactly
when at every such write the bytes show where the read looks. -/
theorem every_write_reads_back_iff (s : ObsFsCore) (ops : List FsOp) :
    Along ObsFsCore.step ObsFsCore.ReadsBack s ops ↔
      Along ObsFsCore.step ObsFsCore.WriteShows s ops :=
  along_congr fun s op => s.readsBack_iff op

/-- The first byte of a three-byte file is overwritten, and a read still sees the old one. -/
theorem buffered_write_not_read_back :
    let s := ObsFsCore.oneFile .basic Config.basic_valid [1, 2, 3]
    (s.doWrite ⟨1, 1⟩ 2 1 0 [9]).1 = .ok 1 ∧
      ((s.doWrite ⟨1, 1⟩ 2 1 0 [9]).2.doRead ⟨2, 2⟩ 2 1 0 1).1 = .ok [1] := by
  decide

end ObsFuse
