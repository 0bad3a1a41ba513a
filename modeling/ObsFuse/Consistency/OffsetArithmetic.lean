import ObsFuse.Cache.BlockView
import ObsFuse.Consistency.PrefetchRanges
import ObsFuse.Fs.CheckedPath
import ObsFuse.Fs.Mount
import ObsFuse.Cache.FileBuffer

/-! # The arithmetic of the data path

The offsets and sizes that the kernel can send leave so much room below 2^64 that the block size
and the window may be added to them. The offsets and sizes that the read-ahead recorded were
sent earlier, so they leave the same room. Two numbers of the data path are no offsets: the
count of sequential reads is at most the number of reads, and the sum of the sizes that an
invalidation removes is at most the bytes that the cache holds in memory. -/

namespace ObsFuse
open Lib

/-- An offset and a size that the kernel can send. -/
structure Sendable (offset size : ℕ) : Prop where
  offset_lt : offset < 2 ^ 63
  size_lt : size < 2 ^ 32

instance (offset size : ℕ) : Decidable (Sendable offset size) :=
  decidable_of_iff (offset < 2 ^ 63 ∧ size < 2 ^ 32)
    ⟨fun h => ⟨h.1, h.2⟩, fun h => ⟨h.offset_lt, h.size_lt⟩⟩

def ReadaheadCall.Sends : ReadaheadCall → Prop
  | .read _ _ offset size => Sendable offset size
  | _ => True

instance : DecidablePred ReadaheadCall.Sends
  | .read _ _ offset size => inferInstanceAs (Decidable (Sendable offset size))
  | .getPrefetched .. | .storePrefetched .. | .invalidate .. => isTrue trivial

theorem ReadState.update_seqCount_le (st : ReadState) (now : Instant) (offset size : ℕ) :
    (st.update now offset size).2.seqCount ≤ st.seqCount + 1 := by
  unfold update
  dsimp only
  split
  · exact Nat.le_refl _
  · exact Nat.le_add_left 1 st.seqCount

namespace ReadaheadManager
variable {m : ReadaheadManager} {inode offset size k : ℕ} {add : ℕ → ℕ → Option ℕ}

def step (m : ReadaheadManager) : ReadaheadCall → ReadaheadManager
  | .read now inode offset size => (m.recordRead now inode offset size).2
  | .getPrefetched now inode offset => (m.getPrefetched now inode offset).2
  | .storePrefetched now inode offset data => m.storePrefetched now inode offset data
  | .invalidate inode => m.invalidate inode

def RecordsSendable (m : ReadaheadManager) : Prop :=
  ∀ inode, ∀ st ∈ AList.lookup inode m.fileStates, Sendable st.lastOffset st.lastSize

theorem RecordsSendable.recordRead (h : m.RecordsSendable) (now : Instant) (inode : ℕ)
    (hsend : Sendable offset size) : (m.recordRead now inode offset size).2.RecordsSendable := by
  cases henable : m.config.enable with
  | false =>
    rw [recordRead_disabled henable]
    exact h
  | true =>
    rw [recordRead_enabled henable]
    split
    · exact Table.forall_lookup_insert h inode hsend
    · exact Table.forall_lookup_insert h inode hsend

theorem getPrefetched_fileStates (m : ReadaheadManager) (now : Instant) (inode offset : ℕ) :
    (m.getPrefetched now inode offset).2.fileStates = m.fileStates := by
  unfold getPrefetched
  split
  · split
    · rfl
    · rfl
  · rfl

theorem RecordsSendable.getPrefetched (h : m.RecordsSendable) (now : Instant)
    (inode offset : ℕ) : (m.getPrefetched now inode offset).2.RecordsSendable := by
  unfold RecordsSendable
  rw [getPrefetched_fileStates]
  exact h

theorem RecordsSendable.step (h : m.RecordsSendable) {call : ReadaheadCall}
    (hcall : call.Sends) : (m.step call).RecordsSendable := by
  cases call with
  | read now inode offset size => exact h.recordRead now inode hcall
  | getPrefetched now inode offset => exact h.getPrefetched now inode offset
  | storePrefetched now inode offset data => exact h
  | invalidate inode => exact fun k st hst => h k st (Table.lookup_of_erase hst)

theorem step_config (m : ReadaheadManager) (call : ReadaheadCall) :
    (m.step call).config = m.config := by
  cases call with
  | read now inode offset size => exact m.recordRead_config now inode offset size
  | getPrefetched now inode offset => exact m.getPrefetched_config now inode offset
  | storePrefetched now inode offset data => rfl
  | invalidate inode => rfl

theorem run_recordsSendable (config : ReadaheadConfig) {calls : List ReadaheadCall}
    (hcalls : ∀ call ∈ calls, call.Sends) :
    (run step (.new config) calls).RecordsSendable ∧
      (run step (.new config) calls).config = config := by
  have hnew : (ReadaheadManager.new config).RecordsSendable := fun _ _ hst => nomatch hst
  have hrun := @run_invariant_of_forall _ _ step ReadaheadCall.Sends
    (fun m => m.RecordsSendable ∧ m.config = config) ?_ (.new config) calls ⟨hnew, rfl⟩ hcalls
  · exact hrun
  · intro m call hm hcall
    exact ⟨hm.1.step hcall, (m.step_config call).trans hm.2⟩

/-- No file was counted more than `k` sequential reads. -/
def CountsAtMost (k : ℕ) (m : ReadaheadManager) : Prop :=
  ∀ inode, ∀ st ∈ AList.lookup inode m.fileStates, st.seqCount ≤ k

theorem CountsAtMost.stateOf (h : m.CountsAtMost k) (now : Instant) (inode : ℕ) :
    (m.stateOf now inode).seqCount ≤ k := by
  unfold ReadaheadManager.stateOf
  cases hst : AList.lookup inode m.fileStates with
  | none => exact Nat.zero_le k
  | some st => exact h inode st hst

theorem CountsAtMost.recordRead (h : m.CountsAtMost k) (now : Instant) (inode offset size : ℕ) :
    (m.recordRead now inode offset size).2.CountsAtMost (k + 1) := by
  have hold : m.CountsAtMost (k + 1) := fun i st hst => Nat.le_succ_of_le (h i st hst)
  have hnew : ((m.stateOf now inode).update now offset size).2.seqCount ≤ k + 1 :=
    (ReadState.update_seqCount_le ..).trans (Nat.succ_le_succ (h.stateOf now inode))
  cases henable : m.config.enable with
  | false =>
    rw [recordRead_disabled henable]
    exact hold
  | true =>
    rw [recordRead_enabled henable]
    split
    · exact Table.forall_lookup_insert hold inode hnew
    · exact Table.forall_lookup_insert hold inode hnew

theorem CountsAtMost.step (h : m.CountsAtMost k) (call : ReadaheadCall) :
    (m.step call).CountsAtMost (k + 1) := by
  have hold : m.CountsAtMost (k + 1) := fun i st hst => Nat.le_succ_of_le (h i st hst)
  cases call with
  | read now inode offset size => exact h.recordRead now inode offset size
  | getPrefetched now inode offset =>
    intro i st hst
    rw [ReadaheadManager.step, getPrefetched_fileStates] at hst
    exact hold i st hst
  | storePrefetched now inode offset data => exact hold
  | invalidate inode => exact fun i st hst => hold i st (Table.lookup_of_erase hst)

/-- Each call counts at most one read. -/
theorem CountsAtMost.run (h : m.CountsAtMost k) (calls : List ReadaheadCall) :
    (Lib.run ReadaheadManager.step m calls).CountsAtMost (k + calls.length) := by
  induction calls generalizing m k with
  | nil => exact h
  | cons call calls ih =>
    have hrest := ih (h.step call)
    rw [Nat.add_assoc, Nat.add_comm 1 calls.length] at hrest
    exact hrest

theorem run_countsAtMost (config : ReadaheadConfig) (calls : List ReadaheadCall) :
    (Lib.run step (.new config) calls).CountsAtMost calls.length := by
  have hnew : (ReadaheadManager.new config).CountsAtMost 0 := fun _ _ hst => nomatch hst
  have hrun := hnew.run calls
  rw [Nat.zero_add] at hrun
  exact hrun

theorem RecordsSendable.stateOf (h : m.RecordsSendable) (now : Instant) (inode : ℕ) :
    Sendable (m.stateOf now inode).lastOffset (m.stateOf now inode).lastSize := by
  unfold ReadaheadManager.stateOf
  cases hst : AList.lookup inode m.fileStates with
  | none => exact ⟨Nat.two_pow_pos 63, Nat.two_pow_pos 32⟩
  | some st => exact h inode st hst

theorem checkedRecordRead_eq (h : m.RecordsSendable) (hsend : Sendable offset size)
    (hwindow : m.config.windowSize ≤ 2 ^ 62) (hcount : m.CountsAtMost k)
    (hadd : AddsUpTo add (k + 1)) (now : Instant) :
    m.checkedRecordRead add now inode offset size = some (m.recordRead now inode offset size) := by
  have hoffset := hsend.offset_lt
  have hsize := hsend.size_lt
  obtain ⟨hlo, hls⟩ := h.stateOf now inode
  have hstart : checkedAdd 64 offset size = some (offset + size) := checkedAdd_eq (by omega)
  have hend : checkedAdd 64 (offset + size) m.config.windowSize =
      some (offset + size + m.config.windowSize) := checkedAdd_eq (by omega)
  have hupdate : (m.stateOf now inode).checkedUpdate add now offset size = _ :=
    ReadState.checkedUpdate_eq (by omega)
      (hadd.mono (Nat.succ_le_succ (hcount.stateOf now inode))) now offset size
  unfold ReadaheadManager.stateOf at hupdate
  cases henable : m.config.enable with
  | false =>
    unfold checkedRecordRead ReadaheadManager.recordRead
    rw [henable]
    rfl
  | true =>
    simp only [checkedRecordRead, ReadaheadManager.recordRead, henable, hupdate, hstart, hend,
      u64_eq (show offset + size < 2 ^ 64 by omega),
      u64_eq (show offset + size + m.config.windowSize < 2 ^ 64 by omega), Option.bind_eq_bind,
      Option.bind_some, Bool.not_true, Bool.false_eq_true, if_false]
    split
    · split
      · rfl
      · rfl
    · rfl

end ReadaheadManager

namespace ObsFsCore
variable {s : ObsFsCore} {inode offset size k : ℕ} {add : ℕ → ℕ → Option ℕ}

theorem checkedReadRemote_eq (h : s.readahead.RecordsSendable) (hsend : Sendable offset size)
    (hwindow : s.readahead.config.windowSize ≤ 2 ^ 62) (hcount : s.readahead.CountsAtMost k)
    (hadd : AddsUpTo add (k + 1)) (now : Now) (obs : Str) :
    s.checkedReadRemote add now inode obs offset size =
      some (s.readRemote now inode obs offset size) := by
  have hput : ∀ data, s.dataCache.checkedPut inode offset data =
      some (s.dataCache.put inode offset data) :=
    DataCache.checkedPut_eq (hsend.offset_lt.trans (by decide))
  have hrecord : s.readahead.checkedRecordRead add now.instant inode offset size = _ :=
    ReadaheadManager.checkedRecordRead_eq h hsend hwindow hcount hadd now.instant
  unfold checkedReadRemote readRemote
  cases s.obsClient.readRange obs offset size with
  | mk answer cl =>
    cases answer with
    | error e => rfl
    | ok data =>
      dsimp only
      rw [hput, hrecord]
      rfl

theorem checkedDoRead_eq (h : s.readahead.RecordsSendable) (hsend : Sendable offset size)
    (hwindow : s.readahead.config.windowSize ≤ 2 ^ 62) (hblock : s.dataCache.blockSize ≤ 2 ^ 62)
    (hcount : s.readahead.CountsAtMost k) (hadd : AddsUpTo add (k + 1)) (now : Now) (fh : ℕ) :
    s.checkedDoRead add now inode fh offset size = some (s.doRead now inode fh offset size) := by
  have hoffset := hsend.offset_lt
  have hsize := hsend.size_lt
  unfold checkedDoRead doRead
  cases s.inodeMgr.getPath inode with
  | none => rfl
  | some path =>
    have hmgr : s.handleMgr.checkedUpdate fh (·.checkedUpdatePosition now.instant offset size) =
        some (s.handleMgr.update fh (·.updatePosition now.instant offset size)) :=
      HandleManager.checkedUpdate_eq
        (fun st => HandleState.checkedUpdatePosition_eq (by omega) st now.instant) s.handleMgr fh
    dsimp only
    rw [hmgr, Option.bind_eq_bind, Option.bind_some]
    have hremote : ∀ s' : ObsFsCore,
        s'.readahead = (s.readahead.getPrefetched now.instant inode offset).2 →
          s'.checkedReadRemote add now inode (s.obsPath path) offset size =
            some (s'.readRemote now inode (s.obsPath path) offset size) := by
      intro s' hs'
      refine checkedReadRemote_eq ?_ hsend ?_ ?_ hadd now (s.obsPath path)
      · rw [hs']
        exact h.getPrefetched now.instant inode offset
      · rw [hs', ReadaheadManager.getPrefetched_config]
        exact hwindow
      · unfold ReadaheadManager.CountsAtMost
        rw [hs', ReadaheadManager.getPrefetched_fileStates]
        exact hcount
    generalize s.readahead.getPrefetched now.instant inode offset = p at hremote
    obtain ⟨prefetched, readahead⟩ := p
    cases prefetched with
    | some data =>
      dsimp only
      rw [checkedSlice_eq (Nat.zero_le _) (Nat.min_le_right ..)]
      rfl
    | none =>
      have hget : s.dataCache.checkedGet inode offset = some (s.dataCache.get inode offset) :=
        DataCache.checkedGet_eq (by omega)
      have hbs := s.dataCache.get_blockSize inode offset
      dsimp only
      rw [hget, Option.bind_eq_bind, Option.bind_some]
      generalize s.dataCache.get inode offset = r at hbs
      obtain ⟨cached, dataCache⟩ := r
      cases cached with
      | none => exact hremote _ rfl
      | some data =>
        have hpos := dataCache.blockSize_pos
        have hstart := Nat.mod_lt offset hpos
        have hstop : checkedAdd 64 (offset % dataCache.blockSize) size =
            some (offset % dataCache.blockSize + size) := by
          refine checkedAdd_eq ?_
          dsimp only at hbs
          omega
        dsimp only
        rw [checkedRem_eq hpos, Option.bind_eq_bind, Option.bind_some, hstop,
          Option.bind_eq_bind, Option.bind_some]
        by_cases hin : offset % dataCache.blockSize < data.length
        · rw [if_pos hin, if_pos hin, checkedSlice_eq (by omega) (Nat.min_le_right ..)]
          rfl
        · rw [if_neg hin, if_neg hin]
          exact hremote _ rfl

theorem checkedDoWrite_eq {data : Bytes} (hsend : Sendable offset data.length)
    (hblock : s.dataCache.blockSize ≤ 2 ^ 62) (hadd : AddsUpTo add s.dataCache.heldBytes)
    (now : Now) (fh : ℕ) :
    s.checkedDoWrite add now inode fh offset data = some (s.doWrite now inode fh offset data) := by
  have hoffset := hsend.offset_lt
  have hsize := hsend.size_lt
  have hsum : checkedAdd 64 offset data.length = some (offset + data.length) :=
    checkedAdd_eq (by omega)
  have hmgr : s.handleMgr.checkedUpdate fh (fun st => do
        let st ← st.checkedUpdatePosition now.instant offset data.length
        return st.markDirty) =
      some (s.handleMgr.update fh
        fun st => (st.updatePosition now.instant offset data.length).markDirty) := by
    refine HandleManager.checkedUpdate_eq (fun st => ?_) s.handleMgr fh
    rw [HandleState.checkedUpdatePosition_eq (by omega)]
    rfl
  have hinvalidate : s.dataCache.checkedInvalidateRange add inode offset data.length =
      some (s.dataCache.invalidateRange inode offset data.length) :=
    DataCache.checkedInvalidateRange_eq (by omega) (hadd.mono (DataCache.removedBytes_le ..))
  cases hpath : s.inodeMgr.getPath inode with
  | none =>
    unfold checkedDoWrite doWrite
    rw [hpath]
  | some path =>
    unfold checkedDoWrite doWrite
    rw [hpath]
    dsimp only
    -- a write that succeeds reports the length of its data
    have hwritten : ∀ n, (s.writeBuffer.write s.obsClient now.instant inode (s.obsPath path) offset
        data (((s.metadataCache.getAttr now.instant inode).1.map (·.size)).getD 0)).1 = .ok n →
          n = data.length := fun _ => WriteBuffer.write_ok
    generalize s.writeBuffer.write s.obsClient now.instant inode (s.obsPath path) offset data
      (((s.metadataCache.getAttr now.instant inode).1.map (·.size)).getD 0) = r at hwritten
    obtain ⟨written | e | _, wb, cl⟩ := r
    · obtain rfl := hwritten written rfl
      dsimp only
      rw [hmgr, hsum, hinvalidate, u64_eq (show offset + data.length < 2 ^ 64 by omega)]
      rfl
    · rfl
    · rfl

end ObsFsCore

/-- For every call that the kernel can send, with blocks and a window of at most 2^62 bytes and
whatever is cached or prefetched, the checked functions compute what the others do. The two
sums that are no offsets are checked too where fewer than 2^64 reads were made and the cached
blocks fit into a 64-bit memory. -/
theorem data_path_in_range (config : ReadaheadConfig) (hwindow : config.windowSize ≤ 2 ^ 62)
    (calls : List ReadaheadCall) (hcalls : ∀ call ∈ calls, call.Sends) (s : ObsFsCore)
    (hahead : s.readahead = run ReadaheadManager.step (.new config) calls)
    (hblock : s.dataCache.blockSize ≤ 2 ^ 62) (now : Now) (inode fh offset size : ℕ)
    (data : Bytes) (hread : Sendable offset size) (hwrite : Sendable offset data.length) :
    (∀ st : HandleState, st.checkedUpdatePosition now.instant offset size =
      some (st.updatePosition now.instant offset size)) ∧
    BlockKey.checkedNew inode offset s.dataCache.blockSize =
      some (.new inode offset s.dataCache.blockSize) ∧
    (∀ add, add = uncheckedAdd ∨ add = checkedAdd 64 ∧ calls.length + 1 < 2 ^ 64 →
      s.readahead.checkedRecordRead add now.instant inode offset size =
          some (s.readahead.recordRead now.instant inode offset size) ∧
        s.checkedDoRead add now inode fh offset size = some (s.doRead now inode fh offset size)) ∧
    (∀ add, add = uncheckedAdd ∨ add = checkedAdd 64 ∧ s.dataCache.heldBytes < 2 ^ 64 →
      s.dataCache.checkedInvalidateRange add inode offset data.length =
          some (s.dataCache.invalidateRange inode offset data.length) ∧
        s.checkedDoWrite add now inode fh offset data =
          some (s.doWrite now inode fh offset data)) := by
  have hoffset := hread.offset_lt
  have hsize := hread.size_lt
  have hlength := hwrite.size_lt
  obtain ⟨hrecords, hconfig⟩ := ReadaheadManager.run_recordsSendable config hcalls
  have hcount := ReadaheadManager.run_countsAtMost config calls
  rw [← hahead] at hrecords hconfig hcount
  have hwindow' : s.readahead.config.windowSize ≤ 2 ^ 62 := by
    rw [hconfig]
    exact hwindow
  -- either addition reaches as far as its sum can grow
  have hreach : ∀ {add : ℕ → ℕ → Option ℕ} {n : ℕ},
      add = uncheckedAdd ∨ add = checkedAdd 64 ∧ n < 2 ^ 64 → AddsUpTo add n := by
    intro add n hadd
    rcases hadd with rfl | ⟨rfl, hn⟩
    · exact uncheckedAdd_addsUpTo n
    · exact checkedAdd_addsUpTo hn
  refine ⟨?_, ?_, ?_, ?_⟩
  · intro st
    exact st.checkedUpdatePosition_eq (by omega) now.instant
  · exact BlockKey.checkedNew_eq s.dataCache.blockSize_pos (by omega)
  · intro add hadd
    exact ⟨ReadaheadManager.checkedRecordRead_eq hrecords hread hwindow' hcount (hreach hadd)
        now.instant,
      ObsFsCore.checkedDoRead_eq hrecords hread hwindow' hblock hcount (hreach hadd) now fh⟩
  · intro add hadd
    refine ⟨DataCache.checkedInvalidateRange_eq (by omega) ?_,
      ObsFsCore.checkedDoWrite_eq hwrite hblock (hreach hadd) now fh⟩
    exact (hreach hadd).mono (DataCache.removedBytes_le ..)

/-- A read of two bytes leaves a block that is shorter than the next read. -/
theorem short_block_in_range :
    let s := ((ObsFsCore.oneFile .basic Config.basic_valid [1, 2, 3, 4, 5, 6, 7, 8]).doRead
      ⟨1, 1⟩ 2 0 3 2).2
    s.checkedDoRead (checkedAdd 64) ⟨2, 2⟩ 2 0 1 4 = some (s.doRead ⟨2, 2⟩ 2 0 1 4) ∧
      s.checkedDoWrite (checkedAdd 64) ⟨2, 2⟩ 2 0 1 [9] = some (s.doWrite ⟨2, 2⟩ 2 0 1 [9]) ∧
      (s.doRead ⟨2, 2⟩ 2 0 1 4).1 = .ok [5] := by
  intro s
  obtain ⟨-, -, hread, hwrite⟩ := data_path_in_range PerformanceConfig.default.toReadahead
    (by decide) [.getPrefetched 1 2 3, .read 1 2 3 2] (by decide) s rfl (by decide) ⟨2, 2⟩ 2 0 1 4
    [9] ⟨by decide, by decide⟩ ⟨by decide, by decide⟩
  exact ⟨(hread _ (.inr ⟨rfl, by decide⟩)).2, (hwrite _ (.inr ⟨rfl, by decide⟩)).2, by decide⟩

end ObsFuse
