import ObsFuse.Fs.Core
import ObsFuse.Cache.BlockView
import ObsFuse.Storage.Requests

/-! # What a read answers

`do_read` asks the prefetched data, then the data cache, then the storage. -/

namespace ObsFuse
open Lib

namespace ReadaheadManager

theorem getPrefetched_fst (m : ReadaheadManager) (now : Instant) (inode offset : ℕ) (d : Bytes) :
    (m.getPrefetched now inode offset).1 = some d ↔
      ∃ entry, AList.lookup ⟨inode, offset⟩ m.prefetchBuffer = some entry ∧
        entry.isExpired now m.config.prefetchTtl = false ∧ entry.data = d := by
  unfold getPrefetched
  cases AList.lookup ⟨inode, offset⟩ m.prefetchBuffer with
  | none => simp
  | some entry =>
    cases he : entry.isExpired now m.config.prefetchTtl <;> simp [he]

/-- At some time no entry for the offset counts. -/
theorem getPrefetched_expires (m : ReadaheadManager) (inode offset : ℕ) :
    ∃ now, (m.getPrefetched now inode offset).1 = none := by
  cases he : AList.lookup (⟨inode, offset⟩ : PrefetchKey) m.prefetchBuffer with
  | none =>
    refine ⟨0, ?_⟩
    unfold getPrefetched
    rw [he]
  | some entry =>
    refine ⟨entry.fetchedAt + m.config.prefetchTtl + 1, ?_⟩
    rw [Option.eq_none_iff_forall_ne_some]
    intro d hd
    obtain ⟨entry', he', hlive, -⟩ := (m.getPrefetched_fst ..).mp hd
    obtain rfl := Option.some.inj (he.symm.trans he')
    unfold PrefetchedData.isExpired at hlive
    rw [decide_eq_false_iff_not] at hlive
    omega

theorem getPrefetched_lookup (m : ReadaheadManager) (now : Instant) (inode offset : ℕ)
    {key : PrefetchKey} {entry : PrefetchedData}
    (h : AList.lookup key (m.getPrefetched now inode offset).2.prefetchBuffer = some entry) :
    AList.lookup key m.prefetchBuffer = some entry := by
  unfold getPrefetched at h
  split at h
  · split at h
    · exact Table.lookup_of_erase h
    · exact h
  · exact h

theorem recordRead_prefetchBuffer (m : ReadaheadManager) (now : Instant)
    (inode offset size : ℕ) :
    (m.recordRead now inode offset size).2.prefetchBuffer = m.prefetchBuffer := by
  unfold recordRead
  split
  · rfl
  · dsimp only
    split
    · split
      · rfl
      · rfl
    · rfl

theorem invalidate_lookup (m : ReadaheadManager) (inode : ℕ) (key : PrefetchKey) :
    AList.lookup key (m.invalidate inode).prefetchBuffer =
      if key.inode = inode then none else AList.lookup key m.prefetchBuffer := by
  simp only [invalidate]
  rw [Table.lookup_keep]
  cases AList.lookup key m.prefetchBuffer with
  | none => simp
  | some entry =>
    rw [Option.filter_some]
    by_cases hi : key.inode = inode
    · simp [hi]
    · simp [hi]

end ReadaheadManager

namespace ObsFsCore
variable (s : ObsFsCore) {inode : ℕ} {path : Str}

/-- The answer of the data cache to a read, if it has one: the block is there and reaches
past the place of the offset in it. -/
def cachedAnswer (inode offset size : ℕ) : Option Bytes :=
  match s.dataCache.visible (s.dataCache.key inode offset) with
  | some data =>
    let start := offset % s.dataCache.blockSize
    if start < data.length then some ((data.take (min (start + size) data.length)).drop start)
    else none
  | none => none

/-- A read of a whole cached block, from its start. -/
theorem cachedAnswer_block {o : ℕ} {data : Bytes}
    (h : s.dataCache.visible (s.dataCache.key inode o) = some data) (hne : data ≠ []) :
    s.cachedAnswer inode (s.dataCache.key inode o).offset data.length = some data := by
  have hoff : (s.dataCache.key inode o).offset =
      o / s.dataCache.blockSize * s.dataCache.blockSize := rfl
  have hkey : s.dataCache.key inode (s.dataCache.key inode o).offset = s.dataCache.key inode o := by
    rw [hoff, DataCache.key, DataCache.key, BlockKey.new, BlockKey.new,
      Nat.mul_div_cancel _ s.dataCache.blockSize_pos]
  have hstart : (s.dataCache.key inode o).offset % s.dataCache.blockSize = 0 := by
    rw [hoff, Nat.mul_mod_left]
  unfold cachedAnswer
  rw [hkey, h]
  dsimp only
  rw [hstart, if_pos (List.length_pos_of_ne_nil hne), List.drop_zero, Nat.zero_add, min_self,
    List.take_length]

def askedPrefetched (now : Now) (inode fh offset size : ℕ) : ObsFsCore :=
  { s with
    handleMgr := s.handleMgr.update fh (·.updatePosition now.instant offset size)
    readahead := (s.readahead.getPrefetched now.instant inode offset).2 }

def askedCache (now : Now) (inode fh offset size : ℕ) : ObsFsCore :=
  { s.askedPrefetched now inode fh offset size with
    dataCache := (s.dataCache.get inode offset).2 }

theorem doRead_eq (h : s.inodeMgr.getPath inode = some path) (now : Now) (fh offset size : ℕ) :
    s.doRead now inode fh offset size =
      match (s.readahead.getPrefetched now.instant inode offset).1 with
      | some data =>
        (.ok (data.take (min size data.length)), s.askedPrefetched now inode fh offset size)
      | none =>
        match s.cachedAnswer inode offset size with
        | some data => (.ok data, s.askedCache now inode fh offset size)
        | none =>
          (s.askedCache now inode fh offset size).readRemote now inode (s.obsPath path) offset
            size := by
  have hsize := s.dataCache.get_blockSize inode offset
  have hfst := s.dataCache.get_fst inode offset
  unfold doRead cachedAnswer askedCache askedPrefetched
  rw [h]
  dsimp only
  cases (s.readahead.getPrefetched now.instant inode offset).1 with
  | some data => rfl
  | none =>
    dsimp only
    rw [hfst, hsize]
    cases s.dataCache.visible (s.dataCache.key inode offset) with
    | none => rfl
    | some data =>
      dsimp only
      split <;> rfl

theorem readRemote_eq {obs : Str} {content : Bytes} (hr : s.obsClient.fault = none)
    (ho : AList.lookup obs s.obsClient.objects = some content) {offset size : ℕ}
    (hc : s.obsClient.backend.refusesRead content offset size = none) (now : Now) (inode : ℕ) :
    s.readRemote now inode obs offset size =
      (.ok ((content.drop offset).take size), { s with
        obsClient := s.obsClient.sent (.read obs offset size)
        dataCache := s.dataCache.put inode offset ((content.drop offset).take size)
        readahead := (s.readahead.recordRead now.instant inode offset size).2
        spawned := s.spawned ++
          ((s.readahead.recordRead now.instant inode offset size).1.map fun r =>
            (⟨obs, r⟩ : PrefetchJob)).toList }) := by
  unfold readRemote ObsClient.readRange
  rw [hr, ho]
  dsimp only
  rw [hc]

theorem doRead_frame (s : ObsFsCore) (now : Now) (inode fh offset size : ℕ) :
    (s.doRead now inode fh offset size).2.config = s.config ∧
      s.obsClient.SameBucket (s.doRead now inode fh offset size).2.obsClient ∧
      (s.doRead now inode fh offset size).2.inodeMgr = s.inodeMgr ∧
      (s.doRead now inode fh offset size).2.metadataCache = s.metadataCache := by
  cases hp : s.inodeMgr.getPath inode with
  | none =>
    unfold doRead
    rw [hp]
    exact ⟨rfl, .refl _, rfl, rfl⟩
  | some path =>
    rw [doRead_eq s hp]
    split
    · exact ⟨rfl, .refl _, rfl, rfl⟩
    · split
      · exact ⟨rfl, .refl _, rfl, rfl⟩
      · unfold readRemote
        have hsame := s.obsClient.readRange_sameBucket (s.obsPath path) offset size
        have hclient : (s.askedCache now inode fh offset size).obsClient = s.obsClient := rfl
        rw [hclient]
        generalize s.obsClient.readRange (s.obsPath path) offset size = q at hsame
        obtain ⟨_ | data, cl⟩ := q
        · exact ⟨rfl, hsame, rfl, rfl⟩
        · exact ⟨rfl, hsame, rfl, rfl⟩

theorem prefetchTask_frame (s : ObsFsCore) (now : Now) (n : ℕ) (permit : Bool) :
    (s.prefetchTask now n permit).config = s.config ∧
      s.obsClient.SameBucket (s.prefetchTask now n permit).obsClient ∧
      (s.prefetchTask now n permit).inodeMgr = s.inodeMgr ∧
      (s.prefetchTask now n permit).metadataCache = s.metadataCache := by
  unfold prefetchTask
  split
  · exact ⟨rfl, .refl _, rfl, rfl⟩
  · next job _ =>
    dsimp only
    split
    · exact ⟨rfl, .refl _, rfl, rfl⟩
    · have hsame := s.obsClient.readRange_sameBucket job.path job.request.offset job.request.size
      generalize s.obsClient.readRange job.path job.request.offset job.request.size = q at hsame
      obtain ⟨_ | data, cl⟩ := q
      · exact ⟨rfl, hsame, rfl, rfl⟩
      · exact ⟨rfl, hsame, rfl, rfl⟩

end ObsFsCore

end ObsFuse
