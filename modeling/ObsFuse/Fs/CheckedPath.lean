import ObsFuse.Cache.MemoryView
import ObsFuse.Fs.Core
import ObsFuse.Lib.Checked

/-! # The data path with checked arithmetic

`do_read`, `do_write` and what they call to reckon with offsets, as a build with overflow checks
runs them. A sum or a product past 64 bits, a division by zero and a slice out of bounds end the
call, which then has no value. Two numbers are no offsets, the count of sequential reads and the
sum of the sizes that an invalidation removes; `add` is the addition that these two use. -/

namespace ObsFuse
open Lib

def BlockKey.checkedNew (inode offset blockSize : ℕ) : Option BlockKey := do
  let number ← checkedDiv offset blockSize
  let start ← checkedMul 64 number blockSize
  return ⟨inode, start⟩

namespace DataCache

/-- The rest of `get` does not reckon with the offset. -/
def checkedGet (c : DataCache) (inode offset : ℕ) : Option (Option Bytes × DataCache) := do
  let _ ← BlockKey.checkedNew inode offset c.blockSize
  return c.get inode offset

def checkedPut (c : DataCache) (inode offset : ℕ) (data : Bytes) : Option DataCache := do
  let _ ← BlockKey.checkedNew inode offset c.blockSize
  return c.put inode offset data

def checkedRemoved (add : ℕ → ℕ → Option ℕ) (removedSize : ℕ) (t : Table BlockKey CachedBlock)
    (key : BlockKey) : Option ℕ :=
  match t.lookup key with
  | some block => add removedSize block.data.length
  | none => some removedSize

/-- The loop of `invalidate_range` over `n` blocks from block number `b` on, with the size
removed so far. -/
def checkedRemoveBlocks (add : ℕ → ℕ → Option ℕ) (blockSize inode : ℕ) :
    ℕ → ℕ → ℕ → Table BlockKey CachedBlock → Option (ℕ × Table BlockKey CachedBlock)
  | _, 0, removedSize, t => some (removedSize, t)
  | b, n + 1, removedSize, t => do
    let start ← checkedMul 64 b blockSize
    let key : BlockKey := ⟨inode, start⟩
    let removedSize ← checkedRemoved add removedSize t key
    checkedRemoveBlocks add blockSize inode (b + 1) n removedSize (t.erase key)

def checkedInvalidateRange (add : ℕ → ℕ → Option ℕ) (c : DataCache) (inode offset len : ℕ) :
    Option DataCache := do
  let startBlock ← checkedDiv offset c.blockSize
  let stop ← checkedAdd 64 offset len
  let past ← checkedAdd 64 stop c.blockSize
  let last ← checkedSub past 1
  let endBlock ← checkedDiv last c.blockSize
  let (removedSize, t) ←
    checkedRemoveBlocks add c.blockSize inode startBlock (endBlock - startBlock) 0 c.memoryCache
  return { c with memoryCache := t, memoryUsage := c.memoryUsage - removedSize }

end DataCache

def HandleState.checkedUpdatePosition (st : HandleState) (now : Instant) (offset size : ℕ) :
    Option HandleState := do
  let position ← checkedAdd 64 offset size
  return { st with position, lastAccess := now }

def HandleManager.checkedUpdate (m : HandleManager) (handle : ℕ)
    (f : HandleState → Option HandleState) : Option HandleManager :=
  match m.handles.lookup handle with
  | some st => do
    let st ← f st
    return { m with handles := m.handles.insert handle st }
  | none => some m

def ReadState.checkedUpdate (add : ℕ → ℕ → Option ℕ) (st : ReadState) (now : Instant)
    (offset size : ℕ) : Option (Bool × ReadState) := do
  let last ← checkedAdd 64 st.lastOffset st.lastSize
  let isSequential : Bool := offset = last
  let seqCount ← if isSequential then add st.seqCount 1 else some 1
  return (isSequential,
    { st with seqCount, lastOffset := offset, lastSize := size, lastRead := now })

def ReadaheadManager.checkedRecordRead (add : ℕ → ℕ → Option ℕ) (m : ReadaheadManager)
    (now : Instant) (inode offset size : ℕ) :
    Option (Option PrefetchRequest × ReadaheadManager) :=
  if !m.config.enable then some (none, m)
  else do
    let st := (m.fileStates.lookup inode).getD (.new now)
    let (isSequential, st) ← st.checkedUpdate add now offset size
    if isSequential && st.isSequential m.config.seqThreshold then
      let prefetchStart ← checkedAdd 64 offset size
      let prefetchEnd ← checkedAdd 64 prefetchStart m.config.windowSize
      if st.prefetchOffset < prefetchStart then
        let st := { st with prefetchOffset := prefetchEnd }
        return (some ⟨inode, prefetchStart, m.config.windowSize⟩,
          { m with fileStates := m.fileStates.insert inode st })
      else return (none, { m with fileStates := m.fileStates.insert inode st })
    else return (none, { m with fileStates := m.fileStates.insert inode st })

namespace ObsFsCore

def checkedReadRemote (add : ℕ → ℕ → Option ℕ) (s : ObsFsCore) (now : Now) (inode : ℕ) (obs : Str)
    (offset size : ℕ) : Option (FsResult Bytes × ObsFsCore) :=
  match s.obsClient.readRange obs offset size with
  | (.error _, cl) => some (.err .ioError, { s with obsClient := cl })
  | (.ok data, cl) => do
    let dataCache ← s.dataCache.checkedPut inode offset data
    let (request, readahead) ← s.readahead.checkedRecordRead add now.instant inode offset size
    return (.ok data, { s with
      obsClient := cl
      dataCache := dataCache
      readahead := readahead
      spawned := s.spawned ++ (request.map fun r => ⟨obs, r⟩).toList })

def checkedDoRead (add : ℕ → ℕ → Option ℕ) (s : ObsFsCore) (now : Now)
    (inode fh offset size : ℕ) : Option (FsResult Bytes × ObsFsCore) :=
  match s.inodeMgr.getPath inode with
  | none => some (.err .notFound, s)
  | some path => do
    let obs := s.obsPath path
    let handleMgr ←
      s.handleMgr.checkedUpdate fh (·.checkedUpdatePosition now.instant offset size)
    let s := { s with handleMgr }
    let (prefetched, readahead) := s.readahead.getPrefetched now.instant inode offset
    let s := { s with readahead }
    match prefetched with
    | some data =>
      let stop := min size data.length
      let found ← checkedSlice data 0 stop
      return (.ok found, s)
    | none =>
      let (cached, dataCache) ← s.dataCache.checkedGet inode offset
      let s := { s with dataCache }
      match cached with
      | some data =>
        let start ← checkedRem offset s.dataCache.blockSize
        let stop ← checkedAdd 64 start size
        let stop := min stop data.length
        if start < data.length then
          let found ← checkedSlice data start stop
          return (.ok found, s)
        else s.checkedReadRemote add now inode obs offset size
      | none => s.checkedReadRemote add now inode obs offset size

def checkedDoWrite (add : ℕ → ℕ → Option ℕ) (s : ObsFsCore) (now : Now) (inode fh offset : ℕ)
    (data : Bytes) : Option (FsResult ℕ × ObsFsCore) :=
  match s.inodeMgr.getPath inode with
  | none => some (.err .notFound, s)
  | some path =>
    let obs := s.obsPath path
    let (attr, cache) := s.metadataCache.getAttr now.instant inode
    let fileSize := (attr.map (·.size)).getD 0
    match s.writeBuffer.write s.obsClient now.instant inode obs offset data fileSize with
    | (.loops, wb, cl) =>
      some (.loops, { s with metadataCache := cache, writeBuffer := wb, obsClient := cl })
    | (.err _, wb, cl) =>
      some (.err .ioError, { s with metadataCache := cache, writeBuffer := wb, obsClient := cl })
    | (.ok written, wb, cl) => do
      let handleMgr ← s.handleMgr.checkedUpdate fh fun st => do
        let st ← st.checkedUpdatePosition now.instant offset written
        return st.markDirty
      let newSize ← checkedAdd 64 offset written
      let dataCache ← s.dataCache.checkedInvalidateRange add inode offset written
      return (.ok written, { s with
        writeBuffer := wb
        obsClient := cl
        handleMgr := handleMgr
        metadataCache := cache.updateAttr now.instant inode fun attr =>
          { attr with size := max attr.size newSize, mtime := now.system }
        inodeMgr := s.inodeMgr.updateSize now inode newSize
        dataCache := dataCache })

end ObsFsCore

/-! ### Where the checked functions have a value -/

theorem BlockKey.checkedNew_eq {inode offset blockSize : ℕ} (hp : 0 < blockSize)
    (ho : offset < 2 ^ 64) :
    BlockKey.checkedNew inode offset blockSize = some (.new inode offset blockSize) := by
  have hfit : offset / blockSize * blockSize < 2 ^ 64 :=
    Nat.lt_of_le_of_lt (Nat.div_mul_le_self ..) ho
  unfold checkedNew
  rw [checkedDiv_eq hp, Option.bind_eq_bind, Option.bind_some, checkedMul_eq hfit]
  rfl

namespace DataCache
variable {c : DataCache} {inode offset len : ℕ}

theorem checkedGet_eq (ho : offset < 2 ^ 64) :
    c.checkedGet inode offset = some (c.get inode offset) := by
  unfold checkedGet
  rw [BlockKey.checkedNew_eq c.blockSize_pos ho]
  rfl

theorem checkedPut_eq (ho : offset < 2 ^ 64) (data : Bytes) :
    c.checkedPut inode offset data = some (c.put inode offset data) := by
  unfold checkedPut
  rw [BlockKey.checkedNew_eq c.blockSize_pos ho]
  rfl

theorem checkedRemoved_eq {add : ℕ → ℕ → Option ℕ} {removedSize : ℕ}
    {t : Table BlockKey CachedBlock} {key : BlockKey}
    (h : AddsUpTo add (removedSize + ((t.lookup key).map (·.data.length)).getD 0)) :
    checkedRemoved add removedSize t key =
      some (removedSize + ((t.lookup key).map (·.data.length)).getD 0) := by
  unfold checkedRemoved
  cases hblock : AList.lookup key t with
  | none => rfl
  | some block =>
    rw [hblock] at h
    exact h _ _ (Nat.le_refl _)

/-- The removed sizes only grow, so their last sum bounds the others. -/
theorem checkedRemoveBlocks_eq {add : ℕ → ℕ → Option ℕ} {blockSize b n removedSize : ℕ}
    {t : Table BlockKey CachedBlock} (hfit : ∀ k < b + n, k * blockSize < 2 ^ 64)
    (hadd : AddsUpTo add (removedSize + (removeBlocks blockSize inode b n t).1)) :
    checkedRemoveBlocks add blockSize inode b n removedSize t =
      some (removedSize + (removeBlocks blockSize inode b n t).1,
        (removeBlocks blockSize inode b n t).2) := by
  induction n generalizing b removedSize t with
  | zero => rfl
  | succ n ih =>
    have hstart : checkedMul 64 b blockSize = some (b * blockSize) :=
      checkedMul_eq (hfit b (by omega))
    have hrest : ∀ k < b + 1 + n, k * blockSize < 2 ^ 64 := fun k hk => hfit k (by omega)
    obtain ⟨size, hsize⟩ : ∃ size, ((AList.lookup ⟨inode, b * blockSize⟩ t).map
        fun block : CachedBlock => block.data.length).getD 0 = size := ⟨_, rfl⟩
    have hremove : removeBlocks blockSize inode b (n + 1) t =
        (size + (removeBlocks blockSize inode (b + 1) n (t.erase ⟨inode, b * blockSize⟩)).1,
          (removeBlocks blockSize inode (b + 1) n (t.erase ⟨inode, b * blockSize⟩)).2) := by
      rw [← hsize]
      rfl
    rw [hremove, ← Nat.add_assoc] at hadd
    have hone : checkedRemoved add removedSize t ⟨inode, b * blockSize⟩ =
        some (removedSize + size) := by
      rw [← hsize] at hadd ⊢
      exact checkedRemoved_eq (hadd.mono (Nat.le_add_right ..))
    rw [hremove]
    simp only [checkedRemoveBlocks, hstart, hone, Option.bind_eq_bind, Option.bind_some]
    rw [ih hrest hadd, Nat.add_assoc]

def removedBytes (c : DataCache) (inode offset len : ℕ) : ℕ :=
  (removeBlocks c.blockSize inode (offset / c.blockSize)
    (c.endBlock offset len - offset / c.blockSize) c.memoryCache).1

/-- The removed blocks are some of those in memory. -/
theorem removedBytes_le (c : DataCache) (inode offset len : ℕ) :
    c.removedBytes inode offset len ≤ c.heldBytes := by
  have hweight := removeBlocks_weight c.blockSize inode (offset / c.blockSize)
    (c.endBlock offset len - offset / c.blockSize) c.memoryCache
  unfold removedBytes heldBytes
  omega

theorem checkedInvalidateRange_eq {add : ℕ → ℕ → Option ℕ}
    (hfit : offset + len + c.blockSize < 2 ^ 64)
    (hadd : AddsUpTo add (c.removedBytes inode offset len)) :
    c.checkedInvalidateRange add inode offset len = some (c.invalidateRange inode offset len) := by
  have hp := c.blockSize_pos
  have hlast : offset + len + c.blockSize - 1 < 2 ^ 64 := by omega
  have hend : c.endBlock offset len = (offset + len + c.blockSize - 1) / c.blockSize := by
    unfold endBlock
    rw [u64_eq hlast]
  have hstart : offset / c.blockSize ≤ c.endBlock offset len := by
    rw [hend]
    exact Nat.div_le_div_right (by omega)
  have hblocks : ∀ k < offset / c.blockSize + (c.endBlock offset len - offset / c.blockSize),
      k * c.blockSize < 2 ^ 64 := by
    intro k hk
    have hkend : k ≤ (offset + len + c.blockSize - 1) / c.blockSize := by omega
    have hmul := (Nat.le_div_iff_mul_le hp).mp hkend
    omega
  have hstop : checkedAdd 64 offset len = some (offset + len) := checkedAdd_eq (by omega)
  have hpast : checkedAdd 64 (offset + len) c.blockSize = some (offset + len + c.blockSize) :=
    checkedAdd_eq hfit
  have hsub : checkedSub (offset + len + c.blockSize) 1 = some (offset + len + c.blockSize - 1) :=
    checkedSub_eq (by omega)
  have hsums : AddsUpTo add (0 + (removeBlocks c.blockSize inode (offset / c.blockSize)
      (c.endBlock offset len - offset / c.blockSize) c.memoryCache).1) := by
    rw [Nat.zero_add]
    exact hadd
  have hloop := checkedRemoveBlocks_eq hblocks hsums
  simp only [checkedInvalidateRange, checkedDiv_eq hp, hstop, hpast, hsub, ← hend, hloop,
    Nat.zero_add, Option.bind_eq_bind, Option.bind_some]
  rfl

end DataCache

theorem HandleState.checkedUpdatePosition_eq {offset size : ℕ} (hfit : offset + size < 2 ^ 64)
    (st : HandleState) (now : Instant) :
    st.checkedUpdatePosition now offset size = some (st.updatePosition now offset size) := by
  unfold checkedUpdatePosition updatePosition
  rw [checkedAdd_eq hfit, u64_eq hfit]
  rfl

theorem HandleManager.checkedUpdate_eq {f : HandleState → Option HandleState}
    {g : HandleState → HandleState} (h : ∀ st, f st = some (g st)) (m : HandleManager)
    (handle : ℕ) : m.checkedUpdate handle f = some (m.update handle g) := by
  unfold checkedUpdate update Table.modify
  cases AList.lookup handle m.handles with
  | none => rfl
  | some st =>
    dsimp only
    rw [h]
    rfl

theorem ReadState.checkedUpdate_eq {add : ℕ → ℕ → Option ℕ} {st : ReadState}
    (hlast : st.lastOffset + st.lastSize < 2 ^ 64) (hadd : AddsUpTo add (st.seqCount + 1))
    (now : Instant) (offset size : ℕ) :
    st.checkedUpdate add now offset size = some (st.update now offset size) := by
  have hcount : add st.seqCount 1 = some (st.seqCount + 1) := hadd _ _ (Nat.le_refl _)
  by_cases hseq : offset = st.lastOffset + st.lastSize
  · simp only [checkedUpdate, update, checkedAdd_eq hlast, u64_eq hlast, hcount, hseq, decide_true,
      if_true, Option.bind_eq_bind, Option.bind_some]
    rfl
  · simp only [checkedUpdate, update, checkedAdd_eq hlast, u64_eq hlast, hseq, decide_false,
      Option.bind_eq_bind, Option.bind_some]
    rfl

end ObsFuse
