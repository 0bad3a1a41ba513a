import ObsFuse.Basic

/-! # Read-ahead (src/cache/readahead.rs) -/

namespace ObsFuse
open Lib

/-- The fields of `ReadaheadConfig` that the manager reads; `concurrency` only sizes the
semaphore, whose answers are a parameter of `prefetchTask`. -/
structure ReadaheadConfig where
  enable : Bool
  windowSize : ℕ
  seqThreshold : ℕ
  prefetchTtl : ℕ
  deriving DecidableEq, Repr

structure ReadState where
  lastOffset : ℕ
  lastSize : ℕ
  seqCount : ℕ
  lastRead : Instant
  prefetchOffset : ℕ
  deriving DecidableEq, Repr

namespace ReadState

def new (now : Instant) : ReadState := ⟨0, 0, 0, now, 0⟩

def update (st : ReadState) (now : Instant) (offset size : ℕ) : Bool × ReadState :=
  let isSequential : Bool := offset = u64 (st.lastOffset + st.lastSize)
  (isSequential,
    { st with
      seqCount := if isSequential then st.seqCount + 1 else 1
      lastOffset := offset
      lastSize := size
      lastRead := now })

def isSequential (st : ReadState) (threshold : ℕ) : Bool := threshold ≤ st.seqCount

end ReadState

structure PrefetchKey where
  inode : ℕ
  offset : ℕ
  deriving DecidableEq, Repr

structure PrefetchedData where
  data : Bytes
  fetchedAt : Instant
  deriving DecidableEq, Repr

def PrefetchedData.isExpired (entry : PrefetchedData) (now : Instant) (ttl : ℕ) : Bool :=
  ttl < now - entry.fetchedAt

structure PrefetchRequest where
  inode : ℕ
  offset : ℕ
  size : ℕ
  deriving DecidableEq, Repr

structure ReadaheadManager where
  fileStates : Table ℕ ReadState
  prefetchBuffer : Table PrefetchKey PrefetchedData
  config : ReadaheadConfig

namespace ReadaheadManager

def new (config : ReadaheadConfig) : ReadaheadManager := ⟨∅, ∅, config⟩

def recordRead (m : ReadaheadManager) (now : Instant) (inode offset size : ℕ) :
    Option PrefetchRequest × ReadaheadManager :=
  if !m.config.enable then (none, m)
  else
    let st := (m.fileStates.lookup inode).getD (.new now)
    let (isSequential, st) := st.update now offset size
    if isSequential && st.isSequential m.config.seqThreshold then
      let prefetchStart := u64 (offset + size)
      let prefetchEnd := u64 (prefetchStart + m.config.windowSize)
      if st.prefetchOffset < prefetchStart then
        let st := { st with prefetchOffset := prefetchEnd }
        (some ⟨inode, prefetchStart, m.config.windowSize⟩,
          { m with fileStates := m.fileStates.insert inode st })
      else (none, { m with fileStates := m.fileStates.insert inode st })
    else (none, { m with fileStates := m.fileStates.insert inode st })

def getPrefetched (m : ReadaheadManager) (now : Instant) (inode offset : ℕ) :
    Option Bytes × ReadaheadManager :=
  match m.prefetchBuffer.lookup ⟨inode, offset⟩ with
  | some entry =>
    if entry.isExpired now m.config.prefetchTtl then
      (none, { m with prefetchBuffer := m.prefetchBuffer.erase ⟨inode, offset⟩ })
    else (some entry.data, m)
  | none => (none, m)

def storePrefetched (m : ReadaheadManager) (now : Instant) (inode offset : ℕ) (data : Bytes) :
    ReadaheadManager :=
  { m with prefetchBuffer := m.prefetchBuffer.insert ⟨inode, offset⟩ ⟨data, now⟩ }

def invalidate (m : ReadaheadManager) (inode : ℕ) : ReadaheadManager :=
  { m with
    fileStates := m.fileStates.erase inode
    prefetchBuffer := m.prefetchBuffer.keep fun k _ => k.inode ≠ inode }

theorem recordRead_config (m : ReadaheadManager) (now : Instant) (inode offset size : ℕ) :
    (m.recordRead now inode offset size).2.config = m.config := by
  unfold recordRead
  split
  · rfl
  · dsimp only
    split
    · split
      · rfl
      · rfl
    · rfl

theorem getPrefetched_config (m : ReadaheadManager) (now : Instant) (inode offset : ℕ) :
    (m.getPrefetched now inode offset).2.config = m.config := by
  unfold getPrefetched
  split
  · split
    · rfl
    · rfl
  · rfl

end ReadaheadManager

end ObsFuse
