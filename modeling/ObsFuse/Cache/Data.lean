import ObsFuse.Basic

/-! # The data block cache (src/cache/data.rs)

Two tiers, memory and an optional disk cache. The clock is part of the state: the
n-th call of `Instant::now()` reads `clock n`. So are the outcomes of the file operations in
the cache directory, of which `files` is the content: the n-th read or write of a file fails
as `faults n` says. A removal may fail too; no entry leads to the file that it leaves, and the
next write of its block replaces it. The block size is positive, as `Config::validate`
demands. -/

namespace ObsFuse
open Lib

structure BlockKey where
  inode : ℕ
  offset : ℕ
  deriving DecidableEq, Repr

def BlockKey.new (inode offset blockSize : ℕ) : BlockKey := ⟨inode, offset / blockSize * blockSize⟩

structure CachedBlock where
  data : Bytes
  cachedAt : Instant
  lastAccess : Instant
  accessCount : ℕ
  deriving DecidableEq, Repr

def CachedBlock.new (now : Instant) (data : Bytes) : CachedBlock := ⟨data, now, now, 1⟩

def CachedBlock.touch (block : CachedBlock) (now : Instant) : CachedBlock :=
  { block with lastAccess := now, accessCount := block.accessCount + 1 }

structure DiskCacheEntry where
  path : Str
  size : ℕ
  lastAccess : Instant
  deriving DecidableEq, Repr

abbrev MemItem := Sigma fun _ : BlockKey => CachedBlock
abbrev DiskItem := Sigma fun _ : BlockKey => DiskCacheEntry

/-- How a file operation fails: without effect, or as a write that has emptied the file and
stops after some of the bytes. -/
inductive FileFault where
  | refused
  | cut (written : ℕ)
  deriving DecidableEq, Repr

structure DiskCache where
  cacheDir : Str
  sizeLimit : ℕ
  entries : Table BlockKey DiskCacheEntry
  currentSize : ℕ
  files : Table Str Bytes
  order : IterOrder DiskItem
  faults : ℕ → Option FileFault
  fileOps : ℕ

namespace DiskCache

/-- `DiskCache::new` on an empty directory. -/
def new (cacheDir : Str) (sizeLimit : ℕ) (order : IterOrder DiskItem)
    (faults : ℕ → Option FileFault) : DiskCache :=
  ⟨cacheDir, sizeLimit, ∅, 0, ∅, order, faults, 0⟩

/-- The failure of the next file operation. -/
def fault (d : DiskCache) : Option FileFault := d.faults d.fileOps

def asked (d : DiskCache) : DiskCache := { d with fileOps := d.fileOps + 1 }

/-- The file of a block: `format!("{}_{}", inode, offset)` in the cache directory. -/
def filePath (d : DiskCache) (key : BlockKey) : Str :=
  d.cacheDir ++ '/' :: (Nat.toDigits 10 key.inode ++ '_' :: Nat.toDigits 10 key.offset)

def get (d : DiskCache) (now : Instant) (key : BlockKey) : Option Bytes × DiskCache :=
  match d.entries.lookup key with
  | some entry =>
    (match d.fault with
      | none => d.files.lookup entry.path
      | some _ => none,
      { d.asked with entries := d.entries.insert key { entry with lastAccess := now } })
  | none => (none, d)

/-- The first entry with the least access time (`min_by_key`). -/
def oldest : List DiskItem → Option DiskItem
  | [] => none
  | e :: es =>
    match oldest es with
    | some f => if f.2.lastAccess < e.2.lastAccess then some f else some e
    | none => some e

def evictOneLocked (d : DiskCache) : Option DiskCache :=
  match oldest (d.order.visit d.entries.entries) with
  | some e => some { d with entries := d.entries.erase e.1, files := d.files.erase e.2.path }
  | none => none

def calculateSize (d : DiskCache) : ℕ := (d.entries.entries.map fun e => e.2.size).sum

/-- The `while` loop of `DiskCache::put`, for at most `k` rounds: whether there is room
for `size` bytes now. A round removes an entry, so one more round than there are entries
is enough. -/
def makeRoom (size : ℕ) : ℕ → DiskCache → Bool × DiskCache
  | 0, d => (false, d)
  | k + 1, d =>
    if d.sizeLimit < d.currentSize + size then
      match d.evictOneLocked with
      | none => (false, d)
      | some d => makeRoom size k { d with currentSize := d.calculateSize }
    else (true, d)

def put (d : DiskCache) (now : Instant) (key : BlockKey) (data : Bytes) : DiskCache :=
  let path := d.filePath key
  let size := data.length
  match makeRoom size (d.entries.entries.length + 1) d with
  | (false, d) => d
  | (true, d) =>
    match d.fault with
    | none =>
      { d.asked with
        files := d.files.insert path data
        entries := d.entries.insert key ⟨path, size, now⟩
        currentSize := d.currentSize + size }
    | some .refused => d.asked
    | some (.cut written) => { d.asked with files := d.files.insert path (data.take written) }

/-- `DiskCache::invalidate`; `current_size` is not touched. -/
def invalidate (d : DiskCache) (inode : ℕ) : DiskCache :=
  let gone := d.entries.entries.filter fun e => e.1.inode = inode
  { d with
    entries := d.entries.keep fun k _ => k.inode ≠ inode
    files := gone.foldl (fun files e => files.erase e.2.path) d.files }

def clear (d : DiskCache) : DiskCache :=
  { d with
    entries := ∅
    files := d.entries.entries.foldl (fun files e => files.erase e.2.path) d.files
    currentSize := 0 }

end DiskCache

structure DataCache where
  memoryCache : Table BlockKey CachedBlock
  diskCache : Option DiskCache
  blockSize : ℕ
  blockSize_pos : 0 < blockSize
  memoryLimit : ℕ
  memoryUsage : ℕ
  clock : ℕ → Instant
  tick : ℕ
  order : IterOrder MemItem

namespace DataCache

def new (blockSize : ℕ) (pos : 0 < blockSize) (memoryLimit : ℕ) (disk : Option DiskCache)
    (clock : ℕ → Instant) (order : IterOrder MemItem) : DataCache where
  memoryCache := ∅
  diskCache := disk
  blockSize := blockSize
  blockSize_pos := pos
  memoryLimit := memoryLimit
  memoryUsage := 0
  clock := clock
  tick := 0
  order := order

def now (c : DataCache) : Instant := c.clock c.tick

def ticked (c : DataCache) : DataCache := { c with tick := c.tick + 1 }

def key (c : DataCache) (inode offset : ℕ) : BlockKey := .new inode offset c.blockSize

/-- The scan of `evict_one`: the first entry whose access time is the least of those
before `limit`. -/
def lruScan (limit : Instant) (found : Option BlockKey) : List MemItem → Option BlockKey
  | [] => found
  | e :: es =>
    if e.2.lastAccess < limit then lruScan e.2.lastAccess (some e.1) es else lruScan limit found es

def evictOne (c : DataCache) : Option ℕ × DataCache :=
  let oldestKey := lruScan c.now none (c.order.visit c.memoryCache.entries)
  let c := c.ticked
  match oldestKey with
  | none => (none, c)
  | some key =>
    match c.memoryCache.lookup key with
    | none => (none, c)
    | some block =>
      let c := { c with memoryCache := c.memoryCache.erase key }
      match c.diskCache with
      | some disk =>
        (some block.data.length,
          { c.ticked with diskCache := some (disk.put c.now key block.data) })
      | none => (some block.data.length, c)

/-- The eviction loop of `put_memory`, for at most `k` rounds. A round removes a block,
so one more round than there are blocks is enough. -/
def evictLoop (dataSize : ℕ) : ℕ → DataCache → DataCache
  | 0, c => c
  | k + 1, c =>
    if c.memoryLimit < c.memoryUsage + dataSize ∧ c.memoryCache.entries ≠ [] then
      match c.evictOne with
      | (some evicted, c) =>
        evictLoop dataSize k { c with memoryUsage := c.memoryUsage - evicted }
      | (none, c) => c
    else c

def putMemory (c : DataCache) (key : BlockKey) (data : Bytes) : DataCache :=
  let dataSize := data.length
  let c := evictLoop dataSize (c.memoryCache.entries.length + 1) c
  let c := { c with memoryUsage := c.memoryUsage + dataSize }
  { c.ticked with memoryCache := c.memoryCache.insert key (.new c.now data) }

def put (c : DataCache) (inode offset : ℕ) (data : Bytes) : DataCache :=
  c.putMemory (c.key inode offset) data

def get (c : DataCache) (inode offset : ℕ) : Option Bytes × DataCache :=
  let key := c.key inode offset
  match c.memoryCache.lookup key with
  | some block =>
    (some block.data,
      { c.ticked with memoryCache := c.memoryCache.insert key (block.touch c.now) })
  | none =>
    match c.diskCache with
    | some disk =>
      match disk.get c.now key with
      | (some data, disk) =>
        let c := { c.ticked with diskCache := some disk }
        (some data, c.putMemory key data)
      | (none, disk) => (none, { c.ticked with diskCache := some disk })
    | none => (none, c)

def invalidate (c : DataCache) (inode : ℕ) : DataCache :=
  let gone := c.memoryCache.entries.filter fun e => e.1.inode = inode
  let removedSize := (gone.map fun e => e.2.data.length).sum
  { c with
    memoryCache := c.memoryCache.keep fun k _ => k.inode ≠ inode
    memoryUsage := c.memoryUsage - removedSize
    diskCache := c.diskCache.map (·.invalidate inode) }

/-- The first block number past the range of `invalidate_range`. -/
def endBlock (c : DataCache) (offset len : ℕ) : ℕ :=
  u64 (offset + len + c.blockSize - 1) / c.blockSize

/-- The loop of `invalidate_range` over `n` blocks from block number `b` on: the size
removed and the map that remains. -/
def removeBlocks (blockSize inode : ℕ) :
    ℕ → ℕ → Table BlockKey CachedBlock → ℕ × Table BlockKey CachedBlock
  | _, 0, t => (0, t)
  | b, n + 1, t =>
    let key : BlockKey := ⟨inode, b * blockSize⟩
    let size := ((t.lookup key).map (·.data.length)).getD 0
    let (removed, t) := removeBlocks blockSize inode (b + 1) n (t.erase key)
    (size + removed, t)

/-- `DataCache::invalidate_range`; the disk tier is not touched. -/
def invalidateRange (c : DataCache) (inode offset len : ℕ) : DataCache :=
  let startBlock := offset / c.blockSize
  let (removedSize, t) :=
    removeBlocks c.blockSize inode startBlock (c.endBlock offset len - startBlock) c.memoryCache
  { c with memoryCache := t, memoryUsage := c.memoryUsage - removedSize }

def clear (c : DataCache) : DataCache :=
  { c with memoryCache := ∅, memoryUsage := 0, diskCache := c.diskCache.map (·.clear) }

end DataCache

end ObsFuse
