import ObsFuse.Lib.Locks
import ObsFuse.Cache.Data
import Mathlib.Data.Finset.Insert

/-! # Threads in the data cache (src/cache/data.rs)

The methods of `DataCache` and `DiskCache`, one lock, unlock or access to a map at a time.
The scan of the memory cache for its oldest block is one access. Here the schedule tells how
each file operation ends. -/

namespace ObsFuse
open Lib

inductive CacheMutex where
  | memoryUsage
  | entries
  | currentSize
  deriving DecidableEq, Repr

inductive CacheCall where
  | get (inode offset : ℕ)
  | put (inode offset : ℕ) (data : Bytes)
  | invalidate (inode : ℕ)
  | invalidateRange (inode offset len : ℕ)
  | clear
  deriving DecidableEq, Repr

/-- What a thread is given: the operation to begin when it has none, and the failure of a file
operation. -/
structure CacheInput where
  op : CacheCall
  fault : Option FileFault
  deriving DecidableEq, Repr

inductive DiskPutPc where
  | lockSize
  | checkSize
  | evictLock
  | evict
  | evictUnlock (evicted : Bool)
  | sumLock
  | sum
  | sumUnlock (size : ℕ)
  | setSize (size : ℕ)
  | unlockSize (room : Bool)
  | write
  | lockEntries
  | insertEntry
  | lockTotal
  | addSize
  | unlockTotal
  | unlockEntries
  deriving DecidableEq, Repr

inductive CachePc where
  | idle
  | getMemory (key : BlockKey)
  | getLock (key : BlockKey)
  | getEntry (key : BlockKey)
  | getUnlock (key : BlockKey) (path : Option Str)
  | getRead (key : BlockKey) (path : Option Str)
  | putLock (key : BlockKey) (data : Bytes)
  | putCheck (key : BlockKey) (data : Bytes)
  | evictScan (key : BlockKey) (data : Bytes)
  | evictRemove (key : BlockKey) (data : Bytes) (victim : BlockKey)
  | diskPut (key : BlockKey) (data : Bytes) (victim : BlockKey) (block : Bytes) (pc : DiskPutPc)
  | putSub (key : BlockKey) (data : Bytes) (evicted : ℕ)
  | putAdd (key : BlockKey) (data : Bytes)
  | putUnlock (key : BlockKey) (data : Bytes)
  | putInsert (key : BlockKey) (data : Bytes)
  | collectKeys (inode : ℕ)
  | removeKeys (inode : ℕ) (keys : List BlockKey) (removed : ℕ)
  | removeRange (inode b n removed : ℕ)
  | subLock (removed : ℕ) (inode : Option ℕ)
  | sub (removed : ℕ) (inode : Option ℕ)
  | subUnlock (inode : Option ℕ)
  | invalidateDisk (inode : Option ℕ)
  | diskInvalidateLock (inode : ℕ)
  | diskInvalidate (inode : ℕ)
  | diskInvalidateUnlock
  | clearMemory
  | clearUsageLock
  | clearUsage
  | clearUsageUnlock
  | clearDisk
  | diskClearLock
  | diskClear
  | diskClearSizeLock
  | diskClearSize
  | diskClearSizeUnlock
  | diskClearUnlock
  deriving DecidableEq, Repr

namespace DataCache

/-- An access to the disk tier; without one the thread goes to `absent`. -/
def viaDisk (c : DataCache) (absent : CachePc) (f : DiskCache → DiskCache × CachePc) :
    DataCache × CachePc :=
  match c.diskCache with
  | some disk => ({ c with diskCache := some (f disk).1 }, (f disk).2)
  | none => (c, absent)

def begin (c : DataCache) : CacheCall → CachePc
  | .get inode offset => .getMemory (c.key inode offset)
  | .put inode offset data => .putLock (c.key inode offset) data
  | .invalidate inode => .collectKeys inode
  | .invalidateRange inode offset len =>
    .removeRange inode (offset / c.blockSize) (c.endBlock offset len - offset / c.blockSize) 0
  | .clear => .clearMemory

/-- The size of the block that `memory_cache.remove` takes out. -/
def removedSize (c : DataCache) (key : BlockKey) : ℕ :=
  ((c.memoryCache.lookup key).map (·.data.length)).getD 0

end DataCache

abbrev CacheMove := Move DataCache CacheInput CacheMutex CachePc

/-- `DiskCache::put` of the evicted `block` inside `put_memory`, from each of its points. -/
def DiskPutPc.move (key : BlockKey) (data : Bytes) (victim : BlockKey) (block : Bytes) :
    DiskPutPc → CacheMove :=
  let at' := CachePc.diskPut key data victim block
  let finish := CachePc.putSub key data block.length
  fun
  | .lockSize => .acquire .currentSize (at' .checkSize)
  | .checkSize => .act fun _ c => c.viaDisk (at' (.unlockSize false)) fun disk =>
      (disk, if disk.sizeLimit < disk.currentSize + block.length then at' .evictLock
        else at' (.unlockSize true))
  | .evictLock => .acquire .entries (at' .evict)
  | .evict => .act fun _ c => c.viaDisk (at' (.evictUnlock false)) fun disk =>
      match disk.evictOneLocked with
      | some disk => (disk, at' (.evictUnlock true))
      | none => (disk, at' (.evictUnlock false))
  | .evictUnlock evicted =>
    .release .entries (if evicted then at' .sumLock else at' (.unlockSize false))
  | .sumLock => .acquire .entries (at' .sum)
  | .sum => .act fun _ c => c.viaDisk (at' (.sumUnlock 0)) fun disk =>
      (disk, at' (.sumUnlock disk.calculateSize))
  | .sumUnlock size => .release .entries (at' (.setSize size))
  | .setSize size => .act fun _ c => c.viaDisk (at' .checkSize) fun disk =>
      ({ disk with currentSize := size }, at' .checkSize)
  | .unlockSize room => .release .currentSize (if room then at' .write else finish)
  | .write => .act fun input c => c.viaDisk finish fun disk =>
      match input.fault with
      | none =>
        ({ disk with files := disk.files.insert (disk.filePath victim) block }, at' .lockEntries)
      | some .refused => (disk, finish)
      | some (.cut written) =>
        ({ disk with files := disk.files.insert (disk.filePath victim) (block.take written) },
          finish)
  | .lockEntries => .acquire .entries (at' .insertEntry)
  | .insertEntry => .act fun _ c => c.ticked.viaDisk (at' .lockTotal) fun disk =>
      ({ disk with
          entries := disk.entries.insert victim ⟨disk.filePath victim, block.length, c.now⟩ },
        at' .lockTotal)
  | .lockTotal => .acquire .currentSize (at' .addSize)
  | .addSize => .act fun _ c => c.viaDisk (at' .unlockTotal) fun disk =>
      ({ disk with currentSize := disk.currentSize + block.length }, at' .unlockTotal)
  | .unlockTotal => .release .currentSize (at' .unlockEntries)
  | .unlockEntries => .release .entries finish

def CachePc.move : CachePc → CacheMove
  | .idle => .act fun input c => (c, c.begin input.op)
  -- `get`
  | .getMemory key => .act fun _ c =>
      match c.memoryCache.lookup key with
      | some block =>
        ({ c.ticked with memoryCache := c.memoryCache.insert key (block.touch c.now) }, .idle)
      | none => (c, if c.diskCache.isSome then .getLock key else .idle)
  | .getLock key => .acquire .entries (.getEntry key)
  | .getEntry key => .act fun _ c => c.ticked.viaDisk (.getUnlock key none) fun disk =>
      match disk.entries.lookup key with
      | some entry =>
        ({ disk with entries := disk.entries.insert key { entry with lastAccess := c.now } },
          .getUnlock key (some entry.path))
      | none => (disk, .getUnlock key none)
  | .getUnlock key path => .release .entries (.getRead key path)
  | .getRead key path => .act fun input c => c.viaDisk .idle fun disk =>
      match path.bind disk.files.lookup with
      | some data => (disk, if input.fault.isNone then .putLock key data else .idle)
      | none => (disk, .idle)
  -- `put_memory`, with `evict_one`
  | .putLock key data => .acquire .memoryUsage (.putCheck key data)
  | .putCheck key data => .act fun _ c =>
      (c, if c.memoryLimit < c.memoryUsage + data.length ∧ c.memoryCache.entries ≠ [] then
          .evictScan key data
        else .putAdd key data)
  | .evictScan key data => .act fun _ c =>
      match DataCache.lruScan c.now none (c.order.visit c.memoryCache.entries) with
      | some victim => (c.ticked, .evictRemove key data victim)
      | none => (c.ticked, .putAdd key data)
  | .evictRemove key data victim => .act fun _ c =>
      match c.memoryCache.lookup victim with
      | some block =>
        ({ c with memoryCache := c.memoryCache.erase victim },
          if c.diskCache.isSome then .diskPut key data victim block.data .lockSize
          else .putSub key data block.data.length)
      | none => (c, .putAdd key data)
  | .diskPut key data victim block pc => pc.move key data victim block
  | .putSub key data evicted => .act fun _ c =>
      ({ c with memoryUsage := c.memoryUsage - evicted }, .putCheck key data)
  | .putAdd key data => .act fun _ c =>
      ({ c with memoryUsage := c.memoryUsage + data.length }, .putUnlock key data)
  | .putUnlock key data => .release .memoryUsage (.putInsert key data)
  | .putInsert key data => .act fun _ c =>
      ({ c.ticked with memoryCache := c.memoryCache.insert key (.new c.now data) }, .idle)
  -- `invalidate` and `invalidate_range`
  | .collectKeys inode => .act fun _ c =>
      let keys := (c.memoryCache.entries.filter fun e => e.1.inode = inode).map Sigma.fst
      (c, .removeKeys inode keys 0)
  | .removeKeys inode [] removed => .act fun _ c => (c, .subLock removed (some inode))
  | .removeKeys inode (key :: keys) removed => .act fun _ c =>
      ({ c with memoryCache := c.memoryCache.erase key },
        .removeKeys inode keys (removed + c.removedSize key))
  | .removeRange _ _ 0 removed => .act fun _ c => (c, .subLock removed none)
  | .removeRange inode b (n + 1) removed => .act fun _ c =>
      let key : BlockKey := ⟨inode, b * c.blockSize⟩
      ({ c with memoryCache := c.memoryCache.erase key },
        .removeRange inode (b + 1) n (removed + c.removedSize key))
  | .subLock removed inode => .acquire .memoryUsage (.sub removed inode)
  | .sub removed inode => .act fun _ c =>
      ({ c with memoryUsage := c.memoryUsage - removed }, .subUnlock inode)
  | .subUnlock inode => .release .memoryUsage (.invalidateDisk inode)
  | .invalidateDisk none => .act fun _ c => (c, .idle)
  | .invalidateDisk (some inode) => .act fun _ c =>
      (c, if c.diskCache.isSome then .diskInvalidateLock inode else .idle)
  | .diskInvalidateLock inode => .acquire .entries (.diskInvalidate inode)
  | .diskInvalidate inode => .act fun _ c => c.viaDisk .diskInvalidateUnlock fun disk =>
      (disk.invalidate inode, .diskInvalidateUnlock)
  | .diskInvalidateUnlock => .release .entries .idle
  -- `clear`
  | .clearMemory => .act fun _ c => ({ c with memoryCache := ∅ }, .clearUsageLock)
  | .clearUsageLock => .acquire .memoryUsage .clearUsage
  | .clearUsage => .act fun _ c => ({ c with memoryUsage := 0 }, .clearUsageUnlock)
  | .clearUsageUnlock => .release .memoryUsage .clearDisk
  | .clearDisk => .act fun _ c => (c, if c.diskCache.isSome then .diskClearLock else .idle)
  | .diskClearLock => .acquire .entries .diskClear
  | .diskClear => .act fun _ c => c.viaDisk .diskClearSizeLock fun disk =>
      ({ disk with
          entries := ∅
          files := disk.entries.entries.foldl (fun files e => files.erase e.2.path) disk.files },
        .diskClearSizeLock)
  | .diskClearSizeLock => .acquire .currentSize .diskClearSize
  | .diskClearSize => .act fun _ c => c.viaDisk .diskClearSizeUnlock fun disk =>
      ({ disk with currentSize := 0 }, .diskClearSizeUnlock)
  | .diskClearSizeUnlock => .release .currentSize .diskClearUnlock
  | .diskClearUnlock => .release .entries .idle

/-! ### The locks held at each point -/

def DiskPutPc.holds : DiskPutPc → Finset CacheMutex
  | .lockSize | .write | .lockEntries => ∅
  | .checkSize | .evictLock | .sumLock | .setSize _ | .unlockSize _ => {.currentSize}
  | .evict | .evictUnlock _ | .sum | .sumUnlock _ => {.entries, .currentSize}
  | .insertEntry | .lockTotal | .unlockEntries => {.entries}
  | .addSize | .unlockTotal => {.currentSize, .entries}

def CachePc.holds : CachePc → Finset CacheMutex
  | .putCheck .. | .evictScan .. | .evictRemove .. | .putSub .. | .putAdd .. | .putUnlock .. |
    .sub .. | .subUnlock _ | .clearUsage | .clearUsageUnlock => {.memoryUsage}
  | .diskPut _ _ _ _ pc => insert .memoryUsage pc.holds
  | .getEntry _ | .getUnlock .. | .diskInvalidate _ | .diskInvalidateUnlock | .diskClear |
    .diskClearSizeLock | .diskClearUnlock => {.entries}
  | .diskClearSize | .diskClearSizeUnlock => {.currentSize, .entries}
  | .idle | .getMemory _ | .getLock _ | .getRead .. | .putLock .. | .putInsert .. |
    .collectKeys _ | .removeKeys .. | .removeRange .. | .subLock .. | .invalidateDisk _ |
    .diskInvalidateLock _ | .clearMemory | .clearUsageLock | .clearDisk | .diskClearLock => ∅

theorem DataCache.viaDisk_leads {Q : CachePc → Prop} (c : DataCache) {absent : CachePc}
    {f : DiskCache → DiskCache × CachePc} (habsent : Q absent) (hf : ∀ disk, Q (f disk).2) :
    Q (c.viaDisk absent f).2 := by
  unfold viaDisk
  cases c.diskCache with
  | none => exact habsent
  | some disk => exact hf disk

theorem DataCache.viaDisk_holds (c : DataCache) {absent : CachePc}
    {f : DiskCache → DiskCache × CachePc} {held : Finset CacheMutex}
    (habsent : absent.holds = held) (hf : ∀ disk, (f disk).2.holds = held) :
    (c.viaDisk absent f).2.holds = held :=
  @viaDisk_leads (fun pc => pc.holds = held) c absent f habsent hf

theorem DiskPutPc.move_disciplined (key : BlockKey) (data : Bytes) (victim : BlockKey)
    (block : Bytes) (pc : DiskPutPc) :
    (pc.move key data victim block).Disciplined CachePc.holds
      (insert .memoryUsage pc.holds) := by
  cases pc with
  | lockSize | evictLock | sumLock | lockEntries | lockTotal | sumUnlock _ | unlockTotal |
    unlockEntries =>
    simp only [move, Move.Disciplined, CachePc.holds, holds]
    decide
  | evictUnlock b | unlockSize b =>
    cases b
    all_goals
      simp only [move, Move.Disciplined, CachePc.holds, holds, if_true, Bool.false_eq_true,
        if_false]
      decide
  | sum | setSize _ | insertEntry | addSize =>
    intro i c
    exact DataCache.viaDisk_holds _ rfl fun _ => rfl
  | checkSize | write =>
    intro i c
    apply DataCache.viaDisk_holds _ rfl
    intro disk
    split
    all_goals rfl
  | evict =>
    intro i c
    apply DataCache.viaDisk_holds _ rfl
    intro disk
    cases disk.evictOneLocked
    all_goals rfl

theorem CachePc.move_disciplined (pc : CachePc) : pc.move.Disciplined holds pc.holds := by
  cases pc with
  | idle =>
    intro i c
    simp only [DataCache.begin]
    cases i.op
    all_goals rfl
  | diskPut key data victim block pc => exact pc.move_disciplined key data victim block
  | getLock _ | putLock _ _ | subLock _ _ | diskInvalidateLock _ | clearUsageLock |
    diskClearLock | diskClearSizeLock => rfl
  | getUnlock _ _ | putUnlock _ _ | subUnlock _ | diskInvalidateUnlock | clearUsageUnlock |
    diskClearSizeUnlock | diskClearUnlock =>
    simp only [move, Move.Disciplined, holds]
    decide
  | putSub _ _ _ | putAdd _ _ | putInsert _ _ | collectKeys _ | sub _ _ | clearMemory |
    clearUsage => exact fun _ _ => rfl
  | putCheck _ _ | clearDisk =>
    intro i c
    simp only
    split
    all_goals rfl
  | removeKeys _ keys _ =>
    cases keys
    all_goals exact fun _ _ => rfl
  | removeRange _ _ n _ =>
    cases n
    all_goals exact fun _ _ => rfl
  | invalidateDisk inode =>
    cases inode with
    | none => exact fun _ _ => rfl
    | some inode =>
      intro i c
      simp only
      split
      all_goals rfl
  | diskInvalidate _ | diskClear | diskClearSize =>
    intro i c
    exact c.viaDisk_holds rfl fun _ => rfl
  | getMemory key =>
    intro i c
    simp only
    cases c.memoryCache.lookup key with
    | some block => rfl
    | none =>
      simp only
      split
      all_goals rfl
  | getEntry key =>
    intro i c
    apply DataCache.viaDisk_holds _ rfl
    intro disk
    cases disk.entries.lookup key
    all_goals rfl
  | getRead key path =>
    intro i c
    apply DataCache.viaDisk_holds _ rfl
    intro disk
    cases path.bind disk.files.lookup with
    | some data =>
      simp only
      split
      all_goals rfl
    | none => rfl
  | evictScan key data =>
    intro i c
    simp only
    split
    all_goals rfl
  | evictRemove key data victim =>
    intro i c
    simp only
    cases c.memoryCache.lookup victim with
    | some block =>
      simp only
      split
      all_goals rfl
    | none => rfl

end ObsFuse
