import ObsFuse.Fs.Inode

/-! # The metadata cache (src/cache/metadata.rs)

An operation that needs the time takes the reading of `Instant::now()` it works with. -/

namespace ObsFuse
open Lib

structure MetadataCacheConfig where
  attrTtl : ℕ
  dirTtl : ℕ
  negativeTtl : ℕ
  maxEntries : ℕ
  deriving DecidableEq, Repr

structure CachedAttr where
  attr : FileAttr
  cachedAt : Instant
  deriving DecidableEq, Repr

def CachedAttr.isExpired (cached : CachedAttr) (now : Instant) (ttl : ℕ) : Bool :=
  ttl < now - cached.cachedAt

structure CachedDirEntry where
  children : List ℕ
  cachedAt : Instant
  complete : Bool
  deriving DecidableEq, Repr

def CachedDirEntry.isExpired (cached : CachedDirEntry) (now : Instant) (ttl : ℕ) : Bool :=
  ttl < now - cached.cachedAt

structure MetadataCache where
  attrCache : Table ℕ CachedAttr
  dirCache : Table ℕ CachedDirEntry
  negativeCache : Table Str Instant
  config : MetadataCacheConfig
  order : IterOrder (ℕ × Instant)

namespace MetadataCache

def new (config : MetadataCacheConfig) (order : IterOrder (ℕ × Instant)) : MetadataCache :=
  ⟨∅, ∅, ∅, config, order⟩

/-- `MetadataCache::get_attr`; an expired entry is removed. -/
def getAttr (c : MetadataCache) (now : Instant) (inode : ℕ) : Option FileAttr × MetadataCache :=
  match c.attrCache.lookup inode with
  | some cached =>
    if cached.isExpired now c.config.attrTtl then
      (none, { c with attrCache := c.attrCache.erase inode })
    else (some cached.attr, c)
  | none => (none, c)

def insertByTime (e : ℕ × Instant) : List (ℕ × Instant) → List (ℕ × Instant)
  | [] => [e]
  | x :: xs => if e.2 < x.2 then e :: x :: xs else x :: insertByTime e xs

/-- `sort_by_key(|(_, time)| *time)`, which is stable. -/
def sortByTime (es : List (ℕ × Instant)) : List (ℕ × Instant) :=
  es.foldl (fun sorted e => insertByTime e sorted) []

def evictOldestAttrs (c : MetadataCache) (count : ℕ) : MetadataCache :=
  let entries := c.order.visit (c.attrCache.entries.map fun e => (e.1, e.2.cachedAt))
  { c with attrCache :=
      ((sortByTime entries).take count).foldl (fun t e => t.erase e.1) c.attrCache }

def putAttr (c : MetadataCache) (now : Instant) (inode : ℕ) (attr : FileAttr) : MetadataCache :=
  let c :=
    if c.config.maxEntries ≤ c.attrCache.entries.length then
      c.evictOldestAttrs (c.config.maxEntries / 10)
    else c
  { c with attrCache := c.attrCache.insert inode ⟨attr, now⟩ }

def updateAttr (c : MetadataCache) (now : Instant) (inode : ℕ) (f : FileAttr → FileAttr) :
    MetadataCache :=
  { c with attrCache := c.attrCache.modify inode fun cached => ⟨f cached.attr, now⟩ }

def invalidateAttr (c : MetadataCache) (inode : ℕ) : MetadataCache :=
  { c with attrCache := c.attrCache.erase inode }

/-- `MetadataCache::get_dir`; an expired listing is removed. -/
def getDir (c : MetadataCache) (now : Instant) (inode : ℕ) : Option (List ℕ) × MetadataCache :=
  match c.dirCache.lookup inode with
  | some cached =>
    if cached.isExpired now c.config.dirTtl then
      (none, { c with dirCache := c.dirCache.erase inode })
    else (some cached.children, c)
  | none => (none, c)

def putDir (c : MetadataCache) (now : Instant) (inode : ℕ) (children : List ℕ) (complete : Bool) :
    MetadataCache :=
  { c with dirCache := c.dirCache.insert inode ⟨children, now, complete⟩ }

def invalidateDir (c : MetadataCache) (inode : ℕ) : MetadataCache :=
  { c with dirCache := c.dirCache.erase inode }

def isNegative (c : MetadataCache) (now : Instant) (path : Str) : Bool × MetadataCache :=
  match c.negativeCache.lookup path with
  | some timestamp =>
    if now - timestamp ≤ c.config.negativeTtl then (true, c)
    else (false, { c with negativeCache := c.negativeCache.erase path })
  | none => (false, c)

def putNegative (c : MetadataCache) (now : Instant) (path : Str) : MetadataCache :=
  { c with negativeCache := c.negativeCache.insert path now }

def removeNegative (c : MetadataCache) (path : Str) : MetadataCache :=
  { c with negativeCache := c.negativeCache.erase path }

def invalidate (c : MetadataCache) (inode : ℕ) : MetadataCache :=
  (c.invalidateAttr inode).invalidateDir inode

def invalidateParent (c : MetadataCache) (parentInode : ℕ) : MetadataCache :=
  c.invalidateDir parentInode

def clear (c : MetadataCache) : MetadataCache :=
  { c with attrCache := ∅, dirCache := ∅, negativeCache := ∅ }

end MetadataCache

end ObsFuse
