import ObsFuse.Fs.Core

/-! # Configuration and the state at mount (src/config.rs, `ObsFsCore::new`)

The configuration keeps the settings that the core and its parts read. Sizes are those
of `ByteSize` in bytes, durations are in nanoseconds. -/

namespace ObsFuse
open Lib

/-- The fields of `ObsConfig` that validation and the paths use. -/
structure ObsConfig where
  bucket : Str
  accessKey : Option Str
  secretKey : Option Str
  obsPrefix : Option Str
  deriving DecidableEq, Repr

structure CacheConfig where
  memoryLimit : ℕ
  diskLimit : ℕ
  cacheDir : Option Str
  blockSize : ℕ
  metadata : MetadataCacheConfig
  deriving DecidableEq, Repr

structure PerformanceConfig where
  readAhead : Bool
  readAheadWindow : ℕ
  writeBufferSize : ℕ
  multipartThreshold : ℕ
  multipartPartSize : ℕ
  flushInterval : ℕ
  deriving DecidableEq, Repr

structure Config where
  obs : ObsConfig
  cache : CacheConfig
  performance : PerformanceConfig
  permission : PermissionConfig
  deriving DecidableEq, Repr

def mb (n : ℕ) : ℕ := n * 10 ^ 6

def gb (n : ℕ) : ℕ := n * 10 ^ 9

def secs (n : ℕ) : ℕ := n * 10 ^ 9

def ObsConfig.default : ObsConfig := ⟨[], none, none, none⟩

def MetadataCacheConfig.default : MetadataCacheConfig := ⟨secs 3, secs 5, secs 1, 100000⟩

def CacheConfig.default : CacheConfig := ⟨mb 512, gb 10, none, mb 4, .default⟩

def PerformanceConfig.default : PerformanceConfig :=
  ⟨true, mb 16, mb 64, mb 100, mb 8, secs 30⟩

def PermissionConfig.default (uid gid : ℕ) : PermissionConfig :=
  ⟨.fixed, ⟨uid, gid, 0o644, 0o755⟩⟩

def Config.default (uid gid : ℕ) : Config := ⟨.default, .default, .default, .default uid gid⟩

def Config.validate (config : Config) : Except String Unit :=
  if config.obs.bucket = [] then .error "Bucket name is required"
  else if config.obs.accessKey = none then
    .error "Access key is required (set OBS_ACCESS_KEY environment variable)"
  else if config.obs.secretKey = none then
    .error "Secret key is required (set OBS_SECRET_KEY environment variable)"
  else if config.cache.blockSize = 0 then .error "Block size must be greater than 0"
  else .ok ()

theorem Config.blockSize_pos {config : Config} (h : config.validate = .ok ()) :
    0 < config.cache.blockSize := by
  unfold validate at h
  repeat' split at h
  all_goals first | omega | cases h

def PerformanceConfig.toReadahead (config : PerformanceConfig) : ReadaheadConfig where
  enable := config.readAhead
  windowSize := config.readAheadWindow
  seqThreshold := 3
  prefetchTtl := secs 30

def PerformanceConfig.toWriteBuffer (config : PerformanceConfig) : WriteBufferConfig where
  bufferSize := u64 config.writeBufferSize
  flushInterval := config.flushInterval
  multipartThreshold := u64 config.multipartThreshold
  partSize := u64 config.multipartPartSize
  bufferSize_lt := u64_lt _
  multipartThreshold_lt := u64_lt _
  partSize_lt := u64_lt _

/-- What the program does not determine itself: the clocks, the orders in which hash maps
are visited, the failures of file operations in the cache directory and the client's bucket. -/
structure Surroundings where
  now : Now
  clock : ℕ → Instant
  attrOrder : IterOrder (ℕ × Instant)
  memoryOrder : IterOrder MemItem
  diskOrder : IterOrder DiskItem
  diskFaults : ℕ → Option FileFault
  client : ObsClient

/-- `ObsFsCore::new` with a configuration that passed `validate`. -/
def ObsFsCore.new (config : Config) (valid : config.validate = .ok ()) (env : Surroundings) :
    ObsFsCore where
  inodeMgr := .new env.now config.permission
  metadataCache := .new config.cache.metadata env.attrOrder
  dataCache := .new config.cache.blockSize (config.blockSize_pos valid) config.cache.memoryLimit
    (config.cache.cacheDir.map fun dir =>
      .new dir config.cache.diskLimit env.diskOrder env.diskFaults)
    env.clock env.memoryOrder
  readahead := .new config.performance.toReadahead
  writeBuffer := .new config.performance.toWriteBuffer
  obsClient := env.client
  handleMgr := .new
  config := ⟨config.obs.obsPrefix, config.permission⟩
  spawned := []

/-- A valid configuration that leaves everything optional at its default. -/
def Config.basic : Config :=
  { Config.default 0 0 with
    obs := ⟨"bucket".toList, some "access".toList, some "secret".toList, none⟩ }

theorem Config.basic_valid : Config.basic.validate = .ok () := rfl

def Config.withWindow (window : ℕ) : Config :=
  { Config.basic with
    performance := { PerformanceConfig.default with readAheadWindow := window } }

/-- Surroundings in which time stands still and maps are visited in storage order. -/
def Surroundings.still (client : ObsClient) : Surroundings where
  now := ⟨0, 0⟩
  clock _ := 0
  attrOrder := .storage
  memoryOrder := .storage
  diskOrder := .storage
  diskFaults _ := none
  client := client

/-- A client of a bucket that holds empty objects under the given keys. -/
def ObsClient.holding (backend : Backend) (keys : List Str) : ObsClient :=
  { ObsClient.fresh with
    objects := keys.foldr (fun key t => AList.insert key [] t) ∅
    backend := backend }

/-- A mount of the bucket that holds empty objects under the given keys. -/
def ObsFsCore.emptyObjects (keys : List Str) : ObsFsCore :=
  ObsFsCore.new .basic Config.basic_valid (.still (.holding .plain keys))

def ObsFsCore.oneFile (config : Config) (valid : config.validate = .ok ()) (data : Bytes) :
    ObsFsCore :=
  let client : ObsClient := { ObsClient.fresh with objects := AList.insert ['f'] data ∅ }
  ((ObsFsCore.new config valid (.still client)).doLookup ⟨0, 0⟩ rootInode ['f'.toUInt8]).2

end ObsFuse
