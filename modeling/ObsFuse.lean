import ObsFuse.Lib.Runs
import ObsFuse.Lib.Table
import ObsFuse.Lib.Overlay
import ObsFuse.Storage.Obs
import ObsFuse.Storage.Multipart
import ObsFuse.Storage.Requests
import ObsFuse.Cache.WriteBuffer
import ObsFuse.Fs.Path
import ObsFuse.Fs.Inode
import ObsFuse.Fs.Attr
import ObsFuse.Fs.Handle
import ObsFuse.Cache.Metadata
import ObsFuse.Cache.Data
import ObsFuse.Cache.Readahead
import ObsFuse.Fs.Core
import ObsFuse.Cache.FileBuffer
import ObsFuse.Cache.DiskView
import ObsFuse.Cache.BlockView
import ObsFuse.Cache.FileView
import ObsFuse.Fs.Mount
import ObsFuse.Fs.ReadPath
import ObsFuse.Fs.WritePath
import ObsFuse.Consistency.WriteOverlay
import ObsFuse.Consistency.Session
import ObsFuse.Consistency.FlushTransparency
import ObsFuse.Consistency.MultipartObject
import ObsFuse.Consistency.CacheTruth
import ObsFuse.Consistency.WriteHides
import ObsFuse.Consistency.CachedReads
import ObsFuse.Fs.Steps
import ObsFuse.Fs.InodeNames
import ObsFuse.Consistency.ReadAfterWrite
import ObsFuse.Consistency.FailedFlush
import ObsFuse.Consistency.LiveNames
import ObsFuse.Consistency.OrphanedWrites
import ObsFuse.Consistency.InodeMaps
import ObsFuse.Consistency.OneInode
import ObsFuse.Consistency.RenameWhole
import ObsFuse.Fs.ReaddirPath
import ObsFuse.Consistency.DirectoryPages
import ObsFuse.Consistency.DirectChildren
import ObsFuse.Fs.LookupPath
import ObsFuse.Consistency.NegativeNames
import ObsFuse.Consistency.LookupRace
import ObsFuse.Consistency.Truncation
import ObsFuse.Consistency.GetattrAgrees
import ObsFuse.Fs.Frames
import ObsFuse.Fs.CacheSteps
import ObsFuse.Consistency.TruncateRace
import ObsFuse.Lib.Unwinding
import ObsFuse.Consistency.BufferIsolation
import ObsFuse.Cache.BufferRequests
import ObsFuse.Consistency.PrefixConfinement
import ObsFuse.Fs.Fuse
import ObsFuse.Consistency.OpenHandles
import ObsFuse.Consistency.SizeRecords
import ObsFuse.Fs.Settings
import ObsFuse.Consistency.Precedence
import ObsFuse.Fs.LossyNames
import ObsFuse.Fs.Names
import ObsFuse.Consistency.DistinctObjects
import ObsFuse.Lib.Locks
import ObsFuse.Cache.DataThreads
import ObsFuse.Consistency.CacheDeadlock
import ObsFuse.Consistency.InodeNumbers
import ObsFuse.Consistency.TransientFailure
import ObsFuse.Consistency.SubtreeRename
import ObsFuse.Lib.Weight
import ObsFuse.Lib.Loops
import ObsFuse.Cache.MemoryView
import ObsFuse.Consistency.MemoryAccounting
import ObsFuse.Consistency.DiskAccounting
import ObsFuse.Consistency.AttrBound
import ObsFuse.Consistency.NamespaceFailures
import ObsFuse.Consistency.RemovedDirectory
import ObsFuse.Consistency.FlushAtShutdown
import ObsFuse.Consistency.PrefetchedReads
import ObsFuse.Consistency.SetAttributes
import ObsFuse.Consistency.BuiltAttributes
import ObsFuse.Consistency.BlockCounts
import ObsFuse.Consistency.ExpiredAttributes
import ObsFuse.Consistency.WriteTermination
import ObsFuse.Lib.Blocks
import ObsFuse.Storage.PartTrace
import ObsFuse.Consistency.PartSplitting
import ObsFuse.Consistency.UploadLimits
import ObsFuse.Consistency.PrefetchRanges
import ObsFuse.Consistency.SequentialScan
import ObsFuse.Storage.Retry
import ObsFuse.Consistency.RetryAttempts
import ObsFuse.Lib.Numerals
import ObsFuse.Consistency.ModeParsing
import ObsFuse.Fs.Permission
import ObsFuse.Consistency.PermissionClasses
import ObsFuse.Consistency.PathSpellings
import ObsFuse.Consistency.PathHelpers
import ObsFuse.Fs.Dir
import ObsFuse.Consistency.ChildTests
import ObsFuse.Consistency.RangeInvalidation
import ObsFuse.Consistency.LeastRecent
import ObsFuse.Lib.Checked
import ObsFuse.Fs.CheckedPath
import ObsFuse.Consistency.OffsetArithmetic
import ObsFuse.Lib.Simulation
import ObsFuse.Fs.Events
import ObsFuse.Fs.CacheSources
import ObsFuse.Fs.Footprint
import ObsFuse.Consistency.BoundedStaleness
import ObsFuse.Consistency.DirectedChanges
import ObsFuse.Cache.BlockSources
import ObsFuse.Consistency.OneVersion
import ObsFuse.Lib.Paging
import ObsFuse.Fs.Platform
import ObsFuse.Fs.EncodedNames
import ObsFuse.Fs.WinFsp
import ObsFuse.Consistency.WindowsNames
import ObsFuse.Consistency.WindowsListing
import ObsFuse.Fs.Adapters
import ObsFuse.Consistency.ReadOnlyMount
import ObsFuse.Consistency.SetTimes
import ObsFuse.Consistency.DeletedOnClose
import ObsFuse.Consistency.StableInodes
import ObsFuse.Consistency.ObjectPermissions
import ObsFuse.Cache.BufferRule
import ObsFuse.Consistency.BufferedBytes
import ObsFuse.Lib.Sharing
import ObsFuse.Consistency.SharedBucket
