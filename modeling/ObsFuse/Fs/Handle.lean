import ObsFuse.Basic

/-! # File handles (src/fs/handle.rs, open flags of src/fs/platform.rs) -/

namespace ObsFuse
open Lib

/-- `is_writable`: the access mode is `O_WRONLY` or `O_RDWR`. -/
def isWritable (flags : ℕ) : Bool := flags &&& 3 = 1 || flags &&& 3 = 2

def isReadable (flags : ℕ) : Bool := flags &&& 3 = 0 || flags &&& 3 = 2

structure HandleState where
  inode : ℕ
  flags : ℕ
  writable : Bool
  readable : Bool
  position : ℕ
  lastAccess : Instant
  dirty : Bool
  isDir : Bool
  deriving DecidableEq, Repr

namespace HandleState

def new (now : Instant) (inode flags : ℕ) (isDir : Bool) : HandleState where
  inode := inode
  flags := flags
  writable := isWritable flags
  readable := isReadable flags
  position := 0
  lastAccess := now
  dirty := false
  isDir := isDir

def updatePosition (st : HandleState) (now : Instant) (offset size : ℕ) : HandleState :=
  { st with position := u64 (offset + size), lastAccess := now }

def markDirty (st : HandleState) : HandleState := { st with dirty := true }

end HandleState

structure HandleManager where
  handles : Table ℕ HandleState
  nextHandle : ℕ

namespace HandleManager

def new : HandleManager := ⟨∅, 1⟩

def openHandle (m : HandleManager) (now : Instant) (inode flags : ℕ) (isDir : Bool) :
    ℕ × HandleManager :=
  (m.nextHandle,
    { handles := m.handles.insert m.nextHandle (.new now inode flags isDir)
      nextHandle := u64 (m.nextHandle + 1) })

def update (m : HandleManager) (handle : ℕ) (f : HandleState → HandleState) : HandleManager :=
  { m with handles := m.handles.modify handle f }

def close (m : HandleManager) (handle : ℕ) : HandleManager :=
  { m with handles := m.handles.erase handle }

end HandleManager

end ObsFuse
