import ObsFuse.Fs.Attr
import ObsFuse.Lib.Numerals

/-! # Permissions (src/fs/permission.rs)

The three checks try the owner's, the group's and the other bit of the mode in this order and
grant the access at the first that applies. Their receiver is not read. In the preserved mode
the owner, the group and the mode are kept as decimal texts in an object's metadata. -/

namespace ObsFuse
open Lib

structure PermissionManager where
  config : PermissionConfig
  deriving DecidableEq, Repr

namespace PermissionManager

/-- The tests that the three checks share, after the one for root. -/
def checkClasses (uid gid fileUid fileGid mode owner group other : ℕ) : Bool :=
  if uid = fileUid ∧ mode &&& owner ≠ 0 then true
  else if gid = fileGid ∧ mode &&& group ≠ 0 then true
  else mode &&& other ≠ 0

def checkRead (_m : PermissionManager) (uid gid fileUid fileGid mode : ℕ) : Bool :=
  if uid = 0 then true else checkClasses uid gid fileUid fileGid mode 0o400 0o040 0o004

def checkWrite (_m : PermissionManager) (uid gid fileUid fileGid mode : ℕ) : Bool :=
  if uid = 0 then true else checkClasses uid gid fileUid fileGid mode 0o200 0o020 0o002

/-- Root may execute what anyone may. -/
def checkExecute (_m : PermissionManager) (uid gid fileUid fileGid mode : ℕ) : Bool :=
  if uid = 0 then mode &&& 0o111 ≠ 0
  else checkClasses uid gid fileUid fileGid mode 0o100 0o010 0o001

def isPreservedMode (m : PermissionManager) : Bool := m.config.mode = .preserved

def uidKey : Str := "x-obs-meta-uid".toList
def gidKey : Str := "x-obs-meta-gid".toList
def modeKey : Str := "x-obs-meta-mode".toList

def buildMetadata (m : PermissionManager) (uid gid mode : ℕ) : Table Str Str :=
  if m.isPreservedMode then
    AList.insert modeKey (Nat.toDigits 10 mode)
      (AList.insert gidKey (Nat.toDigits 10 gid) (AList.insert uidKey (Nat.toDigits 10 uid) ∅))
  else ∅

/-- `str::parse` for a `u32`, without its error. -/
def parseU32 (text : Str) : Option ℕ := (fromStrRadix 10 (2 ^ 32) text).toOption

def parseMetadata (m : PermissionManager) (info : Table Str Str) : Option (ℕ × ℕ × ℕ) :=
  if !m.isPreservedMode then none
  else do
    let uid ← (info.lookup uidKey).bind parseU32
    let gid ← (info.lookup gidKey).bind parseU32
    let mode ← (info.lookup modeKey).bind parseU32
    some (uid, gid, mode)

end PermissionManager

end ObsFuse
