import ObsFuse.Fs.Permission

/-! # Permission classes

A process belongs to one class of a file: its owner, else its group, else the others. The
checks ask the bit of that class first and, where it is unset, go on to the later classes. -/

namespace ObsFuse

inductive PermissionClass where
  | owner
  | group
  | other
  deriving DecidableEq, Repr

inductive Access where
  | read
  | write
  | execute
  deriving DecidableEq, Repr

namespace PermissionClass

def select (uid gid fileUid fileGid : ℕ) : PermissionClass :=
  if uid = fileUid then .owner else if gid = fileGid then .group else .other

end PermissionClass

namespace Access

/-- The `r`, `w` or `x` bit of a class, each class with three bits of the mode. -/
def bit : Access → PermissionClass → ℕ
  | .read, .owner => 0o400
  | .read, .group => 0o040
  | .read, .other => 0o004
  | .write, .owner => 0o200
  | .write, .group => 0o020
  | .write, .other => 0o002
  | .execute, .owner => 0o100
  | .execute, .group => 0o010
  | .execute, .other => 0o001

def granted (a : Access) (mode : ℕ) (c : PermissionClass) : Bool := mode &&& a.bit c ≠ 0

/-- Where the bit of the selected class is unset, so are those of the classes asked after it. -/
def NoLaterGrant (a : Access) (uid gid fileUid fileGid mode : ℕ) : Prop :=
  match PermissionClass.select uid gid fileUid fileGid with
  | .owner => a.granted mode .owner = true ∨
    (gid = fileGid → a.granted mode .group = false) ∧ a.granted mode .other = false
  | .group => a.granted mode .group = true ∨ a.granted mode .other = false
  | .other => True

end Access

namespace PermissionManager

def check (m : PermissionManager) : Access → ℕ → ℕ → ℕ → ℕ → ℕ → Bool
  | .read => m.checkRead
  | .write => m.checkWrite
  | .execute => m.checkExecute

theorem check_eq (m : PermissionManager) (a : Access) {uid : ℕ} (h : uid ≠ 0)
    (gid fileUid fileGid mode : ℕ) :
    m.check a uid gid fileUid fileGid mode =
      (decide (uid = fileUid) && a.granted mode .owner ||
        decide (gid = fileGid) && a.granted mode .group || a.granted mode .other) := by
  have hclasses : m.check a uid gid fileUid fileGid mode =
      checkClasses uid gid fileUid fileGid mode (a.bit .owner) (a.bit .group) (a.bit .other) := by
    cases a with
    | read => exact if_neg h
    | write => exact if_neg h
    | execute => exact if_neg h
  rw [hclasses]
  simp only [checkClasses, Access.granted]
  by_cases ho : uid = fileUid ∧ mode &&& a.bit .owner ≠ 0
  · simp [ho.1, ho.2]
  · rw [if_neg ho]
    by_cases hg : gid = fileGid ∧ mode &&& a.bit .group ≠ 0
    · simp [hg.1, hg.2]
    · rw [if_neg hg]
      rw [not_and_or] at ho hg
      rcases ho with ho | ho <;> rcases hg with hg | hg <;> simp [ho, hg]

end PermissionManager

/-- A check reads the bit of the class that the ids select exactly when that bit is set or no
class asked after it has its own. -/
theorem check_reads_class_iff (m : PermissionManager) (a : Access)
    (uid gid fileUid fileGid mode : ℕ) (huid : uid ≠ 0) :
    m.check a uid gid fileUid fileGid mode =
        a.granted mode (.select uid gid fileUid fileGid) ↔
      a.NoLaterGrant uid gid fileUid fileGid mode := by
  rw [m.check_eq a huid]
  unfold Access.NoLaterGrant PermissionClass.select
  by_cases ho : uid = fileUid
  · by_cases hg : gid = fileGid
    · simp only [ho, hg, decide_true, if_true, true_implies]
      cases a.granted mode .owner
      · cases a.granted mode .group <;> simp
      · simp
    · simp only [ho, hg, decide_true, decide_false, if_true, false_implies]
      cases a.granted mode .owner <;> simp
  · by_cases hg : gid = fileGid
    · simp only [ho, hg, decide_true, decide_false, if_true, if_false]
      cases a.granted mode .group <;> simp
    · simp [ho, hg]

/-- The owner of a file that only the others may read reads it. -/
theorem owner_reads_by_other_bit :
    let m : PermissionManager := ⟨⟨.fixed, ⟨1000, 1000, 0o644, 0o755⟩⟩⟩
    PermissionClass.select 1000 1000 1000 1000 = .owner ∧
      m.checkRead 1000 1000 1000 1000 0o004 = true ∧
      Access.read.granted 0o004 .owner = false :=
  ⟨rfl, rfl, rfl⟩

/-- Under `0o640` the owner may write and the group may not. -/
theorem write_checked_by_class :
    let m : PermissionManager := ⟨⟨.fixed, ⟨1000, 1000, 0o644, 0o755⟩⟩⟩
    m.check .write 1000 1000 1000 1000 0o640 = Access.write.granted 0o640 .owner ∧
      m.check .write 2000 1000 1000 1000 0o640 = Access.write.granted 0o640 .group := by
  intro m
  constructor
  · exact (check_reads_class_iff m .write 1000 1000 1000 1000 0o640 (by decide)).mpr (.inl rfl)
  · exact (check_reads_class_iff m .write 2000 1000 1000 1000 0o640 (by decide)).mpr (.inr rfl)

end ObsFuse
