import ObsFuse.Fs.Fuse
import Mathlib.Algebra.Ring.Int.Defs

/-! # Times of the two platforms (src/fs/platform.rs)

A `SystemTime` counts nanoseconds from 1970 on, the kernel's timestamps seconds and nanoseconds,
and a Windows FILETIME intervals of 100 ns from 1601 on. -/

namespace ObsFuse

namespace Timestamp

/-- `From<SystemTime>`, and `systemtime_to_fuse_timestamp` of src/fs/inode.rs. -/
def ofSystemTime (st : SystemTime) : Timestamp :=
  if 0 ≤ st then ⟨st / 1000000000, (st % 1000000000).toNat⟩ else ⟨0, 0⟩

/-- The time from 1601 to 1970, in intervals of 100 ns. -/
def epochDiff : ℕ := 116444736000000000

/-- `From<Timestamp>` for the `SystemTime` of Windows, which counts intervals of 100 ns from 1601
on in an `i64`. The addition to `UNIX_EPOCH` panics past the last of them. -/
def toSystemTime (ts : Timestamp) : Option SystemTime :=
  if 0 ≤ ts.sec then
    let unix100ns := ts.sec * 10000000 + (ts.nsec / 100 : ℕ)
    if unix100ns + epochDiff < 2 ^ 63 then some (unix100ns * 100) else none
  else some 0

def toFiletime (ts : Timestamp) : ℕ :=
  let sec := (ts.sec % 2 ^ 64).toNat
  let unix100ns := u64 (u64 (sec * 10000000) + ts.nsec / 100)
  u64 (unix100ns + epochDiff)

def fromFiletime (ft : ℕ) : Timestamp :=
  if ft < epochDiff then ⟨0, 0⟩
  else
    let unix100ns := ft - epochDiff
    ⟨(unix100ns / 10000000 : ℕ), unix100ns % 10000000 * 100⟩

end Timestamp

/-- The attributes as the kernel gets them on Linux. -/
structure FuseAttr where
  ino : ℕ
  size : ℕ
  blocks : ℕ
  atime : Timestamp
  mtime : Timestamp
  ctime : Timestamp
  kind : FileKind
  perm : ℕ
  nlink : ℕ
  uid : ℕ
  gid : ℕ
  rdev : ℕ
  blksize : ℕ
  deriving DecidableEq, Repr

def FileAttr.toFuse3 (attr : FileAttr) : FuseAttr where
  ino := attr.ino
  size := attr.size
  blocks := attr.blocks
  atime := .ofSystemTime attr.atime
  mtime := .ofSystemTime attr.mtime
  ctime := .ofSystemTime attr.ctime
  kind := attr.kind
  perm := attr.perm
  nlink := attr.nlink
  uid := attr.uid
  gid := attr.gid
  rdev := attr.rdev
  blksize := attr.blksize

/-! ### There and back -/

namespace Timestamp

theorem ofSystemTime_neg {st : SystemTime} (h : st < 0) : ofSystemTime st = ⟨0, 0⟩ := by
  unfold ofSystemTime
  exact if_neg (Int.not_le.mpr h)

theorem ofSystemTime_nat (n : ℕ) :
    ofSystemTime (n : ℤ) = ⟨(n / 1000000000 : ℕ), n % 1000000000⟩ := by
  unfold ofSystemTime
  rw [if_pos (Int.natCast_nonneg n)]
  rfl

/-- The timestamp, but none before 1970. -/
def fromEpoch (ts : Timestamp) : Timestamp := if 0 ≤ ts.sec then ts else ⟨0, 0⟩

theorem ofSystemTime_timestampToSystemtime {ts : Timestamp} (hsec : 0 ≤ ts.sec)
    (hnsec : ts.nsec < 1000000000) : ofSystemTime (timestampToSystemtime ts) = ts := by
  obtain ⟨sec, nsec⟩ := ts
  obtain ⟨n, rfl⟩ := Int.eq_ofNat_of_zero_le hsec
  have htime : timestampToSystemtime ⟨(n : ℤ), nsec⟩ = ((n * 1000000000 + nsec : ℕ) : ℤ) := by
    unfold timestampToSystemtime
    rw [if_pos (Int.natCast_nonneg n)]
    push_cast
    rfl
  have hquot : (n * 1000000000 + nsec) / 1000000000 = n := by
    dsimp only at hnsec
    omega
  have hrest : (n * 1000000000 + nsec) % 1000000000 = nsec := by
    dsimp only at hnsec
    omega
  rw [htime, ofSystemTime_nat, hquot, hrest]

theorem ofSystemTime_fromEpoch {ts : Timestamp} (hnsec : ts.nsec < 1000000000) :
    ofSystemTime (timestampToSystemtime ts) = ts.fromEpoch := by
  unfold fromEpoch
  split
  · next hsec => exact ofSystemTime_timestampToSystemtime hsec hnsec
  · next hsec =>
    unfold timestampToSystemtime
    rw [if_neg hsec]
    rfl

theorem fromFiletime_early {ft : ℕ} (h : ft < epochDiff) : fromFiletime ft = ⟨0, 0⟩ := by
  unfold fromFiletime
  exact if_pos h

/-- A FILETIME names the time of its interval's start, if Windows can count that far. -/
theorem toSystemTime_fromFiletime (ft : ℕ) : (fromFiletime ft).toSystemTime =
    if ft < 2 ^ 63 then some (((ft - epochDiff : ℕ) : ℤ) * 100) else none := by
  rcases Nat.lt_or_ge ft epochDiff with hearly | hlate
  · have hfit : ft < 2 ^ 63 := hearly.trans (by decide)
    rw [fromFiletime_early hearly, Nat.sub_eq_zero_of_le (Nat.le_of_lt hearly), if_pos hfit]
    rfl
  · have hparts : (((ft - epochDiff) / 10000000 : ℕ) : ℤ) * 10000000 +
        ((ft - epochDiff) % 10000000 * 100 / 100 : ℕ) = ((ft - epochDiff : ℕ) : ℤ) := by omega
    have hwhole : ((ft - epochDiff : ℕ) : ℤ) + epochDiff = ft := by omega
    have hfits : (ft : ℤ) < 2 ^ 63 ↔ ft < 2 ^ 63 := by omega
    unfold fromFiletime toSystemTime
    rw [if_neg (Nat.not_lt.mpr hlate)]
    dsimp only
    rw [if_pos (Int.natCast_nonneg _), hparts, hwhole]
    simp only [hfits]

theorem toFiletime_ofSystemTime_nat {n : ℕ} (h : n / 100 + epochDiff < 2 ^ 64) :
    toFiletime (ofSystemTime (n : ℤ)) = n / 100 + epochDiff := by
  have hsec : ((n / 1000000000 : ℕ) : ℤ) % 2 ^ 64 = ((n / 1000000000 : ℕ) : ℤ) := by
    apply Int.emod_eq_of_lt (Int.natCast_nonneg _)
    unfold epochDiff at h
    omega
  have hsum : n / 1000000000 * 10000000 + n % 1000000000 / 100 = n / 100 := by omega
  have hfit : n / 1000000000 * 10000000 < 2 ^ 64 := by
    unfold epochDiff at h
    omega
  have hfit' : n / 100 < 2 ^ 64 := by
    unfold epochDiff at h
    omega
  rw [ofSystemTime_nat]
  unfold toFiletime
  dsimp only
  rw [hsec, Int.toNat_natCast, u64_eq hfit, hsum, u64_eq hfit', u64_eq h]

theorem toFiletime_ofSystemTime_neg {st : SystemTime} (h : st < 0) :
    toFiletime (ofSystemTime st) = epochDiff := by
  rw [ofSystemTime_neg h]
  rfl

/-- A FILETIME comes back from the system time it names, but none before 1970. -/
theorem toFiletime_fromFiletime {ft : ℕ} (h : ft < 2 ^ 63) :
    ∃ st, (fromFiletime ft).toSystemTime = some st ∧
      (ofSystemTime st).toFiletime = max ft epochDiff := by
  have hcast : ((ft - epochDiff : ℕ) : ℤ) * 100 = (((ft - epochDiff) * 100 : ℕ) : ℤ) := by
    push_cast
    rfl
  have hdiv : (ft - epochDiff) * 100 / 100 = ft - epochDiff := Nat.mul_div_cancel _ (by decide)
  have hfit : (ft - epochDiff) * 100 / 100 + epochDiff < 2 ^ 64 := by
    rw [hdiv]
    unfold epochDiff
    omega
  refine ⟨((ft - epochDiff : ℕ) : ℤ) * 100, ?_, ?_⟩
  · rw [toSystemTime_fromFiletime, if_pos h]
  · rw [hcast, toFiletime_ofSystemTime_nat hfit, hdiv]
    omega

end Timestamp

end ObsFuse
