import ObsFuse.Cache.DiskView
import ObsFuse.Lib.Loops
import ObsFuse.Lib.Runs
import ObsFuse.Lib.Weight

/-! # The counter of the disk tier

`current_size` is recomputed by an eviction, added to by a `put` and left alone by an
`invalidate`. Where it is the total size of the entries, a block that fits the limit always
finds room; where it is more, a tier with no entries left can refuse every block. -/

namespace ObsFuse
open Lib

inductive DiskOp where
  | put (now : Instant) (key : BlockKey) (data : Bytes)
  | get (now : Instant) (key : BlockKey)
  | invalidate (inode : ℕ)
  | clear
  deriving DecidableEq, Repr

namespace DiskCache

def step (d : DiskCache) : DiskOp → DiskCache
  | .put now key data => d.put now key data
  | .get now key => (d.get now key).2
  | .invalidate inode => d.invalidate inode
  | .clear => d.clear

/-- The counter is the total size of the entries. -/
def CountsEntries (d : DiskCache) : Prop := d.currentSize = d.calculateSize

instance : DecidablePred CountsEntries := fun _ => inferInstanceAs (Decidable (_ = _))

/-- A block that is not longer than the limit is stored by `put`. -/
def TakesBlocks (d : DiskCache) : Prop :=
  ∀ now key data, data.length ≤ d.sizeLimit → (d.put now key data).content key = some data

structure Accounted (d : DiskCache) : Prop where
  counted : d.CountsEntries
  within : d.currentSize ≤ d.sizeLimit
  taken : d.TakesBlocks

/-! ### Making room -/

def NoRoom (size : ℕ) (d : DiskCache) : Prop := d.sizeLimit < d.currentSize + size

instance (size : ℕ) : DecidablePred (NoRoom size) := fun _ => inferInstanceAs (Decidable (_ < _))

/-- One round of the loop of `DiskCache::put`, and whether it goes on. -/
def evictRound (d : DiskCache) : Bool × DiskCache :=
  match d.evictOneLocked with
  | some d => (true, { d with currentSize := d.calculateSize })
  | none => (false, d)

theorem makeRoom_eq_loopFor (size k : ℕ) (d : DiskCache) :
    makeRoom size k d = loopFor (NoRoom size) evictRound k d := by
  induction k generalizing d with
  | zero => rfl
  | succ k ih =>
    unfold makeRoom loopFor
    by_cases htest : NoRoom size d
    · have hcond : d.sizeLimit < d.currentSize + size := htest
      rw [if_pos htest, if_pos hcond]
      unfold evictRound
      cases d.evictOneLocked with
      | none => rfl
      | some d' => exact ih _
    · have hcond : ¬d.sizeLimit < d.currentSize + size := htest
      rw [if_neg htest, if_neg hcond]

theorem evictOneLocked_some {d d' : DiskCache} (h : d.evictOneLocked = some d') :
    ∃ key entry, AList.lookup key d.entries = some entry ∧ d'.entries = d.entries.erase key ∧
      d'.sizeLimit = d.sizeLimit := by
  unfold evictOneLocked at h
  split at h
  · next e he =>
    cases h
    have hin := d.order.mem_visit.mp (oldest_mem he)
    exact ⟨e.1, e.2, d.entries.lookup_of_mem_entries hin, rfl, rfl⟩
  · cases h

/-- A round takes an entry out and counts the others, or there was none to take out. -/
theorem evictRound_cases (d : DiskCache) :
    (d.evictRound = (false, d) ∧ d.entries.entries = []) ∨
      ∃ key entry, AList.lookup key d.entries = some entry ∧ d.evictRound.1 = true ∧
        d.evictRound.2.entries = d.entries.erase key ∧ d.evictRound.2.CountsEntries ∧
        d.evictRound.2.sizeLimit = d.sizeLimit := by
  unfold evictRound
  cases he : d.evictOneLocked with
  | none => exact .inl ⟨rfl, evictOneLocked_none he⟩
  | some d' =>
    obtain ⟨key, entry, hentry, herase, hlimit⟩ := evictOneLocked_some he
    exact .inr ⟨key, entry, hentry, rfl, herase, rfl, hlimit⟩

theorem evictRound_length {size : ℕ} (d d' : DiskCache) (_ : NoRoom size d)
    (h : d.evictRound = (true, d')) : d'.entries.entries.length < d.entries.entries.length := by
  rcases d.evictRound_cases with ⟨hnone, -⟩ | ⟨key, entry, hentry, -, herase, -⟩
  · rw [hnone] at h
    cases h
  · rw [h] at herase
    dsimp only at herase
    rw [herase]
    exact d.entries.length_erase_lt (d.entries.mem_entries_of_lookup hentry)

/-- Whether there is room for `size` bytes once all is evicted that has to be, and what is
left then. -/
def roomFor (d : DiskCache) (size : ℕ) : Bool × DiskCache :=
  makeRoom size (d.entries.entries.length + 1) d

theorem roomFor_loop (d : DiskCache) (size : ℕ) :
    Loop (NoRoom size) evictRound d (d.roomFor size) := by
  unfold roomFor
  rw [makeRoom_eq_loopFor]
  exact loop_loopFor (fun d => d.entries.entries.length) evictRound_length (Nat.lt_succ_self _)

variable {d : DiskCache} {size : ℕ}

theorem calculateSize_eq_zero (h : d.entries.entries = []) : d.calculateSize = 0 := by
  unfold calculateSize
  rw [h]
  rfl

theorem evictRound_limit (d : DiskCache) : d.evictRound.2.sizeLimit = d.sizeLimit := by
  rcases d.evictRound_cases with ⟨hnone, -⟩ | ⟨_, _, -, -, -, -, hlimit⟩
  · rw [hnone]
  · exact hlimit

theorem evictRound_counts (h : d.CountsEntries) : d.evictRound.2.CountsEntries := by
  rcases d.evictRound_cases with ⟨hnone, -⟩ | ⟨_, _, -, -, -, hcounts, -⟩
  · rw [hnone]
    exact h
  · exact hcounts

theorem roomFor_limit (d : DiskCache) (size : ℕ) : (d.roomFor size).2.sizeLimit = d.sizeLimit :=
  (d.roomFor_loop size).invariant
    (fun d' (h : d'.sizeLimit = d.sizeLimit) _ => (d'.evictRound_limit).trans h) rfl

theorem roomFor_counts (h : d.CountsEntries) (size : ℕ) : (d.roomFor size).2.CountsEntries :=
  (d.roomFor_loop size).invariant (fun _ h _ => evictRound_counts h) h

theorem roomFor_lookup (d : DiskCache) (size : ℕ) (key : BlockKey) :
    AList.lookup key (d.roomFor size).2.entries = none ∨
      AList.lookup key (d.roomFor size).2.entries = AList.lookup key d.entries := by
  refine @Loop.invariant _ _ _ _ _ (fun d' => AList.lookup key d'.entries = none ∨
    AList.lookup key d'.entries = AList.lookup key d.entries) ?_ (d.roomFor_loop size) (.inr rfl)
  intro d' hsub _
  rcases d'.evictRound_cases with ⟨hnone, -⟩ | ⟨key', entry, -, -, herase, -⟩
  · rw [hnone]
    exact hsub
  · rw [herase]
    rcases Table.lookup_erase_or d'.entries key' key with hnone | hsame
    · exact .inl hnone
    · rw [hsame]
      exact hsub

theorem roomFor_none (h : (d.roomFor size).1 = false) :
    (d.roomFor size).2.entries.entries = [] := by
  obtain ⟨d', -, hbody⟩ := (d.roomFor_loop size).left_in_round h
  rcases d'.evictRound_cases with ⟨hnone, hempty⟩ | ⟨_, _, -, hon, -⟩
  · rw [← hbody, hnone]
    exact hempty
  · rw [hbody, h] at hon
    cases hon

/-- Where the counter is right, there is room for what fits the limit. -/
theorem roomFor_fits (h : d.CountsEntries) (hsize : size ≤ d.sizeLimit) :
    (d.roomFor size).1 = true := by
  refine @Loop.ends_by_test _ _ _ _ _ (fun d' => d'.CountsEntries ∧ d'.sizeLimit = d.sizeLimit)
    ?_ ?_ (d.roomFor_loop size) ⟨h, rfl⟩
  · exact fun d' hd' _ => ⟨evictRound_counts hd'.1, (d'.evictRound_limit).trans hd'.2⟩
  · intro d' hd' htest
    rcases d'.evictRound_cases with ⟨-, hempty⟩ | ⟨_, _, -, hon, -⟩
    · -- an empty tier has room
      have hzero := calculateSize_eq_zero hempty
      obtain ⟨hcounts, hlimit⟩ := hd'
      unfold CountsEntries at hcounts
      unfold NoRoom at htest
      omega
    · exact hon

theorem roomFor_room (h : (d.roomFor size).1 = true) :
    (d.roomFor size).2.currentSize + size ≤ d.sizeLimit := by
  have htest := (d.roomFor_loop size).not_test h
  have hlimit := d.roomFor_limit size
  unfold NoRoom at htest
  omega

/-! ### What each operation does to the counter -/

/-- `put` once it has made room, if the file is written. -/
def store (d : DiskCache) (now : Instant) (key : BlockKey) (data : Bytes) : DiskCache :=
  { d.asked with
    files := d.files.insert (d.filePath key) data
    entries := d.entries.insert key ⟨d.filePath key, data.length, now⟩
    currentSize := d.currentSize + data.length }

theorem evictRound_dir (d : DiskCache) : d.evictRound.2.cacheDir = d.cacheDir := by
  unfold evictRound evictOneLocked
  cases oldest (d.order.visit d.entries.entries) with
  | none => rfl
  | some e => rfl

theorem put_eq (hd : d.Faithful) (now : Instant) (key : BlockKey) (data : Bytes) :
    d.put now key data = if (d.roomFor data.length).1 = true then
      (d.roomFor data.length).2.store now key data else (d.roomFor data.length).2 := by
  have hdir : (d.roomFor data.length).2.cacheDir = d.cacheDir :=
    (d.roomFor_loop data.length).invariant
      (fun d' (h : d'.cacheDir = d.cacheDir) _ => (d'.evictRound_dir).trans h) rfl
  have hpath : (d.roomFor data.length).2.filePath key = d.filePath key := by
    rw [filePath, filePath, hdir]
  have hroom : makeRoom data.length (d.entries.entries.length + 1) d = d.roomFor data.length := rfl
  have hfaults : (d.roomFor data.length).2.faults = d.faults := d.makeRoom_faults _ _
  unfold put store
  dsimp only
  rw [hpath, hroom]
  generalize d.roomFor data.length = r at hfaults
  obtain ⟨_ | _, d'⟩ := r
  · rfl
  · have hfault : d'.fault = none := by
      unfold fault
      rw [hfaults, hd]
    dsimp only
    rw [hfault]
    rfl

/-- Making room for `size` bytes evicts the block. -/
def Evicts (d : DiskCache) (size : ℕ) (key : BlockKey) : Prop :=
  AList.lookup key (d.roomFor size).2.entries = none

/-- A `put` finds no bytes on disk under its block, or evicts them to make room; an
`invalidate` finds none of its file. -/
def LeavesNothing (d : DiskCache) : DiskOp → Prop
  | .put _ key data => ∀ entry ∈ AList.lookup key d.entries,
    entry.size = 0 ∨ d.Evicts data.length key
  | .invalidate inode => ∀ e ∈ d.entries.entries, e.1.inode = inode → e.2.size = 0
  | _ => True

theorem put_counts_iff (hd : d.Faithful) (h : d.CountsEntries) (now : Instant) (key : BlockKey)
    (data : Bytes) :
    (d.put now key data).CountsEntries ↔
      Table.weightAt DiskCacheEntry.size (d.roomFor data.length).2.entries key = 0 := by
  have hroom := roomFor_counts h data.length
  rw [put_eq hd]
  by_cases hon : (d.roomFor data.length).1 = true
  · rw [if_pos hon]
    generalize (d.roomFor data.length).2 = d' at hroom
    have hinsert := Table.weight_insert DiskCacheEntry.size d'.entries key
      ⟨d'.filePath key, data.length, now⟩
    have hold : d'.currentSize = Table.weight DiskCacheEntry.size d'.entries := hroom
    show d'.currentSize + data.length = Table.weight DiskCacheEntry.size
      (d'.entries.insert key ⟨d'.filePath key, data.length, now⟩) ↔ _
    dsimp only at hinsert
    omega
  · have hempty := roomFor_none (Bool.eq_false_iff.mpr hon)
    rw [if_neg hon]
    refine Iff.intro (fun _ => ?_) fun _ => hroom
    exact Table.weightAt_of_none _ _ _ (entries_eq_empty hempty key)

theorem get_counts (h : d.CountsEntries) (now : Instant) (key : BlockKey) :
    (d.get now key).2.CountsEntries := by
  unfold get
  split
  · next entry hentry =>
    have hinsert := Table.weight_insert DiskCacheEntry.size d.entries key
      { entry with lastAccess := now }
    rw [Table.weightAt_of_lookup _ _ _ hentry] at hinsert
    have hold : d.currentSize = Table.weight DiskCacheEntry.size d.entries := h
    show d.currentSize = Table.weight DiskCacheEntry.size
      (d.entries.insert key { entry with lastAccess := now })
    dsimp only at hinsert
    omega
  · exact h

theorem invalidate_counts_iff (h : d.CountsEntries) (inode : ℕ) :
    (d.invalidate inode).CountsEntries ↔
      ∀ e ∈ d.entries.entries, e.1.inode = inode → e.2.size = 0 := by
  have hkeep := Table.weight_keep DiskCacheEntry.size d.entries fun k _ => k.inode ≠ inode
  have hold : d.currentSize = Table.weight DiskCacheEntry.size d.entries := h
  show d.currentSize = Table.weight DiskCacheEntry.size
    (d.entries.keep fun k _ => k.inode ≠ inode) ↔ _
  have hzero : (d.currentSize = Table.weight DiskCacheEntry.size
      (d.entries.keep fun k _ => k.inode ≠ inode)) ↔
      ((d.entries.entries.filter fun e => !decide (e.1.inode ≠ inode)).map fun e =>
        e.2.size).sum = 0 := by
    omega
  rw [hzero, List.sum_eq_zero_iff_forall_eq_nat]
  simp only [List.mem_map, List.mem_filter, ne_eq, decide_not, Bool.not_not, decide_eq_true_eq,
    forall_exists_index, and_imp]
  refine Iff.intro ?_ ?_
  · exact fun hsizes e he hinode => hsizes _ e he hinode rfl
  · rintro hsizes size e he hinode rfl
    exact hsizes e he hinode

theorem step_counts_iff (hd : d.Faithful) (h : d.CountsEntries) (op : DiskOp) :
    (d.step op).CountsEntries ↔ d.LeavesNothing op := by
  cases op with
  | put now key data =>
    refine (put_counts_iff hd h now key data).trans ?_
    exact Table.weightAt_eq_zero_iff _ _ _ (d.roomFor_lookup data.length key)
  | get now key => exact Iff.intro (fun _ => trivial) fun _ => get_counts h now key
  | invalidate inode => exact invalidate_counts_iff h inode
  | clear => exact Iff.intro (fun _ => trivial) fun _ => rfl

/-! ### What follows from a right counter -/

theorem step_within (hd : d.Faithful) (hcounts : d.CountsEntries)
    (h : d.currentSize ≤ d.sizeLimit) (op : DiskOp) :
    (d.step op).currentSize ≤ (d.step op).sizeLimit := by
  cases op with
  | put now key data =>
    show (d.put now key data).currentSize ≤ (d.put now key data).sizeLimit
    rw [put_eq hd]
    have hlimit := d.roomFor_limit data.length
    by_cases hon : (d.roomFor data.length).1 = true
    · have hroom := roomFor_room hon
      rw [if_pos hon]
      show (d.roomFor data.length).2.currentSize + data.length ≤
        (d.roomFor data.length).2.sizeLimit
      omega
    · have hzero := calculateSize_eq_zero (roomFor_none (Bool.eq_false_iff.mpr hon))
      have hleft : (d.roomFor data.length).2.currentSize = _ := roomFor_counts hcounts data.length
      rw [if_neg hon, hleft, hzero]
      exact Nat.zero_le _
  | get now key =>
    show (d.get now key).2.currentSize ≤ (d.get now key).2.sizeLimit
    unfold get
    split
    · exact h
    · exact h
  | invalidate inode => exact h
  | clear => exact Nat.zero_le _

theorem CountsEntries.takes (hd : d.Faithful) (h : d.CountsEntries) : d.TakesBlocks := by
  intro now key data hdata
  rw [put_eq hd, if_pos (roomFor_fits h hdata)]
  simp only [content, store, AList.lookup_insert, Option.bind_some]

theorem Faithful.step (hd : d.Faithful) (op : DiskOp) : (d.step op).Faithful := by
  cases op with
  | put now key data => exact faithful_kept.put d now key data hd
  | get now key => exact faithful_kept.get d now key hd
  | invalidate inode => exact hd
  | clear => exact hd

theorem Accounted.step_iff (hd : d.Faithful) (h : d.Accounted) (op : DiskOp) :
    (d.step op).Accounted ↔ d.LeavesNothing op := by
  rw [← step_counts_iff hd h.counted op]
  refine Iff.intro (fun h' => h'.counted) fun hcounts => ?_
  exact ⟨hcounts, step_within hd h.counted h.within op, hcounts.takes (hd.step op)⟩

end DiskCache

/-- In every run from a new disk tier whose file operations succeed, the counter is the total
size of the entries and within the limit, and a block that fits is always stored, in every state
exactly when no `put` and no `invalidate` leaves the bytes of an entry in the counter that it
removes. -/
theorem disk_accounting_iff (cacheDir : Str) (sizeLimit : ℕ) (order : IterOrder DiskItem)
    (ops : List DiskOp) :
    (∀ n, (run DiskCache.step (.new cacheDir sizeLimit order fun _ => none)
        (ops.take n)).Accounted) ↔
      Along DiskCache.step DiskCache.LeavesNothing
        (.new cacheDir sizeLimit order fun _ => none) ops := by
  have hfaith : (DiskCache.new cacheDir sizeLimit order fun _ => none).Faithful := fun _ => rfl
  have hnew : (DiskCache.new cacheDir sizeLimit order fun _ => none).CountsEntries := rfl
  exact forall_states_iff_along DiskCache.Accounted (fun _ op hd => hd.step op)
    (fun _ op hd h => h.step_iff hd op) hfaith ⟨hnew, Nat.zero_le _, hnew.takes hfaith⟩

/-- A block fills the tier and its file is invalidated. No entry is left, the counter stays at
the limit, and the next block is refused. -/
theorem invalidated_tier_refuses_blocks :
    let d := run DiskCache.step (.new ['d'] 3 .storage fun _ => none)
      [.put 0 ⟨2, 0⟩ [1, 2, 3], .invalidate 2]
    d.currentSize = 3 ∧ d.calculateSize = 0 ∧ ([7] : Bytes).length ≤ d.sizeLimit ∧
      (d.put 1 ⟨2, 0⟩ [7]).content ⟨2, 0⟩ = none ∧ ¬d.Accounted := by
  intro d
  refine ⟨by decide, by decide, by decide, by decide, ?_⟩
  intro h
  exact absurd h.counted (by decide)

end ObsFuse
