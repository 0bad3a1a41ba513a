import ObsFuse.Fs.CacheSteps

/-! # Reads of prefetched bytes

A prefetch fetches the bytes of a window from its offset on. A later read at that offset gets
its answer from them alone, whatever it asks for. The run is followed by the contents of the
objects from which the entries of the prefetch buffer were fetched. -/

namespace ObsFuse
open Lib

namespace ReadaheadManager

theorem recordRead_size {m : ReadaheadManager} {now : Instant} {inode offset size : ℕ}
    {request : PrefetchRequest}
    (h : (m.recordRead now inode offset size).1 = some request) :
    request.size = m.config.windowSize := by
  unfold recordRead at h
  split at h
  · cases h
  · dsimp only at h
    split at h
    · split at h
      · cases h
        rfl
      · cases h
    · cases h

end ReadaheadManager

namespace ObsFsCore

/-- What an operation other than a prefetch does to the read-ahead: no entry is added, and the
prefetches that it spawns are for the configured window. -/
structure AddsNoEntry (s s' : ObsFsCore) : Prop where
  config : s'.readahead.config = s.readahead.config
  entries : ∀ key entry, AList.lookup key s'.readahead.prefetchBuffer = some entry →
    AList.lookup key s.readahead.prefetchBuffer = some entry
  jobs : ∀ job ∈ s'.spawned, job ∈ s.spawned ∨ job.request.size = s.readahead.config.windowSize

theorem AddsNoEntry.of_same {s s' : ObsFsCore} (hahead : s'.readahead = s.readahead)
    (hspawned : s'.spawned = s.spawned) : s.AddsNoEntry s' := by
  constructor
  · rw [hahead]
  · intro key entry h
    rw [hahead] at h
    exact h
  · intro job hjob
    rw [hspawned] at hjob
    exact .inl hjob

theorem AddsNoEntry.of_invalidate {s s' : ObsFsCore} {inode : ℕ}
    (hahead : s'.readahead = s.readahead.invalidate inode) (hspawned : s'.spawned = s.spawned) :
    s.AddsNoEntry s' := by
  constructor
  · rw [hahead]
    rfl
  · intro key entry h
    rw [hahead, ReadaheadManager.invalidate_lookup] at h
    split at h
    · cases h
    · exact h
  · intro job hjob
    rw [hspawned] at hjob
    exact .inl hjob

theorem readRemote_addsNoEntry (s : ObsFsCore) (now : Now) (inode : ℕ) (obs : Str)
    (offset size : ℕ) : s.AddsNoEntry (s.readRemote now inode obs offset size).2 := by
  unfold readRemote
  split
  · exact .of_same rfl rfl
  · constructor
    · exact s.readahead.recordRead_config ..
    · intro key entry h
      dsimp only at h
      rw [s.readahead.recordRead_prefetchBuffer] at h
      exact h
    · intro job hjob
      rcases List.mem_append.mp hjob with hold | hnew
      · exact .inl hold
      · right
        obtain ⟨request, hrequest, hself⟩ := Option.map_eq_some_iff.mp (Option.mem_toList.mp hnew)
        rw [← hself]
        exact ReadaheadManager.recordRead_size hrequest

theorem doRead_addsNoEntry (s : ObsFsCore) (now : Now) (inode fh offset size : ℕ) :
    s.AddsNoEntry (s.doRead now inode fh offset size).2 := by
  have hasked : s.AddsNoEntry (s.askedCache now inode fh offset size) := by
    constructor
    · exact s.readahead.getPrefetched_config ..
    · intro key entry h
      exact s.readahead.getPrefetched_lookup now.instant inode offset h
    · intro job hjob
      exact .inl hjob
  cases hpath : s.inodeMgr.getPath inode with
  | none =>
    unfold doRead
    rw [hpath]
    exact .of_same rfl rfl
  | some path =>
    rw [s.doRead_eq hpath]
    split
    · exact ⟨hasked.config, hasked.entries, hasked.jobs⟩
    · split
      · exact hasked
      · have hremote := (s.askedCache now inode fh offset size).readRemote_addsNoEntry now inode
          (s.obsPath path) offset size
        constructor
        · exact hremote.config.trans hasked.config
        · intro key entry h
          exact hasked.entries key entry (hremote.entries key entry h)
        · intro job hjob
          rcases hremote.jobs job hjob with hold | hnew
          · exact hasked.jobs job hold
          · right
            rw [hnew, hasked.config]

theorem step_addsNoEntry (s : ObsFsCore) {op : FsOp}
    (hop : ∀ now n permit, op ≠ .prefetch now n permit) : s.AddsNoEntry (s.step op) := by
  cases htouches : op.touchesReads with
  | false =>
    have hsame := step_sameReads htouches s
    exact .of_same hsame.readahead hsame.spawned
  | true =>
    cases op with
    | read now inode fh offset size => exact s.doRead_addsNoEntry now inode fh offset size
    | write now inode fh offset data =>
      simp only [step, doWrite]
      split
      · exact .of_same rfl rfl
      · split
        · exact .of_same rfl rfl
        · exact .of_same rfl rfl
        · exact .of_same rfl rfl
    | unlink parent name =>
      simp only [step, doUnlink]
      split
      · exact .of_same rfl rfl
      · split
        · exact .of_same rfl rfl
        · split
          · exact .of_invalidate rfl rfl
          · exact .of_same rfl rfl
    | truncate now inode size =>
      simp only [step, doTruncate]
      split
      · exact .of_same rfl rfl
      · split
        · exact .of_invalidate rfl rfl
        · exact .of_same rfl rfl
        · exact .of_same rfl rfl
    | prefetch now n permit => exact absurd rfl (hop now n permit)
    | _ => cases htouches

/-- The key of the entry that a prefetch stores, and the content of the object it fetches. -/
def prefetchStores (s : ObsFsCore) (n : ℕ) (permit : Bool) : Option (PrefetchKey × Bytes) :=
  match s.spawned[n]? with
  | none => none
  | some job =>
    if permit ∧ s.obsClient.fault = none then
      match AList.lookup job.path s.obsClient.objects with
      | none => none
      | some content =>
        match s.obsClient.backend.refusesRead content job.request.offset job.request.size with
        | some _ => none
        | none => some (⟨job.request.inode, job.request.offset⟩, content)
    else none

/-- A prefetch stores nothing, or the bytes of the window that its job asks for. -/
theorem prefetchTask_cases (s : ObsFsCore) (now : Now) (n : ℕ) (permit : Bool) :
    (s.prefetchStores n permit = none ∧ (s.prefetchTask now n permit).readahead = s.readahead) ∨
      ∃ job ∈ s.spawned, ∃ key content, s.prefetchStores n permit = some (key, content) ∧
        (s.prefetchTask now n permit).readahead =
          s.readahead.storePrefetched now.instant key.inode key.offset
            ((content.drop key.offset).take job.request.size) := by
  unfold prefetchTask prefetchStores
  cases hjob : s.spawned[n]? with
  | none => exact .inl ⟨rfl, rfl⟩
  | some job =>
    dsimp only
    cases permit with
    | false => exact .inl ⟨rfl, rfl⟩
    | true =>
      unfold ObsClient.readRange
      cases s.obsClient.fault with
      | some e => exact .inl ⟨rfl, rfl⟩
      | none =>
        cases AList.lookup job.path s.obsClient.objects with
        | none => exact .inl ⟨rfl, rfl⟩
        | some content =>
          dsimp only
          cases s.obsClient.backend.refusesRead content job.request.offset job.request.size with
          | some e => exact .inl ⟨rfl, rfl⟩
          | none => exact .inr ⟨job, List.mem_of_getElem? hjob, _, content, rfl, rfl⟩

theorem prefetchTask_spawned {s : ObsFsCore} {now : Now} {n : ℕ} {permit : Bool}
    {job : PrefetchJob} (h : job ∈ (s.prefetchTask now n permit).spawned) : job ∈ s.spawned := by
  unfold prefetchTask at h
  split at h
  · exact h
  · have herase : job ∈ s.spawned.eraseIdx n := by
      split at h
      · exact h
      · dsimp only at h
        split at h
        · exact h
        · exact h
    exact List.mem_of_mem_eraseIdx herase

/-- The read answers with the bytes that it asks for, clipped to the object, which are those that
the storage would answer with where it reads the range. -/
def ReadsDirect (s : ObsFsCore) (now : Now) (inode fh offset size : ℕ) (key : Str)
    (content : Bytes) : Prop :=
  (s.doRead now inode fh offset size).1 = .ok ((content.drop offset).take size) ∧
    ∀ cl : ObsClient, cl.objects = s.obsClient.objects → cl.fault = none →
      cl.backend.refusesRead content offset size = none →
        (cl.readRange key offset size).1 = .ok ((content.drop offset).take size)

end ObsFsCore

/-- The core, with the content of the object from which each prefetched entry was fetched. -/
structure TracedPrefetches where
  core : ObsFsCore
  source : PrefetchKey → Option Bytes

namespace TracedPrefetches

def step (s : TracedPrefetches) (op : FsOp) : TracedPrefetches where
  core := s.core.step op
  source :=
    match op with
    | .prefetch _ n permit =>
      match s.core.prefetchStores n permit with
      | some (key, content) => fun k => if k = key then some content else s.source k
      | none => s.source
    | _ => s.source

/-- Each entry holds the window at its offset of the content from which it was fetched, and each
prefetch that waits is for the window. -/
structure HoldsWindows (window : ℕ) (s : TracedPrefetches) : Prop where
  config : s.core.readahead.config.windowSize = window
  entries : ∀ key entry, AList.lookup key s.core.readahead.prefetchBuffer = some entry →
    ∃ content, s.source key = some content ∧ entry.data = (content.drop key.offset).take window
  jobs : ∀ job ∈ s.core.spawned, job.request.size = window

theorem step_source (s : TracedPrefetches) {op : FsOp}
    (hop : ∀ now n permit, op ≠ .prefetch now n permit) : (s.step op).source = s.source := by
  unfold step
  cases op with
  | prefetch now n permit => exact absurd rfl (hop now n permit)
  | _ => rfl

theorem HoldsWindows.prefetch {window : ℕ} {s : TracedPrefetches} (h : s.HoldsWindows window)
    (now : Now) (n : ℕ) (permit : Bool) :
    (s.step (.prefetch now n permit)).HoldsWindows window := by
  have hjobs : ∀ job ∈ (s.core.prefetchTask now n permit).spawned, job.request.size = window :=
    fun job hjob => h.jobs job (ObsFsCore.prefetchTask_spawned hjob)
  rcases s.core.prefetchTask_cases now n permit with
    ⟨hstores, hahead⟩ | ⟨job, hjob, key, content, hstores, hahead⟩
  · have hsource : (s.step (.prefetch now n permit)).source = s.source := by
      simp only [step, hstores]
    refine ⟨(congrArg (·.config.windowSize) hahead).trans h.config, ?_, hjobs⟩
    intro k entry hk
    rw [hsource]
    exact h.entries k entry ((congrArg (AList.lookup k ·.prefetchBuffer) hahead).symm.trans hk)
  · have hsource : (s.step (.prefetch now n permit)).source =
        fun k => if k = key then some content else s.source k := by
      simp only [step, hstores]
    refine ⟨(congrArg (·.config.windowSize) hahead).trans h.config, ?_, hjobs⟩
    intro k entry hk
    have hlook := (congrArg (AList.lookup k ·.prefetchBuffer) hahead).symm.trans hk
    simp only [ReadaheadManager.storePrefetched] at hlook
    rw [Table.lookup_insert_if] at hlook
    rw [hsource]
    by_cases hkey : k = key
    · rw [if_pos hkey] at hlook
      cases hlook
      refine ⟨content, if_pos hkey, ?_⟩
      rw [hkey, h.jobs job hjob]
    · rw [if_neg hkey] at hlook
      dsimp only
      rw [if_neg hkey]
      exact h.entries k entry hlook

theorem HoldsWindows.step {window : ℕ} {s : TracedPrefetches} (h : s.HoldsWindows window)
    (op : FsOp) : (s.step op).HoldsWindows window := by
  by_cases hop : ∀ now n permit, op ≠ .prefetch now n permit
  · have hadds := s.core.step_addsNoEntry hop
    constructor
    · exact (congrArg (·.windowSize) hadds.config).trans h.config
    · intro key entry hkey
      rw [s.step_source hop]
      exact h.entries key entry (hadds.entries key entry hkey)
    · intro job hjob
      rcases hadds.jobs job hjob with hold | hnew
      · exact h.jobs job hold
      · exact hnew.trans h.config
  · push Not at hop
    obtain ⟨now, n, permit, hprefetch⟩ := hop
    rw [hprefetch]
    exact h.prefetch now n permit

/-- The run from a mount, where nothing is prefetched. -/
def mounted (config : Config) (valid : config.validate = .ok ()) (env : Surroundings)
    (ops : List FsOp) : TracedPrefetches :=
  run step ⟨.new config valid env, fun _ => none⟩ ops

theorem mounted_holdsWindows (config : Config) (valid : config.validate = .ok ())
    (env : Surroundings) (ops : List FsOp) :
    (mounted config valid env ops).HoldsWindows config.performance.readAheadWindow := by
  have hstep : ∀ (s : TracedPrefetches) op, s.HoldsWindows config.performance.readAheadWindow →
      (s.step op).HoldsWindows config.performance.readAheadWindow := fun _ op h => h.step op
  refine run_kept hstep ⟨rfl, ?_, ?_⟩ ops
  · intro key entry hkey
    cases hkey
  · intro job hjob
    cases hjob

end TracedPrefetches

/-- The part of a window that a read takes is what it asks for exactly when it asks for no more
than the window, or the window reaches the end. -/
theorem window_take_eq_iff (content : Bytes) (offset window size : ℕ) :
    ((content.drop offset).take window).take
        (min size ((content.drop offset).take window).length) = (content.drop offset).take size ↔
      size ≤ window ∨ content.length ≤ offset + window := by
  rw [← List.take_eq_take_min, List.take_take, List.take_eq_take_iff, List.length_drop]
  omega

/-- In every state of a run from a mount, a read that is answered from an entry fetched from the
object as it is now answers as the storage does exactly when it asks for no more than the
window, or the window reaches the end of the object. -/
theorem prefetched_read_direct_iff (config : Config) (valid : config.validate = .ok ())
    (env : Surroundings) (ops : List FsOp) {now : Now} {inode offset : ℕ} {path : Str}
    {content data : Bytes} (fh size : ℕ)
    (hserved : ((TracedPrefetches.mounted config valid env ops).core.readahead.getPrefetched
      now.instant inode offset).1 = some data)
    (hpath : (TracedPrefetches.mounted config valid env ops).core.inodeMgr.getPath inode =
      some path)
    (hsource : (TracedPrefetches.mounted config valid env ops).source ⟨inode, offset⟩ =
      some content)
    (hobject : AList.lookup ((TracedPrefetches.mounted config valid env ops).core.obsPath path)
      (TracedPrefetches.mounted config valid env ops).core.obsClient.objects = some content) :
    (TracedPrefetches.mounted config valid env ops).core.ReadsDirect now inode fh offset size
        ((TracedPrefetches.mounted config valid env ops).core.obsPath path) content ↔
      size ≤ config.performance.readAheadWindow ∨
        content.length ≤ offset + config.performance.readAheadWindow := by
  have hwindows := TracedPrefetches.mounted_holdsWindows config valid env ops
  generalize TracedPrefetches.mounted config valid env ops = s at *
  obtain ⟨entry, hentry, -, hdata⟩ := (s.core.readahead.getPrefetched_fst ..).mp hserved
  obtain ⟨content', hsource', hwindow⟩ := hwindows.entries _ entry hentry
  cases hsource.symm.trans hsource'
  have hread := s.core.doRead_eq hpath now fh offset size
  rw [hserved] at hread
  unfold ObsFsCore.ReadsDirect
  rw [hread, Outcome.ok.injEq, ← hdata, hwindow, ← window_take_eq_iff]
  refine and_iff_left ?_
  intro cl hobjects hfault hanswers
  unfold ObsClient.readRange
  rw [hfault, hobjects, hobject]
  dsimp only
  rw [hanswers]

/-- A mount of a bucket with a file of eight bytes, which is read from the start, one byte at a
time, until the third read spawns a prefetch of the window at offset 3. -/
def TracedPrefetches.afterThreeReads (window : ℕ) : TracedPrefetches :=
  mounted (.withWindow window) rfl
    (.still { ObsClient.fresh with objects := AList.insert ['f'] [1, 2, 3, 4, 5, 6, 7, 8] ∅ })
    [.lookup ⟨0, 0⟩ 1 ['f'.toUInt8], .read ⟨1, 1⟩ 2 1 0 1, .read ⟨2, 2⟩ 2 1 1 1,
      .read ⟨3, 3⟩ 2 1 2 1, .prefetch ⟨4, 4⟩ 0 true]

/-- A read of a whole window. -/
theorem whole_window_read_direct :
    (TracedPrefetches.afterThreeReads 2).core.ReadsDirect ⟨5, 5⟩ 2 1 3 2
      ((TracedPrefetches.afterThreeReads 2).core.obsPath ['f']) [1, 2, 3, 4, 5, 6, 7, 8] := by
  have hserved : ((TracedPrefetches.afterThreeReads 2).core.readahead.getPrefetched
      (⟨5, 5⟩ : Now).instant 2 3).1 = some [4, 5] := by decide
  have hpath : (TracedPrefetches.afterThreeReads 2).core.inodeMgr.getPath 2 = some ['f'] := by
    decide
  have hsource : (TracedPrefetches.afterThreeReads 2).source ⟨2, 3⟩ =
      some [1, 2, 3, 4, 5, 6, 7, 8] := by decide
  have hobject : AList.lookup ((TracedPrefetches.afterThreeReads 2).core.obsPath ['f'])
      (TracedPrefetches.afterThreeReads 2).core.obsClient.objects =
        some [1, 2, 3, 4, 5, 6, 7, 8] := by decide
  exact (prefetched_read_direct_iff (.withWindow 2) rfl _ _ 1 2 hserved hpath hsource
    hobject).mpr (.inl (Nat.le_refl 2))

/-- The window is smaller than the read: the answer is short in the middle of the file. -/
theorem window_cuts_read_short :
    let s := (TracedPrefetches.afterThreeReads 2).core
    (s.readahead.getPrefetched 5 2 3).1 = some [4, 5] ∧
      (s.doRead ⟨5, 5⟩ 2 1 3 4).1 = .ok [4, 5] ∧
      (s.obsClient.readRange ['f'] 3 4).1 = .ok [4, 5, 6, 7] ∧
      ¬s.ReadsDirect ⟨5, 5⟩ 2 1 3 4 ['f'] [1, 2, 3, 4, 5, 6, 7, 8] := by
  intro s
  have hread : (s.doRead ⟨5, 5⟩ 2 1 3 4).1 = .ok [4, 5] := by decide
  refine ⟨by decide, hread, by rfl, ?_⟩
  intro h
  have hdirect := hread.symm.trans h.1
  revert hdirect
  decide

end ObsFuse
