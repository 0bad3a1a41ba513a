import ObsFuse.Cache.Readahead
import ObsFuse.Lib.Runs
import Mathlib.Data.List.Chain
import Mathlib.Order.Interval.Set.Defs

/-! # The ranges that are prefetched

The manager is watched together with the reads of one inode that it was told of and the
requests that it issued for them, each with the reads up to then. Between the reads of the inode
it may be asked anything else. -/

namespace ObsFuse
open Lib

structure FileRead where
  offset : ℕ
  size : ℕ
  deriving DecidableEq, Repr

def FileRead.stop (r : FileRead) : ℕ := r.offset + r.size

/-- The second read starts where the first one ended. -/
def FileRead.Continues (r r' : FileRead) : Prop := r'.offset = r.stop

namespace PrefetchRequest

def range (r : PrefetchRequest) : Set ℕ := Set.Ico r.offset (r.offset + r.size)

/-- The range of the first request starts earlier than that of the second, and they have no
byte in common. -/
structure Before (r r' : PrefetchRequest) : Prop where
  starts : r.offset < r'.offset
  disjoint : ∀ x ∈ r.range, x ∉ r'.range

theorem before_of_stop_lt {r r' : PrefetchRequest} (h : r.offset + r.size < r'.offset) :
    r.Before r' := by
  constructor
  · omega
  · intro x hx hx'
    have hend := (Set.mem_Ico.mp hx).2
    have hstart := (Set.mem_Ico.mp hx').1
    omega

end PrefetchRequest

inductive ReadaheadCall where
  | read (now : Instant) (inode offset size : ℕ)
  | getPrefetched (now : Instant) (inode offset : ℕ)
  | storePrefetched (now : Instant) (inode offset : ℕ) (data : Bytes)
  | invalidate (inode : ℕ)

structure WatchedReads where
  manager : ReadaheadManager
  reads : List FileRead
  issued : List (PrefetchRequest × List FileRead)

namespace WatchedReads

def start (m : ReadaheadManager) : WatchedReads := ⟨m, [], []⟩

/-- The call, watched for the reads of `file`. -/
def step (file : ℕ) (w : WatchedReads) : ReadaheadCall → WatchedReads
  | .read now inode offset size =>
    let (request, manager) := w.manager.recordRead now inode offset size
    if inode = file then
      let reads := w.reads ++ [⟨offset, size⟩]
      { manager, reads, issued := w.issued ++ request.toList.map fun r => (r, reads) }
    else { w with manager }
  | .getPrefetched now inode offset =>
    { w with manager := (w.manager.getPrefetched now inode offset).2 }
  | .storePrefetched now inode offset data =>
    { w with manager := w.manager.storePrefetched now inode offset data }
  | .invalidate inode => { w with manager := w.manager.invalidate inode }

def requests (w : WatchedReads) : List PrefetchRequest := w.issued.map Prod.fst

end WatchedReads

theorem ReadState.update_sequential (st : ReadState) (now : Instant)
    (offset size threshold : ℕ) :
    ((st.update now offset size).1 && (st.update now offset size).2.isSequential threshold) =
        true ↔
      offset = u64 (st.lastOffset + st.lastSize) ∧ threshold ≤ st.seqCount + 1 := by
  simp only [update, isSequential, Bool.and_eq_true, decide_eq_true_eq]
  apply and_congr_right
  intro hseq
  rw [if_pos hseq]

namespace ReadaheadManager
variable {m : ReadaheadManager} {inode offset size : ℕ}

/-- The state of the inode that a read finds, or starts with. -/
def stateOf (m : ReadaheadManager) (now : Instant) (inode : ℕ) : ReadState :=
  (m.fileStates.lookup inode).getD (.new now)

def withState (m : ReadaheadManager) (inode : ℕ) (st : ReadState) : ReadaheadManager :=
  { m with fileStates := m.fileStates.insert inode st }

/-- The read is the last of enough sequential ones and ends past what was prefetched. -/
def Triggers (config : ReadaheadConfig) (st : ReadState) (offset size : ℕ) : Prop :=
  offset = u64 (st.lastOffset + st.lastSize) ∧ config.seqThreshold ≤ st.seqCount + 1 ∧
    st.prefetchOffset < u64 (offset + size)

theorem recordRead_disabled (h : m.config.enable = false) (now : Instant) :
    m.recordRead now inode offset size = (none, m) := by
  unfold recordRead
  rw [h, Bool.not_false, if_pos rfl]

instance (config : ReadaheadConfig) (st : ReadState) (offset size : ℕ) :
    Decidable (Triggers config st offset size) :=
  inferInstanceAs (Decidable (_ ∧ _))

theorem recordRead_enabled (h : m.config.enable = true) (now : Instant) :
    m.recordRead now inode offset size =
      if Triggers m.config (m.stateOf now inode) offset size then
        (some ⟨inode, u64 (offset + size), m.config.windowSize⟩,
          m.withState inode { ((m.stateOf now inode).update now offset size).2 with
            prefetchOffset := u64 (u64 (offset + size) + m.config.windowSize) })
      else (none, m.withState inode ((m.stateOf now inode).update now offset size).2) := by
  have htests : m.recordRead now inode offset size =
      if (((m.stateOf now inode).update now offset size).1 &&
          ((m.stateOf now inode).update now offset size).2.isSequential m.config.seqThreshold) then
        if (m.stateOf now inode).prefetchOffset < u64 (offset + size) then
          (some ⟨inode, u64 (offset + size), m.config.windowSize⟩,
            m.withState inode { ((m.stateOf now inode).update now offset size).2 with
              prefetchOffset := u64 (u64 (offset + size) + m.config.windowSize) })
        else (none, m.withState inode ((m.stateOf now inode).update now offset size).2)
      else (none, m.withState inode ((m.stateOf now inode).update now offset size).2) := by
    unfold recordRead
    rw [h]
    rfl
  rw [htests]
  have htrigger := (m.stateOf now inode).update_sequential now offset size m.config.seqThreshold
  by_cases ht : Triggers m.config (m.stateOf now inode) offset size
  · rw [if_pos ht, if_pos (htrigger.mpr ⟨ht.1, ht.2.1⟩), if_pos ht.2.2]
  · rw [if_neg ht]
    split
    · next hboth =>
      obtain ⟨hseq, hcount⟩ := htrigger.mp hboth
      rw [if_neg fun hpast => ht ⟨hseq, hcount, hpast⟩]
    · rfl

theorem stateOf_withState (st : ReadState) (now : Instant) (i : ℕ) :
    (m.withState inode st).stateOf now i = if i = inode then st else m.stateOf now i := by
  unfold stateOf withState
  rw [Table.lookup_insert_if]
  split
  · rfl
  · rfl

theorem stateOf_recordRead_ne {file : ℕ} (hne : inode ≠ file) (now now' : Instant) :
    (m.recordRead now inode offset size).2.stateOf now' file = m.stateOf now' file := by
  cases h : m.config.enable with
  | false => rw [recordRead_disabled h]
  | true =>
    rw [recordRead_enabled h]
    split
    · rw [stateOf_withState, if_neg (Ne.symm hne)]
    · rw [stateOf_withState, if_neg (Ne.symm hne)]

end ReadaheadManager

/-- The state counts the last reads that continue each other, and holds where they ended. -/
structure ReadState.Records (st : ReadState) (reads : List FileRead) : Prop where
  fits : st.lastOffset + st.lastSize < 2 ^ 64
  chain : ∃ chain, chain <:+ reads ∧ chain.length = st.seqCount ∧
    chain.IsChain FileRead.Continues ∧
      ∀ r ∈ chain.getLast?, r.stop = st.lastOffset + st.lastSize

theorem ReadState.Records.prefetched {st : ReadState} {reads : List FileRead} (h : st.Records reads)
    (prefetchOffset : ℕ) : ({ st with prefetchOffset } : ReadState).Records reads :=
  ⟨h.fits, h.chain⟩

theorem ReadState.Records.update {st : ReadState} {reads : List FileRead} (h : st.Records reads)
    (now : Instant) {offset size : ℕ} (hfit : offset + size < 2 ^ 64) :
    (st.update now offset size).2.Records (reads ++ [⟨offset, size⟩]) := by
  refine ⟨hfit, ?_⟩
  obtain ⟨chain, hsuffix, hlen, hchain, hlast⟩ := h.chain
  simp only [ReadState.update]
  rw [u64_eq h.fits]
  by_cases hseq : offset = st.lastOffset + st.lastSize
  · refine ⟨chain ++ [⟨offset, size⟩], ?_, ?_, ?_, ?_⟩
    · obtain ⟨before, rfl⟩ := hsuffix
      exact ⟨before, (List.append_assoc ..).symm⟩
    · rw [List.length_append, hlen, hseq]
      simp
    · rw [List.isChain_append]
      refine ⟨hchain, List.isChain_singleton _, ?_⟩
      intro r hr r' hr'
      cases hr'
      exact hseq.trans (hlast r hr).symm
    · intro r hr
      rw [List.getLast?_concat] at hr
      cases hr
      rfl
  · refine ⟨[⟨offset, size⟩], List.suffix_append _ _, ?_, List.isChain_singleton _, ?_⟩
    · simp [hseq]
    · intro r hr
      cases hr
      rfl

/-- The request starts where a read ended that closes a chain of at least `threshold` reads, the
last of those that had been made. -/
def PrefetchRequest.Closes (threshold : ℕ) (request : PrefetchRequest) (reads : List FileRead) :
    Prop :=
  ∃ chain, chain <:+ reads ∧ threshold ≤ chain.length ∧ chain.IsChain FileRead.Continues ∧
    ∃ r ∈ chain.getLast?, request.offset = r.stop

theorem ReadState.Records.closes {config : ReadaheadConfig} {st : ReadState}
    {reads : List FileRead} {now : Instant} {offset size : ℕ}
    (h : (st.update now offset size).2.Records reads)
    (hseq : offset = u64 (st.lastOffset + st.lastSize))
    (hcount : config.seqThreshold ≤ st.seqCount + 1) {request : PrefetchRequest}
    (hrequest : request.offset = offset + size) : request.Closes config.seqThreshold reads := by
  obtain ⟨chain, hsuffix, hlen, hchain, hlast⟩ := h.chain
  have hupdated : (st.update now offset size).2.seqCount = st.seqCount + 1 := by
    simp only [ReadState.update, ← hseq, decide_true, if_true]
  rw [hupdated] at hlen
  refine ⟨chain, hsuffix, by omega, hchain, ?_⟩
  cases hend : chain.getLast? with
  | none =>
    rw [List.getLast?_eq_none_iff] at hend
    rw [hend] at hlen
    cases hlen
  | some r => exact ⟨r, rfl, hrequest.trans (hlast r hend).symm⟩

/-- The call leaves what is known of the file, and its read ends a window before `2 ^ 64`. -/
def ReadaheadCall.Fits (config : ReadaheadConfig) (file : ℕ) : ReadaheadCall → Prop
  | .read _ inode offset size => inode = file → offset + size + config.windowSize < 2 ^ 64
  | .invalidate inode => inode ≠ file
  | _ => True

namespace WatchedReads
variable {config : ReadaheadConfig} {file : ℕ} {w : WatchedReads}

structure Tracked (config : ReadaheadConfig) (file : ℕ) (w : WatchedReads) : Prop where
  config_eq : w.manager.config = config
  recorded : config.enable = true → ∀ now, (w.manager.stateOf now file).Records w.reads
  ends : ∀ now, ∀ r ∈ w.requests, r.offset + r.size ≤ (w.manager.stateOf now file).prefetchOffset
  ordered : w.requests.Pairwise PrefetchRequest.Before
  closes : ∀ e ∈ w.issued, e.1.Closes config.seqThreshold e.2

theorem Tracked.congr (h : w.Tracked config file) {m : ReadaheadManager}
    (hconfig : m.config = w.manager.config)
    (hstate : ∀ now, m.stateOf now file = w.manager.stateOf now file) :
    ({ w with manager := m } : WatchedReads).Tracked config file := by
  refine ⟨hconfig.trans h.config_eq, ?_, ?_, h.ordered, h.closes⟩
  · intro henable now
    rw [hstate]
    exact h.recorded henable now
  · intro now r hr
    rw [hstate]
    exact h.ends now r hr

/-! ### A read of the file -/

section Read
variable (now : Instant) {offset size : ℕ}

theorem step_disabled (hoff : w.manager.config.enable = false) :
    w.step file (.read now file offset size) =
      { w with reads := w.reads ++ [⟨offset, size⟩] } := by
  simp only [step, if_true]
  rw [ReadaheadManager.recordRead_disabled hoff, Option.toList_none, List.map_nil, List.append_nil]

theorem step_waits (hon : w.manager.config.enable = true)
    (ht : ¬ReadaheadManager.Triggers w.manager.config (w.manager.stateOf now file) offset size) :
    w.step file (.read now file offset size) =
      { w with
        manager := w.manager.withState file ((w.manager.stateOf now file).update now offset size).2
        reads := w.reads ++ [⟨offset, size⟩] } := by
  simp only [step, if_true]
  rw [ReadaheadManager.recordRead_enabled hon, if_neg ht, Option.toList_none, List.map_nil,
    List.append_nil]

theorem step_asks (hon : w.manager.config.enable = true)
    (ht : ReadaheadManager.Triggers w.manager.config (w.manager.stateOf now file) offset size) :
    w.step file (.read now file offset size) =
      { manager := w.manager.withState file
          { ((w.manager.stateOf now file).update now offset size).2 with
            prefetchOffset := u64 (u64 (offset + size) + w.manager.config.windowSize) }
        reads := w.reads ++ [⟨offset, size⟩]
        issued := w.issued ++ [(⟨file, u64 (offset + size), w.manager.config.windowSize⟩,
          w.reads ++ [⟨offset, size⟩])] } := by
  simp only [step, if_true]
  rw [ReadaheadManager.recordRead_enabled hon, if_pos ht]
  rfl

theorem Tracked.disabled (h : w.Tracked config file) (hoff : config.enable = false)
    (reads : List FileRead) : ({ w with reads := reads } : WatchedReads).Tracked config file := by
  refine ⟨h.config_eq, ?_, h.ends, h.ordered, h.closes⟩
  intro hon
  rw [hoff] at hon
  cases hon

theorem Tracked.waits (h : w.Tracked config file) {st : ReadState} {reads : List FileRead}
    (hst : st.Records reads)
    (hprefetch : st.prefetchOffset = (w.manager.stateOf now file).prefetchOffset) :
    ({ w with manager := w.manager.withState file st, reads := reads } : WatchedReads).Tracked
      config file := by
  refine ⟨h.config_eq, ?_, ?_, h.ordered, h.closes⟩
  · intro _ now'
    rw [ReadaheadManager.stateOf_withState, if_pos rfl]
    exact hst
  · intro now' r hr
    rw [ReadaheadManager.stateOf_withState, if_pos rfl, hprefetch]
    exact h.ends now r hr

theorem Tracked.asks (h : w.Tracked config file) {st : ReadState} {reads : List FileRead}
    (hst : st.Records reads) {request : PrefetchRequest}
    (hafter : ∀ r ∈ w.requests, r.offset + r.size < request.offset)
    (hprefetch : st.prefetchOffset = request.offset + request.size)
    (hcloses : request.Closes config.seqThreshold reads) :
    (⟨w.manager.withState file st, reads, w.issued ++ [(request, reads)]⟩ :
      WatchedReads).Tracked config file := by
  refine ⟨h.config_eq, ?_, ?_, ?_, ?_⟩
  · intro _ now'
    rw [ReadaheadManager.stateOf_withState, if_pos rfl]
    exact hst
  · intro now' r hr
    rw [ReadaheadManager.stateOf_withState, if_pos rfl, hprefetch]
    simp only [requests, List.map_append, List.mem_append] at hr
    rcases hr with hold | hnew
    · have hlt := hafter r hold
      omega
    · obtain rfl : r = request := by simpa using hnew
      exact Nat.le_refl _
  · simp only [requests, List.map_append, List.pairwise_append]
    refine ⟨h.ordered, List.pairwise_singleton .., ?_⟩
    intro r hr r' hr'
    obtain rfl : r' = request := by simpa using hr'
    exact PrefetchRequest.before_of_stop_lt (hafter r hr)
  · intro e he
    rcases List.mem_append.mp he with hold | hnew
    · exact h.closes e hold
    · obtain rfl : e = (request, reads) := by simpa using hnew
      exact hcloses

theorem Tracked.read (h : w.Tracked config file)
    (hfit : offset + size + config.windowSize < 2 ^ 64) :
    (w.step file (.read now file offset size)).Tracked config file := by
  have hconfig := h.config_eq
  cases henable : config.enable with
  | false =>
    rw [step_disabled now (by rw [hconfig]; exact henable)]
    exact h.disabled henable _
  | true =>
    have hon : w.manager.config.enable = true := by
      rw [hconfig]
      exact henable
    have hend : offset + size < 2 ^ 64 := by omega
    have hnext := (h.recorded henable now).update now hend
    by_cases ht : ReadaheadManager.Triggers config (w.manager.stateOf now file) offset size
    · obtain ⟨hseq, hcount, hpast⟩ := ht
      have hask := @step_asks file w now offset size hon
        (by rw [hconfig]; exact ⟨hseq, hcount, hpast⟩)
      rw [hconfig, u64_eq hend, u64_eq hfit] at hask
      rw [u64_eq hend] at hpast
      have hbefore : ∀ r ∈ w.requests, r.offset + r.size < offset + size :=
        fun r hr => Nat.lt_of_le_of_lt (h.ends now r hr) hpast
      have hcloses : PrefetchRequest.Closes config.seqThreshold
          ⟨file, offset + size, config.windowSize⟩ (w.reads ++ [⟨offset, size⟩]) :=
        hnext.closes hseq hcount rfl
      rw [hask]
      exact h.asks (hnext.prefetched _) hbefore rfl hcloses
    · rw [step_waits now hon (by rw [hconfig]; exact ht)]
      exact h.waits now hnext rfl

end Read

theorem Tracked.step (h : w.Tracked config file) (call : ReadaheadCall)
    (hfit : call.Fits config file) :
    (w.step file call).Tracked config file := by
  cases call with
  | read now inode offset size =>
    by_cases hi : inode = file
    · subst hi
      exact h.read now (hfit rfl)
    · simp only [WatchedReads.step, hi, if_false]
      exact h.congr (w.manager.recordRead_config ..)
        fun now' => ReadaheadManager.stateOf_recordRead_ne hi now now'
  | getPrefetched now inode offset =>
    refine h.congr (w.manager.getPrefetched_config now inode offset) ?_
    intro now'
    simp only [ReadaheadManager.stateOf, ReadaheadManager.getPrefetched]
    split
    · split
      · rfl
      · rfl
    · rfl
  | storePrefetched now inode offset data => exact h.congr rfl fun _ => rfl
  | invalidate inode =>
    refine @Tracked.congr _ _ _ h (w.manager.invalidate inode) rfl ?_
    intro now
    simp only [ReadaheadManager.stateOf, ReadaheadManager.invalidate]
    rw [Table.lookup_erase_if, if_neg (Ne.symm hfit)]

end WatchedReads

/-- Until its state is dropped, the ranges that are prefetched for a file follow each other
without overlap, and each starts at the end of enough reads that continue each other. -/
theorem prefetched_ranges_ordered (m : ReadaheadManager) (file : ℕ)
    (hnew : AList.lookup file m.fileStates = none) (calls : List ReadaheadCall)
    (hfit : ∀ call ∈ calls, call.Fits m.config file) :
    let w := run (WatchedReads.step file) (.start m) calls
    w.requests.Pairwise PrefetchRequest.Before ∧
      ∀ e ∈ w.issued, e.1.Closes m.config.seqThreshold e.2 := by
  intro w
  have hstart : (WatchedReads.start m).Tracked m.config file := by
    refine ⟨rfl, ?_, ?_, List.Pairwise.nil, ?_⟩
    · intro _ now
      have hstate : m.stateOf now file = .new now := by
        unfold ReadaheadManager.stateOf
        rw [hnew]
        rfl
      show (m.stateOf now file).Records []
      rw [hstate]
      exact ⟨Nat.two_pow_pos 64, [], List.suffix_refl _, rfl, List.isChain_nil,
        fun r hr => by cases hr⟩
    · intro _ r hr
      cases hr
    · intro e he
      cases he
  have htracked : w.Tracked m.config file :=
    run_invariant_of_forall (fun _ call h hc => h.step call hc) hstart hfit
  exact ⟨htracked.ordered, htracked.closes⟩

/-- Four reads of 1024 bytes from the start, with a read of another file among them. -/
theorem scan_prefetched_once :
    let calls : List ReadaheadCall :=
      [.read 0 1 0 1024, .read 1 1 1024 1024, .read 2 7 0 4096, .read 3 1 2048 1024,
        .read 4 1 3072 1024]
    let w := run (WatchedReads.step 1) (.start (.new ⟨true, 4096, 3, 30⟩)) calls
    w.requests = [⟨1, 3072, 4096⟩] ∧ w.requests.Pairwise PrefetchRequest.Before ∧
      ∀ e ∈ w.issued, e.1.Closes 3 e.2 := by
  intro calls w
  refine ⟨by decide, prefetched_ranges_ordered _ 1 rfl calls ?_⟩
  intro call hcall
  simp only [calls, List.mem_cons, List.not_mem_nil, or_false] at hcall
  rcases hcall with rfl | rfl | rfl | rfl | rfl
  · exact fun _ => by decide
  · exact fun _ => by decide
  · exact fun _ => by decide
  · exact fun _ => by decide
  · exact fun _ => by decide

end ObsFuse
