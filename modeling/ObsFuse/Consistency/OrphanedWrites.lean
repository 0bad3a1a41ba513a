import ObsFuse.Cache.FileBuffer
import ObsFuse.Lib.Runs
import Mathlib.Algebra.BigOperators.Group.Finset.Piecewise
import Mathlib.Data.Multiset.AddSub
import Mathlib.Tactic.Abel

/-! # Writes and releases of one file at the same time

A call first takes the file's buffer from the map and later runs its section under the
buffer's mutex; a release takes the buffer out of the map. Between the two steps of a call
other calls run, so a buffer can leave the map while a call still has it. The steps keep an
account of the bytes that writes have acknowledged. -/

namespace ObsFuse
open Lib

/-- A call between its two steps, with the buffer it has taken. -/
inductive Call where
  | writing (buffer : ℕ) (path : Str) (offset : ℕ) (data : Bytes)
  | releasing (buffer : ℕ)
  deriving DecidableEq, Repr

def Call.buffer : Call → ℕ
  | .writing b _ _ _ => b
  | .releasing b => b

/-- The file's entry in the map, the buffers made for it so far (by number), the calls under
way, the client, and the bytes of all writes that have returned `Ok`. -/
structure SharedFile where
  entry : Option ℕ
  created : ℕ
  heap : ℕ → FileWriteBuffer
  calls : Table ℕ Call
  client : ObsClient
  acked : Multiset Byte

/-- The atomic steps of the calls. -/
inductive CallStep where
  | getOrCreate (call : ℕ) (now : Instant) (path : Str) (offset : ℕ) (data : Bytes)
      (fileSize : ℕ)
  | writeLocked (call : ℕ) (now : Instant)
  | remove (call : ℕ)
  | flushLocked (call : ℕ)

namespace SharedFile

def start (inode : ℕ) (cl : ObsClient) : SharedFile where
  entry := none
  created := 0
  heap _ := .new 0 inode [] 0
  calls := ∅
  client := { cl with log := [] }
  acked := 0

def finish (s : SharedFile) (call b : ℕ) (buf : FileWriteBuffer) (cl : ObsClient) : SharedFile :=
  { s with
    heap := Function.update s.heap b buf
    calls := s.calls.erase call
    client := cl }

/-- One step. A call that has no such step to take, and a section that never ends, changes
nothing; a release that finds no entry is over at once. -/
def step (cfg : WriteBufferConfig) (inode : ℕ) (s : SharedFile) : CallStep → SharedFile
  | .getOrCreate call now path offset data fileSize =>
    match AList.lookup call s.calls with
    | some _ => s
    | none =>
      match s.entry with
      | some b => { s with calls := s.calls.insert call (.writing b path offset data) }
      | none => { s with
          entry := some s.created
          created := s.created + 1
          heap := Function.update s.heap s.created (.new now inode path fileSize)
          calls := s.calls.insert call (.writing s.created path offset data) }
  | .writeLocked call now =>
    match AList.lookup call s.calls with
    | some (.writing b path offset data) =>
      match cfg.writeLocked (s.heap b) s.client now path offset data with
      | (.ok _, buf, cl) =>
        { s.finish call b buf cl with acked := s.acked + (data : Multiset Byte) }
      | (.err _, buf, cl) => s.finish call b buf cl
      | (.loops, _, _) => s
    | _ => s
  | .remove call =>
    match AList.lookup call s.calls, s.entry with
    | none, some b => { s with entry := none, calls := s.calls.insert call (.releasing b) }
    | _, _ => s
  | .flushLocked call =>
    match AList.lookup call s.calls with
    | some (.releasing b) =>
      match cfg.flushBuffer (s.heap b) s.client with
      | (.loops, _, _) => s
      | (_, buf, cl) => s.finish call b buf cl
    | _ => s

def held (s : SharedFile) : Multiset Byte :=
  match s.entry with
  | some b => (s.heap b).data
  | none => 0

/-- The buffer is in the map, or a call other than `call` has it. -/
def HeldBeside (s : SharedFile) (call b : ℕ) : Prop :=
  s.entry = some b ∨ ∃ e ∈ s.calls.entries, e.1 ≠ call ∧ e.2.buffer = b

end SharedFile

def Request.put : Request → Multiset Byte
  | .write _ data => data
  | _ => 0

def putBytes (log : List Request) : Multiset Byte := (log.map Request.put).sum

@[simp] theorem putBytes_append (log log' : List Request) :
    putBytes (log ++ log') = putBytes log + putBytes log' := by
  simp [putBytes]

@[simp] theorem putBytes_write (path : Str) (data : Bytes) :
    putBytes [.write path data] = (data : Multiset Byte) := by
  simp [putBytes, Request.put]

namespace WriteBufferConfig
variable (cfg : WriteBufferConfig) {buf : FileWriteBuffer} {cl : ObsClient}

/-- A write of `data` at `offset` hands no byte to a multipart upload. -/
def NoUpload (buf : FileWriteBuffer) (offset : ℕ) (data : Bytes) : Prop :=
  if buf.goesDirect offset then buf.multipart = none ∨ buf.data = []
  else (buf.multipart = none ∧ buf.data.length + data.length < cfg.multipartThreshold) ∨
    buf.data.length + data.length < cfg.partSize

def LeavesBytes (buf : FileWriteBuffer) (offset : ℕ) (data : Bytes) : Prop :=
  buf.goesDirect offset = false ∧ buf.data ++ data ≠ [] ∧
    ¬(buf.multipart = none ∧ buf.data.length + data.length < cfg.multipartThreshold ∧
      cfg.bufferSize ≤ buf.data.length + data.length)

instance (buf : FileWriteBuffer) (offset : ℕ) (data : Bytes) :
    Decidable (cfg.NoUpload buf offset data) :=
  inferInstanceAs (Decidable (if buf.goesDirect offset then _ = none ∨ _ = [] else _ ∨ _ < _))

instance (buf : FileWriteBuffer) (offset : ℕ) (data : Bytes) :
    Decidable (cfg.LeavesBytes buf offset data) :=
  inferInstanceAs (Decidable (_ ∧ _))

theorem flushBuffer_puts (hd : buf.data ≠ [] → buf.dirty = true)
    (hu : buf.multipart = none ∨ buf.data = []) (hr : cl.Reliable) :
    ∃ buf' cl', cfg.flushBuffer buf cl = (.ok (), buf', cl') ∧ buf'.data = [] ∧ cl'.Reliable ∧
      putBytes cl'.log = putBytes cl.log + (buf.data : Multiset Byte) := by
  by_cases hne : buf.data = []
  · refine ⟨buf, cl, flushBuffer_idle cfg (.inr hne), hne, hr, ?_⟩
    simp [hne]
  · have hm : buf.multipart = none := hu.resolve_right hne
    refine ⟨_, _, flushBuffer_stores cfg (hd hne) hne hm hr.fault, rfl, hr.stored _ _, ?_⟩
    simp

theorem writeLocked_shortUpload (now : Instant) (path : Str) (offset : ℕ) (data : Bytes)
    (h : buf.goesDirect offset = false) (hp : buf.data.length + data.length < cfg.partSize)
    (hm : ¬(buf.multipart = none ∧ buf.data.length + data.length < cfg.multipartThreshold)) :
    ∃ mp, cfg.writeLocked buf cl now path offset data =
      (.ok data.length, { buf.appended now offset data with multipart := some mp }, cl) := by
  obtain ⟨mp, hstart⟩ := cfg.startMultipart_uploads now path offset data hm
  have hshort : (buf.appended now offset data).data.length < cfg.partSize := by
    rw [FileWriteBuffer.appended_data, List.length_append]
    exact hp
  have hparts : cfg.flushParts { buf.appended now offset data with multipart := some mp } =
      some { buf.appended now offset data with multipart := some mp } :=
    flushParts_short cfg hshort
  refine ⟨mp, ?_⟩
  rw [writeLocked_buffered cfg now path offset data h, hstart, hparts]
  simp

theorem writeLocked_puts (hd : buf.data ≠ [] → buf.dirty = true) (now : Instant) (path : Str)
    (offset : ℕ) (data : Bytes) (hu : cfg.NoUpload buf offset data) (hr : cl.Reliable) :
    ∃ buf' cl', cfg.writeLocked buf cl now path offset data = (.ok data.length, buf', cl') ∧
      cl'.Reliable ∧ (buf'.data ≠ [] → buf'.dirty = true ∧ cfg.LeavesBytes buf offset data) ∧
      putBytes cl'.log + (buf'.data : Multiset Byte) =
        putBytes cl.log + (buf.data : Multiset Byte) + (data : Multiset Byte) := by
  unfold NoUpload at hu
  cases hdir : buf.goesDirect offset with
  | true =>
    rw [if_pos hdir] at hu
    obtain ⟨buf', cl', hflush, hdata, hrel, hput⟩ :=
      @flushBuffer_puts cfg (buf.placed offset data.length) cl hd hu hr
    rw [writeLocked_direct cfg now path offset data hdir, hflush]
    dsimp only
    rw [ObsClient.write_stored hrel.fault]
    refine ⟨_, _, rfl, hrel.stored _ _, fun hne => absurd hdata hne, ?_⟩
    simp [hdata, hput]
  | false =>
    rw [if_neg (by rw [hdir]; exact Bool.false_ne_true)] at hu
    have hbytes : ((buf.appended now offset data).data : Multiset Byte) =
        (buf.data : Multiset Byte) + (data : Multiset Byte) := by
      simp
    by_cases hm : buf.multipart = none ∧ buf.data.length + data.length < cfg.multipartThreshold
    · by_cases hb : cfg.bufferSize ≤ buf.data.length + data.length
      · obtain ⟨buf', cl', hflush, hdata, hrel, hput⟩ :=
          @flushBuffer_puts cfg (buf.appended now offset data) cl (fun _ => rfl) (.inl hm.1) hr
        rw [writeLocked_autoflush cfg now path offset data hdir hm.1 hm.2 hb, hflush]
        refine ⟨_, _, rfl, hrel, fun hne => absurd hdata hne, ?_⟩
        rw [hput, hdata, hbytes]
        simp [add_assoc]
      · rw [writeLocked_append cfg now path offset data hdir hm.1 hm.2 (by omega)]
        refine ⟨_, _, rfl, hr, ?_, ?_⟩
        · intro hne
          exact ⟨rfl, hdir, hne, fun hc => hb hc.2.2⟩
        · rw [hbytes, add_assoc]
    · obtain ⟨mp, hw⟩ := @writeLocked_shortUpload cfg buf cl now path offset data hdir
        (hu.resolve_left hm) hm
      rw [hw]
      refine ⟨_, _, rfl, hr, ?_, ?_⟩
      · intro hne
        exact ⟨rfl, hdir, hne, fun hc => hm ⟨hc.1, hc.2.1⟩⟩
      · show _ + ((buf.appended now offset data).data : Multiset Byte) = _
        rw [hbytes, add_assoc]

end WriteBufferConfig

namespace SharedFile

/-- The locked section of a write hands no byte to an upload, and leaves bytes in its buffer
only where the map or another call leads to it. -/
def WriteSafe (cfg : WriteBufferConfig) (s : SharedFile) (call : ℕ) : Call → Prop
  | .writing b _ offset data =>
    cfg.NoUpload (s.heap b) offset data ∧
      (cfg.LeavesBytes (s.heap b) offset data → s.HeldBeside call b)
  | .releasing _ => True

def FlushSafe (s : SharedFile) : Call → Prop
  | .releasing b => (s.heap b).multipart = none ∨ (s.heap b).data = []
  | .writing .. => True

def StepSafe (cfg : WriteBufferConfig) (s : SharedFile) : CallStep → Prop
  | .writeLocked call _ => ∀ c ∈ AList.lookup call s.calls, s.WriteSafe cfg call c
  | .flushLocked call => ∀ c ∈ AList.lookup call s.calls, s.FlushSafe c
  | .getOrCreate .. | .remove _ => True

instance (s : SharedFile) (call b : ℕ) : Decidable (s.HeldBeside call b) :=
  inferInstanceAs (Decidable (_ ∨ _))

instance decidableWriteSafe (cfg : WriteBufferConfig) (s : SharedFile) (call : ℕ) :
    (c : Call) → Decidable (s.WriteSafe cfg call c)
  | .writing .. => inferInstanceAs (Decidable (_ ∧ (_ → _)))
  | .releasing _ => isTrue trivial

instance decidableFlushSafe (s : SharedFile) : (c : Call) → Decidable (s.FlushSafe c)
  | .releasing _ => inferInstanceAs (Decidable (_ ∨ _))
  | .writing .. => isTrue trivial

instance decidableStepSafe (cfg : WriteBufferConfig) (s : SharedFile) :
    (step : CallStep) → Decidable (s.StepSafe cfg step)
  | .writeLocked .. | .flushLocked _ => inferInstanceAs (Decidable (∀ c ∈ _, _))
  | .getOrCreate .. | .remove _ => isTrue trivial

def buffered (s : SharedFile) : Multiset Byte :=
  ∑ b ∈ Finset.range s.created, ((s.heap b).data : Multiset Byte)

/-- The account balances, and no bytes are in a buffer that nothing leads to. -/
structure Kept (s : SharedFile) : Prop where
  reliable : s.client.Reliable
  dirty : ∀ b, (s.heap b).data ≠ [] → (s.heap b).dirty = true
  entry_lt : ∀ b, s.entry = some b → b < s.created
  call_lt : ∀ c call, AList.lookup c s.calls = some call → call.buffer < s.created
  reachable : ∀ b, (s.heap b).data ≠ [] →
    s.entry = some b ∨ ∃ c call, AList.lookup c s.calls = some call ∧ call.buffer = b
  balance : s.acked = putBytes s.client.log + s.buffered

theorem buffered_update {heap : ℕ → FileWriteBuffer} {n b : ℕ} (hb : b < n)
    (buf : FileWriteBuffer) :
    ∑ i ∈ Finset.range n, ((Function.update heap b buf i).data : Multiset Byte) +
        ((heap b).data : Multiset Byte) =
      ∑ i ∈ Finset.range n, ((heap i).data : Multiset Byte) + (buf.data : Multiset Byte) := by
  have hmem : b ∈ Finset.range n := Finset.mem_range.mpr hb
  rw [← Finset.add_sum_erase _ _ hmem, ← Finset.add_sum_erase _ (fun i => _) hmem,
    Function.update_self]
  have hrest : ∑ i ∈ (Finset.range n).erase b,
      ((Function.update heap b buf i).data : Multiset Byte) =
        ∑ i ∈ (Finset.range n).erase b, ((heap i).data : Multiset Byte) := by
    apply Finset.sum_congr rfl
    intro i hi
    rw [Function.update_of_ne (Finset.ne_of_mem_erase hi)]
  rw [hrest]
  abel

namespace Kept
variable {s : SharedFile}

theorem start (inode : ℕ) {cl : ObsClient} (hr : cl.Reliable) : (start inode cl).Kept where
  reliable := hr
  dirty _ hne := absurd rfl hne
  entry_lt _ h := by cases h
  call_lt _ _ h := by cases h
  reachable _ hne := absurd rfl hne
  balance := rfl

theorem take (h : s.Kept) {call : ℕ} {c : Call} (hfree : AList.lookup call s.calls = none)
    (hlt : c.buffer < s.created) {entry : Option ℕ}
    (hentry : entry = s.entry ∨ entry = none ∧ s.entry = some c.buffer) :
    Kept { s with entry := entry, calls := s.calls.insert call c } where
  reliable := h.reliable
  dirty := h.dirty
  entry_lt b hb := by
    rcases hentry with heq | ⟨hnone, -⟩
    · exact h.entry_lt b (heq ▸ hb)
    · rw [hnone] at hb
      cases hb
  call_lt k d hd := by
    rw [Table.lookup_insert_if] at hd
    split at hd
    · cases hd
      exact hlt
    · exact h.call_lt k d hd
  reachable b hne := by
    have hold : s.entry = some b ∨ ∃ k d, AList.lookup k s.calls = some d ∧ d.buffer = b :=
      h.reachable b hne
    rcases hold with hin | ⟨k, d, hd, hb⟩
    · rcases hentry with heq | ⟨-, hsome⟩
      · exact .inl (heq.trans hin)
      · refine .inr ⟨call, c, AList.lookup_insert _, ?_⟩
        rw [hsome] at hin
        exact Option.some.inj hin
    · refine .inr ⟨k, d, ?_, hb⟩
      rw [Table.lookup_insert_if, if_neg, hd]
      intro heq
      rw [heq, hfree] at hd
      cases hd
  balance := h.balance

theorem create (h : s.Kept) {call : ℕ} {c : Call} (hfree : AList.lookup call s.calls = none)
    (hc : c.buffer = s.created) (hnone : s.entry = none) {buf : FileWriteBuffer}
    (hempty : buf.data = []) :
    Kept { s with
      entry := some s.created
      created := s.created + 1
      heap := Function.update s.heap s.created buf
      calls := s.calls.insert call c } := by
  refine ⟨h.reliable, ?_, ?_, ?_, ?_, ?_⟩
  · intro b hne
    dsimp only at hne ⊢
    by_cases hb : b = s.created
    · rw [hb, Function.update_self] at hne
      exact absurd hempty hne
    · rw [Function.update_of_ne hb] at hne ⊢
      exact h.dirty b hne
  · intro b hb
    cases hb
    exact Nat.lt_succ_self _
  · intro k d hd
    rw [Table.lookup_insert_if] at hd
    split at hd
    · cases hd
      rw [hc]
      exact Nat.lt_succ_self _
    · exact Nat.lt_succ_of_lt (h.call_lt k d hd)
  · intro b hne
    dsimp only at hne ⊢
    by_cases hb : b = s.created
    · exact .inl (by rw [hb])
    · rw [Function.update_of_ne hb] at hne
      rcases h.reachable b hne with hin | ⟨k, d, hd, hdb⟩
      · rw [hnone] at hin
        cases hin
      · refine .inr ⟨k, d, ?_, hdb⟩
        rw [Table.lookup_insert_if, if_neg, hd]
        intro heq
        rw [heq, hfree] at hd
        cases hd
  · rw [h.balance]
    simp only [buffered]
    rw [Finset.sum_range_succ, Function.update_self, hempty]
    congr 1
    rw [Multiset.coe_nil, add_zero]
    apply Finset.sum_congr rfl
    intro b hb
    rw [Function.update_of_ne (Nat.ne_of_lt (Finset.mem_range.mp hb))]

theorem finish (h : s.Kept) {call : ℕ} {c : Call} (hc : AList.lookup call s.calls = some c)
    {buf : FileWriteBuffer} {cl : ObsClient} (hr : cl.Reliable)
    (hleft : buf.data ≠ [] → buf.dirty = true ∧ s.HeldBeside call c.buffer)
    {own acked : Multiset Byte}
    (hbytes : putBytes cl.log + (buf.data : Multiset Byte) =
      putBytes s.client.log + ((s.heap c.buffer).data : Multiset Byte) + own)
    (hacked : acked = s.acked + own) :
    Kept { s.finish call c.buffer buf cl with acked := acked } := by
  have hlt := h.call_lt call c hc
  refine ⟨hr, ?_, h.entry_lt, ?_, ?_, ?_⟩
  · intro b hne
    dsimp only [SharedFile.finish] at hne ⊢
    by_cases hb : b = c.buffer
    · rw [hb, Function.update_self] at hne ⊢
      exact (hleft hne).1
    · rw [Function.update_of_ne hb] at hne ⊢
      exact h.dirty b hne
  · intro k d hd
    exact h.call_lt k d (Table.lookup_of_erase hd)
  · intro b hne
    dsimp only [SharedFile.finish] at hne ⊢
    by_cases hb : b = c.buffer
    · rw [hb, Function.update_self] at hne
      rcases (hleft hne).2 with hin | ⟨e, he, hother, heb⟩
      · exact .inl (by rw [hb, hin])
      · refine .inr ⟨e.1, e.2, ?_, by rw [heb, hb]⟩
        rw [Table.lookup_erase_if, if_neg hother]
        exact Table.lookup_of_mem_entries _ he
    · rw [Function.update_of_ne hb] at hne
      rcases h.reachable b hne with hin | ⟨k, d, hd, hdb⟩
      · exact .inl hin
      · refine .inr ⟨k, d, ?_, hdb⟩
        rw [Table.lookup_erase_if, if_neg, hd]
        intro heq
        rw [heq, hc] at hd
        cases hd
        exact hb hdb.symm
  · have hbalance : s.acked = putBytes s.client.log +
        ∑ i ∈ Finset.range s.created, ((s.heap i).data : Multiset Byte) := h.balance
    have hsum := @buffered_update s.heap s.created c.buffer hlt buf
    show acked = putBytes cl.log + ∑ i ∈ Finset.range s.created,
      ((Function.update s.heap c.buffer buf i).data : Multiset Byte)
    generalize ∑ i ∈ Finset.range s.created,
      ((Function.update s.heap c.buffer buf i).data : Multiset Byte) = after at hsum ⊢
    generalize ∑ i ∈ Finset.range s.created, ((s.heap i).data : Multiset Byte) = before
      at hbalance hsum
    -- what was in this buffer and what is left in it cancel out
    apply add_right_cancel (b := ((s.heap c.buffer).data : Multiset Byte) + buf.data)
    calc acked + ((s.heap c.buffer).data + buf.data)
        = (putBytes s.client.log + (s.heap c.buffer).data + own) + (before + buf.data) := by
          rw [hacked, hbalance]
          abel
      _ = (putBytes cl.log + buf.data) + (after + (s.heap c.buffer).data) := by
          rw [hbytes, hsum]
      _ = putBytes cl.log + after + ((s.heap c.buffer).data + buf.data) := by abel

theorem step (h : s.Kept) {cfg : WriteBufferConfig} (inode : ℕ) {step : CallStep}
    (hsafe : s.StepSafe cfg step) : (s.step cfg inode step).Kept := by
  cases step with
  | getOrCreate call now path offset data fileSize =>
    simp only [SharedFile.step]
    cases hfree : AList.lookup call s.calls with
    | some c => exact h
    | none =>
      cases hentry : s.entry with
      | some b =>
        exact h.take (c := .writing b path offset data) hfree (h.entry_lt b hentry)
          (.inl hentry.symm)
      | none => exact h.create hfree rfl hentry rfl
  | remove call =>
    simp only [SharedFile.step]
    cases hfree : AList.lookup call s.calls with
    | some c => exact h
    | none =>
      cases hentry : s.entry with
      | some b =>
        exact h.take (c := .releasing b) hfree (h.entry_lt b hentry) (.inr ⟨rfl, hentry⟩)
      | none => exact h
  | writeLocked call now =>
    simp only [SharedFile.step]
    cases hc : AList.lookup call s.calls with
    | none => exact h
    | some c =>
      have hcall : s.WriteSafe cfg call c := hsafe c hc
      cases c with
      | releasing b => exact h
      | writing b path offset data =>
        dsimp only
        obtain ⟨buf, cl, hw, hrel, hleft, hbytes⟩ := cfg.writeLocked_puts (h.dirty b) now path
          offset data hcall.1 h.reliable
        rw [hw]
        refine h.finish hc hrel ?_ hbytes rfl
        intro hne
        exact ⟨(hleft hne).1, hcall.2 (hleft hne).2⟩
  | flushLocked call =>
    simp only [SharedFile.step]
    cases hc : AList.lookup call s.calls with
    | none => exact h
    | some c =>
      have hcall : s.FlushSafe c := hsafe c hc
      cases c with
      | writing b path offset data => exact h
      | releasing b =>
        dsimp only
        obtain ⟨buf, cl, hf, hdata, hrel, hput⟩ := cfg.flushBuffer_puts (h.dirty b) hcall
          h.reliable
        rw [hf]
        have hbytes : putBytes cl.log + (buf.data : Multiset Byte) =
            putBytes s.client.log + ((s.heap b).data : Multiset Byte) + 0 := by
          rw [hdata, hput]
          rfl
        exact h.finish hc hrel (fun hne => absurd hdata hne) hbytes (add_zero _).symm

end Kept

theorem Kept.buffered_eq_held {s : SharedFile} (h : s.Kept) (hquiet : s.calls = ∅) :
    s.buffered = s.held := by
  have hempty : ∀ b, s.entry ≠ some b → (s.heap b).data = [] := by
    intro b hb
    by_contra hne
    rcases h.reachable b hne with hin | ⟨c, call, hc, -⟩
    · exact hb hin
    · rw [hquiet] at hc
      cases hc
  unfold buffered held
  cases hentry : s.entry with
  | some b =>
    apply Finset.sum_eq_single b
    · intro i _ hi
      rw [hempty i (by rw [hentry]; exact fun heq => hi (Option.some.inj heq).symm)]
      rfl
    · intro hnot
      exact absurd (Finset.mem_range.mpr (h.entry_lt b hentry)) hnot
  | none =>
    apply Finset.sum_eq_zero
    intro i _
    rw [hempty i (by rw [hentry]; exact (Option.some_ne_none i).symm)]
    rfl

/-! ### Calls that are not interrupted -/

/-- The file's entry in the write buffer is the one the steps work on. -/
def Represents (s : SharedFile) (inode : ℕ) (wb : WriteBuffer) : Prop :=
  AList.lookup inode wb.buffers = s.entry.map s.heap

theorem Represents.write {s : SharedFile} {inode : ℕ} {wb : WriteBuffer}
    (h : s.Represents inode wb) {call : ℕ} (hfree : AList.lookup call s.calls = none)
    (now : Instant) (path : Str) (offset : ℕ) (data : Bytes) (fileSize : ℕ)
    (hreturns : (wb.write s.client now inode path offset data fileSize).1 ≠ .loops) :
    let s' := run (step wb.config inode) s
      [.getOrCreate call now path offset data fileSize, .writeLocked call now]
    s'.Represents inode (wb.write s.client now inode path offset data fileSize).2.1 ∧
      s'.client = (wb.write s.client now inode path offset data fileSize).2.2 := by
  unfold Represents at h
  rw [WriteBuffer.write_eq] at hreturns ⊢
  -- the state in which the call has taken the file's buffer
  obtain ⟨b, hentry, hheap, hcall, hclient⟩ : ∃ b,
      (step wb.config inode s (.getOrCreate call now path offset data fileSize)).entry = some b ∧
      (step wb.config inode s (.getOrCreate call now path offset data fileSize)).heap b =
        wb.bufferFor now inode path fileSize ∧
      AList.lookup call
        (step wb.config inode s (.getOrCreate call now path offset data fileSize)).calls =
          some (.writing b path offset data) ∧
      (step wb.config inode s (.getOrCreate call now path offset data fileSize)).client =
        s.client := by
    simp only [step]
    rw [hfree]
    cases hentry : s.entry with
    | some b =>
      rw [hentry, Option.map_some] at h
      exact ⟨b, rfl, (WriteBuffer.bufferFor_some h ..).symm, AList.lookup_insert _, rfl⟩
    | none =>
      rw [hentry, Option.map_none] at h
      refine ⟨s.created, rfl, ?_, AList.lookup_insert _, rfl⟩
      rw [WriteBuffer.bufferFor_none h]
      exact Function.update_self ..
  rw [run_cons, run_cons, run_nil]
  generalize step wb.config inode s (.getOrCreate call now path offset data fileSize) = t
    at hentry hheap hcall hclient ⊢
  unfold step Represents
  dsimp only at hreturns ⊢
  rw [hcall]
  dsimp only
  rw [hheap, hclient]
  generalize wb.config.writeLocked (wb.bufferFor now inode path fileSize) s.client now path offset
    data = r at hreturns ⊢
  obtain ⟨_ | _ | _, buf, cl⟩ := r
  · simp [finish, hentry]
  · simp [finish, hentry]
  · exact absurd rfl hreturns

theorem Represents.release {s : SharedFile} {inode : ℕ} {wb : WriteBuffer}
    (h : s.Represents inode wb) {call : ℕ} (hfree : AList.lookup call s.calls = none)
    (hreturns : (wb.release s.client inode).1 ≠ .loops) :
    let s' := run (step wb.config inode) s [.remove call, .flushLocked call]
    s'.Represents inode (wb.release s.client inode).2.1 ∧
      s'.client = (wb.release s.client inode).2.2 := by
  unfold Represents at h ⊢
  rw [run_cons, run_cons, run_nil]
  cases hentry : s.entry with
  | none =>
    rw [hentry, Option.map_none] at h
    have hremove : step wb.config inode s (.remove call) = s := by
      simp only [step]
      rw [hfree, hentry]
    have hflush : step wb.config inode s (.flushLocked call) = s := by
      simp only [step]
      rw [hfree]
    rw [hremove, hflush, WriteBuffer.release_none h]
    dsimp only
    rw [hentry]
    exact ⟨h, rfl⟩
  | some b =>
    rw [hentry, Option.map_some] at h
    have hremove : step wb.config inode s (.remove call) =
        { s with entry := none, calls := s.calls.insert call (.releasing b) } := by
      simp only [step]
      rw [hfree, hentry]
    rw [WriteBuffer.release_some h] at hreturns ⊢
    rw [hremove]
    unfold step
    dsimp only at hreturns ⊢
    rw [AList.lookup_insert]
    dsimp only
    generalize wb.config.flushBuffer (s.heap b) s.client = r at hreturns ⊢
    obtain ⟨_ | _ | _, buf, cl⟩ := r
    · simp [finish]
    · simp [finish]
    · exact absurd rfl hreturns

end SharedFile

/-- In every interleaving of safe steps, once all calls have returned, the bytes of the
writes that returned `Ok` have been put or are held by the buffer in the map. -/
theorem no_write_orphaned {cfg : WriteBufferConfig} {inode : ℕ} {cl : ObsClient}
    (hr : cl.Reliable) {steps : List CallStep}
    (hsafe : Along (SharedFile.step cfg inode) (SharedFile.StepSafe cfg) (.start inode cl) steps)
    (hquiet : (run (SharedFile.step cfg inode) (.start inode cl) steps).calls = ∅) :
    (run (SharedFile.step cfg inode) (.start inode cl) steps).acked =
      putBytes (run (SharedFile.step cfg inode) (.start inode cl) steps).client.log +
        (run (SharedFile.step cfg inode) (.start inode cl) steps).held := by
  have hstep : ∀ s step, SharedFile.Kept s → SharedFile.StepSafe cfg s step →
      (SharedFile.step cfg inode s step).Kept := fun _ _ h hok => h.step inode hok
  have hkept := run_invariant hstep (SharedFile.Kept.start inode hr) hsafe
  rw [hkept.balance, hkept.buffered_eq_held hquiet]

/-- Two writes share a buffer, a release takes it, the second write is still in time. -/
theorem late_write_before_flush_kept :
    (run (SharedFile.step .default 2) (.start 2 .fresh)
      [.getOrCreate 1 1 ['f'] 0 [7] 0, .getOrCreate 2 2 ['f'] 1 [8] 0, .writeLocked 1 3, .remove 3,
        .writeLocked 2 4, .flushLocked 3]).acked =
      putBytes (run (SharedFile.step .default 2) (.start 2 .fresh)
        [.getOrCreate 1 1 ['f'] 0 [7] 0, .getOrCreate 2 2 ['f'] 1 [8] 0, .writeLocked 1 3,
          .remove 3, .writeLocked 2 4, .flushLocked 3]).client.log +
        (run (SharedFile.step .default 2) (.start 2 .fresh)
          [.getOrCreate 1 1 ['f'] 0 [7] 0, .getOrCreate 2 2 ['f'] 1 [8] 0, .writeLocked 1 3,
            .remove 3, .writeLocked 2 4, .flushLocked 3]).held :=
  no_write_orphaned (fun _ => rfl) (by decide) rfl

/-- A write has taken the buffer, a release removes and flushes it, and then the write puts
its byte into it: all calls have returned, and nothing leads to the byte. -/
theorem late_write_orphaned :
    let s := run (SharedFile.step .default 2) (.start 2 .fresh)
      [.getOrCreate 1 1 ['f'] 0 [7] 0, .remove 2, .flushLocked 2, .writeLocked 1 2]
    s.calls = ∅ ∧ s.acked = {7} ∧ putBytes s.client.log = 0 ∧ s.held = 0 :=
  ⟨rfl, rfl, rfl, rfl⟩

end ObsFuse
