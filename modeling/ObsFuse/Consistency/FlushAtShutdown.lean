import ObsFuse.Cache.FileBuffer

/-! # The flush of all buffers

`flush_all` and `flush_expired` go through the buffers in the order of the map and flush those
that are due. The first PUT that fails ends the loop. -/

namespace ObsFuse
open Lib

/-- The error of the `i`-th request from now on. -/
def ObsClient.failure (cl : ObsClient) (i : ℕ) : Option ErrorKind := cl.faults (cl.log.length + i)

def FileWriteBuffer.put (buf : FileWriteBuffer) : Request := .write buf.path buf.data

@[simp] theorem ObsClient.stored_failure (cl : ObsClient) (path : Str) (data : Bytes) (i : ℕ) :
    (cl.stored path data).failure i = cl.failure (i + 1) := by
  have hlength : (cl.log ++ [Request.write path data]).length + i = cl.log.length + (i + 1) := by
    simp
    omega
  unfold failure
  rw [stored_faults, stored_log, hlength]

theorem ObsClient.failure_zero (cl : ObsClient) : cl.failure 0 = cl.fault := rfl

/-! ### The buffers that are due -/

/-- The buffer holds something that is not in the bucket: bytes, or an upload in progress. -/
def FileWriteBuffer.holds (buf : FileWriteBuffer) : Bool :=
  !buf.data.isEmpty || buf.multipart.isSome

namespace WriteBuffer

/-- The buffers that `p` picks and that hold something, in the order in which they are visited. -/
def due (wb : WriteBuffer) (p : FileWriteBuffer → Bool) (inodes : List ℕ) :
    List FileWriteBuffer :=
  (inodes.filterMap fun inode => AList.lookup inode wb.buffers).filter fun buf =>
    p buf && buf.holds

theorem due_insert {wb : WriteBuffer} {inode : ℕ} {inodes : List ℕ} (hout : inode ∉ inodes)
    (p : FileWriteBuffer → Bool) (buf : FileWriteBuffer) :
    due { wb with buffers := wb.buffers.insert inode buf } p inodes = wb.due p inodes := by
  unfold due
  congr 1
  apply List.filterMap_congr
  intro other hother
  have hne : other ≠ inode := fun heq => hout (heq ▸ hother)
  rw [Table.lookup_insert_if, if_neg hne]

end WriteBuffer

namespace WriteBufferConfig
variable (cfg : WriteBufferConfig)

/-- The flushes of the buffers one after another, up to the first that does not succeed. -/
def flushInTurn (cl : ObsClient) : List FileWriteBuffer → WriteResult Unit × ObsClient
  | [] => (.ok (), cl)
  | buf :: bufs =>
    match cfg.flushBuffer buf cl with
    | (.loops, _, cl) => (.loops, cl)
    | (.err e, _, cl) => (.err e, cl)
    | (.ok _, _, cl) => flushInTurn cl bufs

end WriteBufferConfig

/-- The loop over the map makes the requests of its due buffers in turn: a flush changes the
entry of its own file only. -/
theorem WriteBuffer.flushEach_inTurn {p : FileWriteBuffer → Bool} (wb : WriteBuffer)
    (cl : ObsClient) {inodes : List ℕ} (hnodup : inodes.Nodup) :
    (wb.flushEach cl p inodes).1 = (wb.config.flushInTurn cl (wb.due p inodes)).1 ∧
      (wb.flushEach cl p inodes).2.2 = (wb.config.flushInTurn cl (wb.due p inodes)).2 := by
  induction inodes generalizing wb cl with
  | nil => exact ⟨rfl, rfl⟩
  | cons inode inodes ih =>
    obtain ⟨hout, htail⟩ := List.nodup_cons.mp hnodup
    unfold flushEach due
    rw [List.filterMap_cons]
    cases hlook : AList.lookup inode wb.buffers with
    | none => exact ih wb cl htail
    | some buf =>
      rw [List.filter_cons]
      dsimp only
      by_cases hp : p buf = true
      · rw [if_pos hp, hp, Bool.true_and]
        by_cases hholds : buf.holds = true
        · rw [if_pos hholds]
          unfold WriteBufferConfig.flushInTurn
          generalize wb.config.flushBuffer buf cl = r
          obtain ⟨r, buf', cl'⟩ := r
          cases r with
          | loops => exact ⟨rfl, rfl⟩
          | err e => exact ⟨rfl, rfl⟩
          | ok _ =>
            have hrest := ih { wb with buffers := wb.buffers.insert inode buf' } cl' htail
            rw [due_insert hout] at hrest
            exact hrest
        · -- a flush of such a buffer does nothing
          have hdata : buf.data = [] := by
            unfold FileWriteBuffer.holds at hholds
            rw [Bool.or_eq_true, not_or, Bool.not_eq_true', Bool.not_eq_false] at hholds
            exact List.isEmpty_iff.mp hholds.1
          rw [if_neg hholds, wb.config.flushBuffer_idle (.inr hdata)]
          have hrest := ih { wb with buffers := wb.buffers.insert inode buf } cl htail
          rw [due_insert hout] at hrest
          exact hrest
      · rw [if_neg hp, Bool.eq_false_iff.mpr hp, Bool.false_and, if_neg Bool.false_ne_true]
        exact ih wb cl htail

/-! ### The requests of the loop -/

namespace WriteBufferConfig
variable (cfg : WriteBufferConfig)

/-- An upload in progress makes no request, so each of them is one request less. -/
theorem flushInTurn_log_le (cl : ObsClient) (bufs : List FileWriteBuffer) :
    (cfg.flushInTurn cl bufs).2.log.length ≤
      cl.log.length + (bufs.filter (·.multipart.isNone)).length := by
  induction bufs generalizing cl with
  | nil => exact Nat.le_refl _
  | cons buf bufs ih =>
    have hfilter := List.length_filter_le (fun b : FileWriteBuffer => b.multipart.isNone) bufs
    unfold flushInTurn
    rw [List.filter_cons]
    rcases cfg.flushBuffer_cases buf cl with
      ⟨-, heq⟩ | ⟨-, ⟨hm, ⟨-, heq⟩ | ⟨e, -, heq⟩⟩ | ⟨mp, hm, ⟨-, heq⟩ | ⟨-, heq⟩⟩⟩
    · have hrest := ih cl
      rw [heq]
      dsimp only
      split
      · rw [List.length_cons]
        omega
      · exact hrest
    · have hrest := ih (cl.stored buf.path buf.data)
      rw [heq, hm]
      simp only [ObsClient.stored_log, List.length_append, List.length_singleton] at hrest
      simp only [Option.isNone_none, if_true, List.length_cons]
      omega
    · rw [heq, hm]
      simp
    · rw [heq, hm]
      simp
    · have hrest := ih cl
      rw [heq, hm]
      simpa using hrest

/-- A buffer whose flush is one PUT. -/
structure OnePut (buf : FileWriteBuffer) : Prop where
  dirty : buf.dirty = true
  data : buf.data ≠ []
  multipart : buf.multipart = none

variable {cfg} {bufs : List FileWriteBuffer} (hputs : ∀ buf ∈ bufs, OnePut buf)

include hputs

/-- The loop gets through all its PUTs exactly when none before the last fails. -/
theorem flushInTurn_log_iff (cl : ObsClient) :
    (cfg.flushInTurn cl bufs).2.log = cl.log ++ bufs.map (·.put) ↔
      ∀ i, i + 1 < bufs.length → cl.failure i = none := by
  induction bufs generalizing cl with
  | nil => exact iff_of_true (List.append_nil _).symm fun i hi => absurd hi (Nat.not_lt_zero _)
  | cons buf bufs ih =>
    obtain ⟨hd, hne, hm⟩ := hputs buf (List.mem_cons_self ..)
    have htail : ∀ b ∈ bufs, OnePut b := fun b hb => hputs b (List.mem_cons_of_mem _ hb)
    unfold flushInTurn
    cases hf : cl.fault with
    | none =>
      have hrest := ih htail (cl.stored buf.path buf.data)
      rw [cfg.flushBuffer_stores hd hne hm hf, List.map_cons]
      rw [ObsClient.stored_log, List.append_assoc, List.singleton_append] at hrest
      refine hrest.trans ⟨?_, ?_⟩
      · intro h i hi
        cases i with
        | zero => exact hf
        | succ i =>
          rw [← cl.stored_failure buf.path buf.data]
          exact h i (Nat.lt_of_succ_lt_succ hi)
      · intro h i hi
        rw [ObsClient.stored_failure]
        exact h (i + 1) (Nat.succ_lt_succ hi)
    | some e =>
      rw [cfg.flushBuffer_fails hd hne hm hf]
      constructor
      · intro h i hi
        have hlength := congrArg List.length h
        simp only [ObsClient.sent_log, List.length_append, List.length_map, List.length_cons,
          List.length_nil] at hlength hi
        omega
      · intro h
        cases bufs with
        | nil => rfl
        | cons b bufs =>
          have hzero := h 0 (by simp)
          rw [ObsClient.failure_zero, hf] at hzero
          cases hzero

theorem flushInTurn_err_iff (cl : ObsClient) :
    (∃ e, (cfg.flushInTurn cl bufs).1 = .err e) ↔
      ∃ i < bufs.length, cl.failure i ≠ none := by
  induction bufs generalizing cl with
  | nil => exact iff_of_false (fun ⟨e, he⟩ => by cases he) fun ⟨i, hi, _⟩ => Nat.not_lt_zero i hi
  | cons buf bufs ih =>
    obtain ⟨hd, hne, hm⟩ := hputs buf (List.mem_cons_self ..)
    have htail : ∀ b ∈ bufs, OnePut b := fun b hb => hputs b (List.mem_cons_of_mem _ hb)
    unfold flushInTurn
    cases hf : cl.fault with
    | none =>
      rw [cfg.flushBuffer_stores hd hne hm hf]
      refine (ih htail (cl.stored buf.path buf.data)).trans ⟨?_, ?_⟩
      · intro h
        obtain ⟨i, hi, hfail⟩ := h
        rw [ObsClient.stored_failure] at hfail
        exact ⟨i + 1, Nat.succ_lt_succ hi, hfail⟩
      · intro h
        obtain ⟨i, hi, hfail⟩ := h
        cases i with
        | zero => exact absurd hf hfail
        | succ i =>
          refine ⟨i, Nat.lt_of_succ_lt_succ hi, ?_⟩
          rw [ObsClient.stored_failure]
          exact hfail
    | some e =>
      rw [cfg.flushBuffer_fails hd hne hm hf]
      refine iff_of_true ⟨e, rfl⟩ ⟨0, Nat.succ_pos _, ?_⟩
      rw [ObsClient.failure_zero, hf]
      exact Option.some_ne_none e

/-- What the loop leaves under a key is what was there, or the bytes of a buffer of that key
whose PUT does not fail. -/
theorem flushInTurn_lookup (cl : ObsClient) (k : Str) :
    AList.lookup k (cfg.flushInTurn cl bufs).2.objects = AList.lookup k cl.objects ∨
      ∃ i, ∃ hi : i < bufs.length, bufs[i].path = k ∧ cl.failure i = none ∧
        AList.lookup k (cfg.flushInTurn cl bufs).2.objects = some bufs[i].data := by
  induction bufs generalizing cl with
  | nil => exact .inl rfl
  | cons buf bufs ih =>
    obtain ⟨hd, hne, hm⟩ := hputs buf (List.mem_cons_self ..)
    have htail : ∀ b ∈ bufs, OnePut b := fun b hb => hputs b (List.mem_cons_of_mem _ hb)
    unfold flushInTurn
    cases hf : cl.fault with
    | none =>
      rw [cfg.flushBuffer_stores hd hne hm hf]
      dsimp only
      rcases ih htail (cl.stored buf.path buf.data) with hkept | ⟨i, hi, hpath, hfail, hlook⟩
      · rw [ObsClient.stored_lookup] at hkept
        split at hkept
        · next hk => exact .inr ⟨0, Nat.succ_pos _, hk.symm, hf, hkept⟩
        · exact .inl hkept
      · rw [ObsClient.stored_failure] at hfail
        exact .inr ⟨i + 1, Nat.succ_lt_succ hi, hpath, hfail, hlook⟩
    | some e =>
      rw [cfg.flushBuffer_fails hd hne hm hf]
      exact .inl rfl

/-- If the loop gets through, and later PUTs of a key that do not fail carry the bytes of the
earlier ones, then the bytes of each buffer whose PUT does not fail are stored. -/
theorem flushInTurn_stored (cl : ObsClient)
    (hlast : ∀ i, i + 1 < bufs.length → cl.failure i = none)
    (hagree : ∀ i j (hi : i < bufs.length) (hj : j < bufs.length), i < j →
      bufs[i].path = bufs[j].path → cl.failure j = none → bufs[i].data = bufs[j].data)
    (i : ℕ) (hi : i < bufs.length) (hok : cl.failure i = none) :
    AList.lookup bufs[i].path (cfg.flushInTurn cl bufs).2.objects = some bufs[i].data := by
  induction bufs generalizing cl i with
  | nil => exact absurd hi (Nat.not_lt_zero _)
  | cons buf bufs ih =>
    obtain ⟨hd, hne, hm⟩ := hputs buf (List.mem_cons_self ..)
    have htail : ∀ b ∈ bufs, OnePut b := fun b hb => hputs b (List.mem_cons_of_mem _ hb)
    have hf : cl.fault = none := by
      cases i with
      | zero => exact hok
      | succ i => exact hlast 0 (by simp at hi ⊢; omega)
    unfold flushInTurn
    rw [cfg.flushBuffer_stores hd hne hm hf]
    dsimp only
    cases i with
    | zero =>
      rcases flushInTurn_lookup htail (cl.stored buf.path buf.data) buf.path with
        hkept | ⟨j, hj, hpath, hfail, hlook⟩
      · refine hkept.trans ?_
        rw [ObsClient.stored_lookup, if_pos rfl]
        rfl
      · rw [ObsClient.stored_failure] at hfail
        have hsame := hagree 0 (j + 1) hi (Nat.succ_lt_succ hj) (Nat.succ_pos j) hpath.symm hfail
        exact hlook.trans (congrArg some hsame.symm)
    | succ i =>
      refine ih htail (cl.stored buf.path buf.data) ?_ ?_ i (Nat.lt_of_succ_lt_succ hi) ?_
      · intro j hj
        rw [ObsClient.stored_failure]
        exact hlast (j + 1) (Nat.succ_lt_succ hj)
      · intro j k hj hk hlt hpath hfail
        rw [ObsClient.stored_failure] at hfail
        exact hagree (j + 1) (k + 1) (Nat.succ_lt_succ hj) (Nat.succ_lt_succ hk)
          (Nat.succ_lt_succ hlt) hpath hfail
      · rw [ObsClient.stored_failure]
        exact hok

end WriteBufferConfig

/-! ### The flush of all buffers -/

/-- A flush of the buffers `bufs`, in this order, has sent a PUT for each, has stored the bytes
of each whose PUT does not fail, and returns an error exactly when one fails. -/
structure PersistsEach (cl : ObsClient) (bufs : List FileWriteBuffer)
    (r : WriteResult Unit × WriteBuffer × ObsClient) : Prop where
  attempts : r.2.2.log = cl.log ++ bufs.map (·.put)
  stored : ∀ i (hi : i < bufs.length), cl.failure i = none →
    AList.lookup bufs[i].path r.2.2.objects = some bufs[i].data
  reports : (∃ e, r.1 = .err e) ↔ ∃ i < bufs.length, cl.failure i ≠ none

/-- No buffer has an upload in progress, no PUT fails with another one still to come, and a PUT
that does not fail carries the bytes of the earlier buffers of its key. -/
structure NothingBlocks (cl : ObsClient) (bufs : List FileWriteBuffer) : Prop where
  single : ∀ buf ∈ bufs, buf.multipart = none
  last : ∀ i, i + 1 < bufs.length → cl.failure i = none
  agree : ∀ i j (hi : i < bufs.length) (hj : j < bufs.length), i < j →
    bufs[i].path = bufs[j].path → cl.failure j = none → bufs[i].data = bufs[j].data

theorem WriteBuffer.flushEach_persists_iff {p : FileWriteBuffer → Bool}
    (hdirty : ∀ buf, p buf = true → buf.dirty = true) (wb : WriteBuffer) (cl : ObsClient)
    {inodes : List ℕ} (hnodup : inodes.Nodup) :
    PersistsEach cl (wb.due p inodes) (wb.flushEach cl p inodes) ↔
      NothingBlocks cl (wb.due p inodes) := by
  obtain ⟨hresult, hclient⟩ := wb.flushEach_inTurn (p := p) cl hnodup
  have hputs : (∀ buf ∈ wb.due p inodes, buf.multipart = none) →
      ∀ buf ∈ wb.due p inodes, WriteBufferConfig.OnePut buf := by
    intro hsingle buf hbuf
    have hm := hsingle buf hbuf
    obtain ⟨hp, hholds⟩ := Bool.and_eq_true_iff.mp (List.mem_filter.mp hbuf).2
    refine ⟨hdirty buf hp, ?_, hm⟩
    intro hnil
    unfold FileWriteBuffer.holds at hholds
    rw [hnil, hm] at hholds
    cases hholds
  constructor
  · intro h
    have hsingle : ∀ buf ∈ wb.due p inodes, buf.multipart = none := by
      have hle := wb.config.flushInTurn_log_le cl (wb.due p inodes)
      rw [← hclient, h.attempts, List.length_append, List.length_map] at hle
      have hall := List.length_filter_eq_length_iff.mp
        (Nat.le_antisymm (List.length_filter_le ..) (Nat.le_of_add_le_add_left hle))
      intro buf hbuf
      exact Option.isNone_iff_eq_none.mp (hall buf hbuf)
    have hlog := h.attempts
    rw [hclient] at hlog
    have hlast := (WriteBufferConfig.flushInTurn_log_iff (hputs hsingle) cl).mp hlog
    refine ⟨hsingle, hlast, ?_⟩
    intro i j hi hj hlt hpath hok
    have hfirst := h.stored i hi (hlast i (by omega))
    have hsecond := h.stored j hj hok
    rw [hpath] at hfirst
    exact Option.some.inj (hfirst.symm.trans hsecond)
  · intro h
    have hone := hputs h.single
    constructor
    · rw [hclient]
      exact (WriteBufferConfig.flushInTurn_log_iff hone cl).mpr h.last
    · rw [hclient]
      exact WriteBufferConfig.flushInTurn_stored hone cl h.last h.agree
    · rw [hresult]
      exact WriteBufferConfig.flushInTurn_err_iff hone cl

/-- Both flushes of the map, in whatever order it is visited, persist each buffer that is due
exactly when nothing blocks them. -/
theorem flushes_persist_each_iff (wb : WriteBuffer) (cl : ObsClient) (now : Instant)
    (order : IterOrder ℕ) :
    let all := wb.due (·.dirty) (order.visit wb.buffers.keys)
    let expired := wb.due (·.needsTimeFlush now wb.config.flushInterval)
      (order.visit wb.buffers.keys)
    (PersistsEach cl all (wb.flushAll cl order) ↔ NothingBlocks cl all) ∧
      (PersistsEach cl expired (wb.flushExpired cl now order) ↔ NothingBlocks cl expired) := by
  have hnodup : (order.visit wb.buffers.keys).Nodup :=
    (order.perm wb.buffers.keys).nodup_iff.mpr wb.buffers.nodupKeys
  constructor
  · exact wb.flushEach_persists_iff (fun _ hp => hp) cl hnodup
  · refine wb.flushEach_persists_iff ?_ cl hnodup
    intro buf hp
    exact (Bool.and_eq_true_iff.mp hp).1

/-- Two files are written and the filesystem is destroyed. The first PUT fails, and the bytes of
the other file are not sent. -/
theorem first_failure_blocks_others :
    let cl : ObsClient := { ObsClient.fresh with
      faults := fun n => if n = 0 then some .rateLimited else none }
    let wb := WriteBuffer.new .default
    let (_, wb, cl) := wb.write cl 0 2 ['a'] 0 [1] 0
    let (_, wb, cl) := wb.write cl 0 3 ['b'] 0 [2] 0
    let (answer, after, cl') := wb.flushAll cl .storage
    cl.log = [] ∧ answer = .err .rateLimited ∧ cl'.log = [.write ['b'] [2]] ∧
      cl'.objects.keys = [] ∧
      after.buffers.entries.map (fun e => (e.2.path, e.2.data)) = [(['b'], []), (['a'], [1])] ∧
      ¬PersistsEach cl (wb.due (·.dirty) wb.buffers.keys) (wb.flushAll cl .storage) := by
  refine ⟨by decide, by decide, by decide, by decide, by decide, ?_⟩
  intro h
  have hlog := h.attempts
  revert hlog
  decide

end ObsFuse
