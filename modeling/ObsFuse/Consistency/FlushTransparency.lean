import ObsFuse.Consistency.Session

/-! # Flushes between the writes of a new file

Flushes of every kind come between the writes: `flush`, `sync_flush`, `flush_expired`, the
automatic flush of a full buffer and a release through another handle. A whole session is
followed by a small machine that looks at the calls alone; it says when the flushes leave
the result unchanged. -/

namespace ObsFuse
open Lib

/-- How far a run has come. -/
inductive FlushPhase where
  /-- `held` bytes have been written and none stored; the last write was at `last`. -/
  | buffering (held : ℕ) (last : Instant)
  /-- All bytes are stored; `kept` says whether the file has a buffer. -/
  | stored (kept : Bool)
  deriving DecidableEq, Repr

/-- The machine that decides transparency: `none` once a flush has cost bytes. Bytes are
stored by the first flush that finds some; from then on no byte may be written, and after
a release not even an empty write of a file whose known size is positive. -/
def FlushPhase.next (cfg : WriteBufferConfig) : FlushPhase → SessionOp → Option FlushPhase
  | .buffering held _, .write now data _ =>
    if 0 < held + data.length ∧ cfg.bufferSize ≤ held + data.length then some (.stored true)
    else some (.buffering (held + data.length) now)
  | .buffering held last, .flush =>
    if held = 0 then some (.buffering 0 last) else some (.stored true)
  | .buffering held last, .syncFlush =>
    if held = 0 then some (.buffering 0 last) else some (.stored true)
  | .buffering held last, .flushExpired now _ =>
    if 0 < held ∧ cfg.flushInterval < now - last then some (.stored true)
    else some (.buffering held last)
  | .buffering held last, .release =>
    if held = 0 then some (.buffering 0 last) else some (.stored false)
  | .stored kept, .write _ data fileSize =>
    if data = [] ∧ (kept = true ∨ fileSize = 0) then some (.stored true) else none
  | .stored _, .release => some (.stored false)
  | .stored kept, _ => some (.stored kept)

def FlushPhase.step (cfg : WriteBufferConfig) (ph : Option FlushPhase) (op : SessionOp) :
    Option FlushPhase :=
  ph.bind fun ph => ph.next cfg op

/-- No flush of the calls costs bytes. -/
def FlushesTransparent (cfg : WriteBufferConfig) (ops : List SessionOp) : Prop :=
  (run (FlushPhase.step cfg) (some (.buffering 0 0)) ops).isSome

instance (cfg : WriteBufferConfig) (ops : List SessionOp) :
    Decidable (FlushesTransparent cfg ops) :=
  inferInstanceAs (Decidable (_ = true))

/-! ### What the file's view looks like in each phase -/

/-- The view of the file in a phase, after the bytes `d` have been written. -/
def PhaseView (d : Bytes) : Option FlushPhase → FileView → Prop
  | some (.buffering held last), v =>
    held = d.length ∧ v.object = some [] ∧ (v.buffer = none → d = []) ∧
      ∀ buf ∈ v.buffer, buf.data = d ∧ buf.sequentialWrite = true ∧
        buf.nextOffset = d.length ∧ (d ≠ [] → buf.lastWrite = last)
  | some (.stored kept), v =>
    d ≠ [] ∧ v.object = some d ∧ kept = v.buffer.isSome ∧
      ∀ buf ∈ v.buffer, buf.data = [] ∧
        (buf.sequentialWrite = true ∧ buf.nextOffset = d.length ∨ buf.originalSize = 0)
  | none, v =>
    d ≠ [] ∧ (∀ buf ∈ v.buffer, buf.data.length < d.length) ∧
      ∀ c ∈ v.object, c.length < d.length

namespace PhaseView
variable {d : Bytes} {ph : Option FlushPhase} {v : FileView}

theorem held_le (h : PhaseView d ph v) : ∀ buf ∈ v.buffer, buf.data.length ≤ d.length := by
  intro buf hb
  match ph, h with
  | some (.buffering _ _), h => rw [(h.2.2.2 buf hb).1]
  | some (.stored _), h => simp [(h.2.2.2 buf hb).1]
  | none, h => exact Nat.le_of_lt (h.2.1 buf hb)

theorem flushed (h : PhaseView d ph v) (cfg : WriteBufferConfig) :
    PhaseView d (FlushPhase.step cfg ph .flush) v.flushed := by
  obtain ⟨buffer, object⟩ := v
  match ph, h with
  | some (.buffering held last), ⟨hn, ho, hnone, hb⟩ =>
    by_cases hd : d = []
    · -- no byte has been written, so there is nothing to flush
      have hz : held = 0 := by rw [hn, hd]; rfl
      have hidle : FileView.flushed ⟨buffer, object⟩ = ⟨buffer, object⟩ := by
        cases buffer with
        | none => rfl
        | some buf =>
          have hdata : buf.data = [] := (hb buf rfl).1.trans hd
          simp only [FileView.flushed, hdata, if_true]
      subst hz
      rw [hidle]
      exact ⟨hn, ho, hnone, hb⟩
    · cases buffer with
      | none => exact absurd (hnone rfl) hd
      | some buf =>
        obtain ⟨hdata, hseq, hnext, -⟩ := hb buf rfl
        have hz : held ≠ 0 := by rw [hn]; simpa using hd
        have hstep : FlushPhase.step cfg (some (.buffering held last)) .flush =
            some (.stored true) := if_neg hz
        have hstored : FileView.flushed ⟨some buf, object⟩ = ⟨some buf.flushed, some d⟩ := by
          simp only [FileView.flushed, hdata, hd, if_false]
        rw [hstep, hstored]
        refine ⟨hd, rfl, rfl, ?_⟩
        intro b hb
        cases hb
        exact ⟨rfl, .inl ⟨hseq, hnext⟩⟩
  | some (.stored kept), ⟨hd, ho, hk, hb⟩ =>
    cases buffer with
    | none => exact ⟨hd, ho, hk, hb⟩
    | some buf =>
      have hdata := (hb buf rfl).1
      simp only [FileView.flushed, hdata, if_true]
      exact ⟨hd, ho, hk, hb⟩
  | none, ⟨hd, hb, hc⟩ =>
    cases buffer with
    | none => exact ⟨hd, hb, hc⟩
    | some buf =>
      have hlt := hb buf rfl
      by_cases hdata : buf.data = []
      · simp only [FileView.flushed, hdata, if_true]
        exact ⟨hd, hb, hc⟩
      · simp only [FileView.flushed, hdata, if_false]
        refine ⟨hd, ?_, ?_⟩
        · intro b hb
          cases hb
          exact List.length_pos_iff.mpr hd
        · intro c hc
          cases hc
          exact hlt

theorem released (h : PhaseView d ph v) (cfg : WriteBufferConfig) :
    PhaseView d (FlushPhase.step cfg ph .release) v.released := by
  have hf := h.flushed cfg
  match ph, h with
  | some (.buffering held last), ⟨hn, ho, hnone, hb⟩ =>
    by_cases hd : d = []
    · have hz : held = 0 := by rw [hn, hd]; rfl
      subst hz
      exact ⟨hn, hf.2.1, fun _ => hd, nofun⟩
    · have hz : held ≠ 0 := by rw [hn]; simpa using hd
      have hflush : FlushPhase.step cfg (some (.buffering held last)) .flush =
          some (.stored true) := if_neg hz
      have hrelease : FlushPhase.step cfg (some (.buffering held last)) .release =
          some (.stored false) := if_neg hz
      rw [hflush] at hf
      rw [hrelease]
      exact ⟨hd, hf.2.1, rfl, nofun⟩
  | some (.stored kept), _ => exact ⟨hf.1, hf.2.1, rfl, nofun⟩
  | none, _ => exact ⟨hf.1, nofun, hf.2.2⟩

theorem expired (h : PhaseView d ph v) {key : Str} (hp : v.Plain key) (cfg : WriteBufferConfig)
    (now : Instant) (order : IterOrder ℕ) :
    PhaseView d (FlushPhase.step cfg ph (.flushExpired now order)) (v.expired cfg now) := by
  have hf := h.flushed cfg
  match ph, h with
  | some (.buffering held last), h =>
    by_cases hd : d = []
    · have hz : held = 0 := by rw [h.1, hd]; rfl
      subst hz
      simp only [FlushPhase.step, FlushPhase.next, Option.bind_some, if_true, lt_irrefl, false_and,
        if_false, FileView.expired] at hf ⊢
      split
      · exact hf
      · exact h
    · obtain ⟨hn, ho, hnone, hb⟩ := h
      have hpos : 0 < held := hn ▸ List.length_pos_iff.mpr hd
      obtain ⟨_ | buf, object⟩ := v
      · exact absurd (hnone rfl) hd
      · obtain ⟨hdata, hseq, hnext, hlast⟩ := hb buf rfl
        have hdirty := (hp buf rfl).dirty (hdata ▸ hd)
        have hdue : buf.needsTimeFlush now cfg.flushInterval =
            decide (cfg.flushInterval < now - last) := by
          rw [FileWriteBuffer.needsTimeFlush, hdirty, hlast hd, Bool.true_and]
        simp only [FlushPhase.step, FlushPhase.next, Option.bind_some, hpos, true_and,
          FileView.expired, Option.any_some, hdue, decide_eq_true_eq, Nat.ne_of_gt hpos,
          if_false] at hf ⊢
        split
        · exact hf
        · exact ⟨hn, ho, hnone, hb⟩
  | some (.stored kept), h =>
    unfold FileView.expired
    split
    · exact hf
    · exact h
  | none, h =>
    unfold FileView.expired
    split
    · exact hf
    · exact h

theorem write_short {d data : Bytes} (hd : d ≠ []) (cfg : WriteBufferConfig) (now : Instant)
    (inode : ℕ) (key : Str) (fileSize : ℕ) (hb : ∀ buf ∈ v.buffer, buf.data.length < d.length)
    (hc : ∀ c ∈ v.object, c.length < (d ++ data).length) :
    PhaseView (d ++ data) none (v.write cfg now inode key d.length data fileSize) := by
  have hpos := List.length_pos_iff.mpr hd
  have hbuf : (v.buffer.getD (.new now inode key fileSize)).data.length < d.length := by
    obtain ⟨_ | buf, object⟩ := v
    · exact hpos
    · exact hb buf rfl
  unfold FileView.write
  generalize v.buffer.getD (.new now inode key fileSize) = buf at hbuf
  rw [List.length_append] at hc
  have happ : PhaseView (d ++ data) none ⟨some (buf.appended now d.length data), v.object⟩ := by
    refine ⟨by simp [hd], ?_, by simpa using hc⟩
    intro b hb
    cases hb
    simp only [FileWriteBuffer.appended_data, List.length_append]
    omega
  dsimp only
  split
  · refine ⟨by simp [hd], ?_, ?_⟩
    · intro b hb
      cases hb
      rw [List.length_append]
      split
      · simp only [FileWriteBuffer.grown, FileWriteBuffer.placed_data]
        omega
      · simp only [FileWriteBuffer.grown, FileWriteBuffer.flushed_data, List.length_nil]
        omega
    · intro c hc
      cases hc
      rw [List.length_append]
      omega
  · split
    · exact happ.flushed cfg
    · exact happ

theorem write_buffering {held : ℕ} {last : Instant}
    (h : PhaseView d (some (.buffering held last)) v) (cfg : WriteBufferConfig) (now : Instant)
    (inode : ℕ) (key : Str) (data : Bytes) (fileSize : ℕ)
    (hlt : d.length + data.length < 2 ^ 64) :
    PhaseView (d ++ data)
      (FlushPhase.step cfg (some (.buffering held last)) (.write now data fileSize))
      (v.write cfg now inode key d.length data fileSize) := by
  obtain ⟨rfl, ho, hnone, hb⟩ := h
  obtain ⟨hdata, hseq, hnext⟩ : (v.buffer.getD (.new now inode key fileSize)).data = d ∧
      (v.buffer.getD (.new now inode key fileSize)).sequentialWrite = true ∧
      (v.buffer.getD (.new now inode key fileSize)).nextOffset = d.length := by
    obtain ⟨_ | buf, object⟩ := v
    · rw [hnone rfl]
      exact ⟨rfl, rfl, rfl⟩
    · exact ⟨(hb buf rfl).1, (hb buf rfl).2.1, (hb buf rfl).2.2.1⟩
  unfold FileView.write
  generalize v.buffer.getD (.new now inode key fileSize) = buf at hdata hseq hnext
  have hd : buf.goesDirect d.length = false := by
    rw [← Bool.not_eq_true, FileWriteBuffer.goesDirect_iff]
    simp [hseq, hnext]
  have happ : PhaseView (d ++ data) (some (.buffering (d.length + data.length) now))
      ⟨some (buf.appended now d.length data), v.object⟩ := by
    refine ⟨by simp, ho, nofun, ?_⟩
    intro b hb
    cases hb
    refine ⟨by simp [hdata], ?_, by simp [u64_eq hlt], fun _ => rfl⟩
    rw [FileWriteBuffer.appended_sequentialWrite, FileWriteBuffer.placed_sequentialWrite]
    exact ⟨hseq, hnext.symm⟩
  have hflush := happ.flushed cfg
  simp only [FlushPhase.step, FlushPhase.next, Option.bind_some, hd, Bool.false_eq_true, if_false,
    hdata] at hflush ⊢
  by_cases hfull : cfg.bufferSize ≤ d.length + data.length
  · rw [if_pos hfull]
    by_cases hz : d.length + data.length = 0
    · -- an empty buffer of size 0 is full, and its flush does nothing
      have hidle : FileView.flushed ⟨some (buf.appended now d.length data), v.object⟩ =
          ⟨some (buf.appended now d.length data), v.object⟩ := by
        have hnil : buf.data ++ data = [] := by
          rw [hdata]
          exact List.eq_nil_of_length_eq_zero (by rw [List.length_append]; exact hz)
        simp [FileView.flushed, hnil]
      rw [if_neg (by omega), hidle]
      exact happ
    · rw [if_neg hz] at hflush
      rw [if_pos ⟨Nat.pos_of_ne_zero hz, hfull⟩]
      exact hflush
  · rw [if_neg hfull, if_neg (by omega)]
    exact happ

/-- Nothing is written, and the buffer takes it. -/
theorem write_stored_buffered {kept : Bool} (h : PhaseView d (some (.stored kept)) v)
    (cfg : WriteBufferConfig) (now : Instant) (inode : ℕ) (key : Str) (fileSize : ℕ)
    (hlt : d.length < 2 ^ 64) (hok : kept = true ∨ fileSize = 0) :
    PhaseView d (FlushPhase.step cfg (some (.stored kept)) (.write now [] fileSize))
      (v.write cfg now inode key d.length [] fileSize) := by
  obtain ⟨hd, ho, hk, hb⟩ := h
  have hbuf : (v.buffer.getD (.new now inode key fileSize)).data = [] ∧
      ((v.buffer.getD (.new now inode key fileSize)).sequentialWrite = true ∧
          (v.buffer.getD (.new now inode key fileSize)).nextOffset = d.length ∨
        (v.buffer.getD (.new now inode key fileSize)).originalSize = 0) := by
    obtain ⟨_ | buf, object⟩ := v
    · exact ⟨rfl, .inr (by simpa [hk, FileWriteBuffer.new] using hok)⟩
    · exact hb buf rfl
  unfold FileView.write
  generalize v.buffer.getD (.new now inode key fileSize) = buf at hbuf
  obtain ⟨hnil, hflags⟩ := hbuf
  have hdir : buf.goesDirect d.length = false := by
    rw [← Bool.not_eq_true, FileWriteBuffer.goesDirect_iff]
    rcases hflags with ⟨hs, hn⟩ | hz
    · simp [hs, hn]
    · simp [hz]
  have happ : PhaseView d (some (.stored true))
      ⟨some (buf.appended now d.length []), v.object⟩ := by
    refine ⟨hd, ho, rfl, ?_⟩
    intro b hb
    cases hb
    refine ⟨by simp [hnil], ?_⟩
    rcases hflags with ⟨hs, hn⟩ | hz
    · left
      rw [FileWriteBuffer.appended_sequentialWrite, FileWriteBuffer.placed_sequentialWrite]
      exact ⟨⟨hs, hn.symm⟩, by simp [u64_eq hlt]⟩
    · exact .inr hz
  have hflush := happ.flushed cfg
  simp only [FlushPhase.step, FlushPhase.next, Option.bind_some, hok, and_self, if_true, hdir,
    Bool.false_eq_true, if_false] at hflush ⊢
  split
  · exact hflush
  · exact happ

/-- Nothing is written, past a new buffer: the object becomes empty. -/
theorem write_stored_direct {kept : Bool} (h : PhaseView d (some (.stored kept)) v)
    (cfg : WriteBufferConfig) (now : Instant) (inode : ℕ) (key : Str) (fileSize : ℕ)
    (hok : ¬(kept = true ∨ fileSize = 0)) :
    PhaseView d (FlushPhase.step cfg (some (.stored kept)) (.write now [] fileSize))
      (v.write cfg now inode key d.length [] fileSize) := by
  obtain ⟨hd, ho, hk, hb⟩ := h
  have hpos := List.length_pos_iff.mpr hd
  obtain ⟨hk', hfs⟩ := not_or.mp hok
  obtain ⟨_ | buf, object⟩ := v
  · have hdir : (FileWriteBuffer.new now inode key fileSize).goesDirect d.length = true := by
      rw [FileWriteBuffer.goesDirect_iff]
      simp only [FileWriteBuffer.new]
      omega
    simp only [FlushPhase.step, FlushPhase.next, Option.bind_some, hok, and_false, if_false,
      FileView.write, Option.getD_none, hdir, if_true]
    refine ⟨hd, ?_, ?_⟩
    · intro b hb
      cases hb
      exact hpos
    · intro c hc
      cases hc
      exact hpos
  · exact absurd (by simpa using hk) hk'

theorem write_stored {kept : Bool} (h : PhaseView d (some (.stored kept)) v)
    (cfg : WriteBufferConfig) (now : Instant) (inode : ℕ) (key : Str) (data : Bytes)
    (fileSize : ℕ) (hlt : d.length < 2 ^ 64) :
    PhaseView (d ++ data) (FlushPhase.step cfg (some (.stored kept)) (.write now data fileSize))
      (v.write cfg now inode key d.length data fileSize) := by
  by_cases hdata : data = []
  · subst hdata
    rw [List.append_nil]
    by_cases hok : kept = true ∨ fileSize = 0
    · exact h.write_stored_buffered cfg now inode key fileSize hlt hok
    · exact h.write_stored_direct cfg now inode key fileSize hok
  · obtain ⟨hd, ho, hk, hb⟩ := h
    have hdead : FlushPhase.step cfg (some (.stored kept)) (.write now data fileSize) = none := by
      simp [FlushPhase.step, FlushPhase.next, hdata]
    rw [hdead]
    apply write_short hd cfg now inode key fileSize
    · intro buf hm
      rw [(hb buf hm).1]
      exact List.length_pos_iff.mpr hd
    · rw [ho]
      intro c hc
      cases hc
      have hmore := List.length_pos_iff.mpr hdata
      rw [List.length_append]
      omega

theorem write (h : PhaseView d ph v) (cfg : WriteBufferConfig) (now : Instant) (inode : ℕ)
    (key : Str) (data : Bytes) (fileSize : ℕ) (hlt : d.length + data.length < 2 ^ 64) :
    PhaseView (d ++ data) (FlushPhase.step cfg ph (.write now data fileSize))
      (v.write cfg now inode key d.length data fileSize) := by
  match ph, h with
  | some (.buffering held last), h => exact h.write_buffering cfg now inode key data fileSize hlt
  | some (.stored kept), h => exact h.write_stored cfg now inode key data fileSize (by omega)
  | none, ⟨hd, hb, hc⟩ =>
    exact write_short hd cfg now inode key fileSize hb fun c hm => by
      have := hc c hm
      rw [List.length_append]
      omega

/-- The released file holds what was written exactly when no flush has cost bytes. -/
theorem released_object_iff (h : PhaseView d ph v) : v.released.object = some d ↔ ph.isSome := by
  have hf : PhaseView d _ v.flushed := h.flushed ⟨0, 0, 0, 0, by decide, by decide, by decide⟩
  match ph, h with
  | some (.buffering held last), h =>
    rw [FileView.released]
    by_cases hd : d = []
    · have hz : held = 0 := by rw [h.1, hd]; rfl
      simp only [FlushPhase.step, FlushPhase.next, Option.bind_some, hz, if_true] at hf
      simp [hf.2.1, hd]
    · have hz : held ≠ 0 := by rw [h.1]; simpa using hd
      simp only [FlushPhase.step, FlushPhase.next, Option.bind_some, hz, if_false] at hf
      simp [hf.2.1]
  | some (.stored kept), _ => simp [FileView.released, hf.2.1]
  | none, _ =>
    simp only [FileView.released, Option.isSome_none, Bool.false_eq_true, iff_false]
    intro hd
    exact lt_irrefl _ (hf.2.2 d hd)

end PhaseView

/-! ### Whole sessions -/

structure SessionAt (cfg : WriteBufferConfig) (inode : ℕ) (key : Str) (d : Bytes)
    (ph : Option FlushPhase) (st : Session) : Prop where
  config : st.writeBuffer.config = cfg
  calm : st.writeBuffer.Calm st.client inode key
  position : st.position = d.length
  phase : PhaseView d ph (st.writeBuffer.view st.client inode key)

namespace SessionAt
variable {cfg : WriteBufferConfig} {inode : ℕ} {key : Str} {d : Bytes} {ph : Option FlushPhase}
  {st : Session}

theorem start {wb : WriteBuffer} {cl : ObsClient} (h : NewFile wb cl inode key) :
    SessionAt wb.config inode key [] (some (.buffering 0 0)) ⟨wb, cl, 0⟩ where
  config := rfl
  calm := ⟨h.reliable, h.apart, by simp [FileView.Plain, WriteBuffer.view, h.unbuffered]⟩
  position := rfl
  phase := by simp [PhaseView, WriteBuffer.view, h.unbuffered, h.object]

theorem set (h : SessionAt cfg inode key d ph st) {v : FileView} {r : WriteBuffer × ObsClient}
    {ph' : Option FlushPhase} (heff : WriteBuffer.Effect st.writeBuffer.config inode key v r)
    (hv : PhaseView d ph' v) : SessionAt cfg inode key d ph' (st.set r) where
  config := heff.config.trans h.config
  calm := heff.calm
  position := h.position
  phase := by rw [Session.set, heff.view]; exact hv

theorem step (h : SessionAt cfg inode key d ph st) (op : SessionOp)
    (ht : d.length + op.data.length < cfg.multipartThreshold) :
    SessionAt cfg inode key (d ++ op.data) (FlushPhase.step cfg ph op) (st.step inode key op) := by
  cases op with
  | write now data fileSize =>
    have hlt := cfg.multipartThreshold_lt
    have hheld : (st.writeBuffer.bufferFor now inode key fileSize).data.length ≤ d.length := by
      cases hb : AList.lookup inode st.writeBuffer.buffers with
      | none => simp [WriteBuffer.bufferFor_none hb, FileWriteBuffer.new]
      | some buf =>
        rw [WriteBuffer.bufferFor_some hb]
        exact h.phase.held_le buf hb
    simp only [SessionOp.data] at ht
    obtain ⟨-, heff⟩ := WriteBuffer.write_effect h.calm now st.position data fileSize
      (by rw [h.config]; omega)
    exact {
      config := heff.config.trans h.config
      calm := heff.calm
      position := by simp [Session.step, SessionOp.data, h.position]
      phase := by
        rw [Session.step, heff.view, h.config, h.position]
        exact h.phase.write cfg now inode key data fileSize (by omega) }
  | flush =>
    simp only [SessionOp.data, List.append_nil]
    exact h.set (WriteBuffer.flush_effect h.calm).2 (h.phase.flushed cfg)
  | syncFlush =>
    have hsync : FlushPhase.step cfg ph .syncFlush = FlushPhase.step cfg ph .flush := by
      rcases ph with _ | _ | _ <;> rfl
    simp only [SessionOp.data, List.append_nil, hsync]
    exact h.set (WriteBuffer.flush_effect h.calm).2 (h.phase.flushed cfg)
  | flushExpired now order =>
    simp only [SessionOp.data, List.append_nil]
    refine h.set (WriteBuffer.flushExpired_effect h.calm now order).2 ?_
    rw [h.config]
    exact h.phase.expired h.calm.plain cfg now order
  | release =>
    simp only [SessionOp.data, List.append_nil]
    exact h.set (WriteBuffer.release_effect h.calm).2 (h.phase.released cfg)

theorem run (h : SessionAt cfg inode key d ph st) (ops : List SessionOp)
    (ht : d.length + (writtenBytes ops).length < cfg.multipartThreshold) :
    SessionAt cfg inode key (d ++ writtenBytes ops) (run (FlushPhase.step cfg) ph ops)
      (run (Session.step inode key) st ops) := by
  induction ops generalizing d ph st with
  | nil => simpa [writtenBytes] using h
  | cons op ops ih =>
    have hbytes : writtenBytes (op :: ops) = op.data ++ writtenBytes ops := by simp [writtenBytes]
    rw [hbytes, List.length_append] at ht
    rw [run_cons, run_cons, hbytes, ← List.append_assoc]
    exact ih (h.step op (by omega)) (by rw [List.length_append]; omega)

end SessionAt

/-- A new file written from its start without gaps, with any flushes in between: after the
final release its object is what was written exactly when the flushes are transparent. -/
theorem final_object_eq_written_iff {wb : WriteBuffer} {cl : ObsClient} {inode : ℕ} {key : Str}
    (h : NewFile wb cl inode key) (ops : List SessionOp)
    (ht : (writtenBytes ops).length < wb.config.multipartThreshold) :
    (run (Session.step inode key) ⟨wb, cl, 0⟩ ops).finalObject inode key =
        some (writtenBytes ops) ↔
      FlushesTransparent wb.config ops := by
  have hrun := (SessionAt.start h).run ops (by simpa using ht)
  obtain ⟨-, heff⟩ := WriteBuffer.release_effect hrun.calm
  have hobj := congrArg FileView.object heff.view
  have hiff := hrun.phase.released_object_iff
  rw [← hobj] at hiff
  exact hiff

/-- A flush after the last write is harmless. -/
theorem flush_after_last_write_transparent :
    (run (Session.step 2 ['f']) ⟨.new .default, .emptyFile, 0⟩
        [.write 1 [7] 0, .write 2 [8] 0, .flush]).finalObject 2 ['f'] = some [7, 8] :=
  (final_object_eq_written_iff newFile_emptyFile [.write 1 [7] 0, .write 2 [8] 0, .flush]
    (by decide)).mpr (by decide)

/-- A flush between two writes loses the first of them. -/
theorem flush_between_writes_loses_bytes :
    NewFile (.new .default) .emptyFile 2 ['f'] ∧
      (writtenBytes [.write 1 [7] 0, .flush, .write 2 [8] 1]).length <
        WriteBufferConfig.default.multipartThreshold ∧
      (run (Session.step 2 ['f']) ⟨.new .default, .emptyFile, 0⟩
        [.write 1 [7] 0, .flush, .write 2 [8] 1]).finalObject 2 ['f'] = some [8] ∧
      (run (Session.step 2 ['f']) ⟨.new .default, .emptyFile, 0⟩
        [.write 1 [7] 0, .write 2 [8] 1]).finalObject 2 ['f'] = some [7, 8] :=
  ⟨newFile_emptyFile, by decide, by decide, by decide⟩

end ObsFuse
