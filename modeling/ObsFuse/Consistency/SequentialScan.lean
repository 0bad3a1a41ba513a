import ObsFuse.Consistency.PrefetchRanges

/-! # Gaps in a sequential scan

A file is read from its start in reads of one size. The window after the first one is asked
for by the read that ends past the first window, and starts where that read ended. -/

namespace ObsFuse
open Lib

/-- What is asked for covers everything from the first range to the start of the last. -/
def CoversScan (requests : List PrefetchRequest) : Prop :=
  ∀ first ∈ requests.head?, ∀ last ∈ requests.getLast?, ∀ x, first.offset ≤ x → x < last.offset →
    ∃ r ∈ requests, x ∈ r.range

def scan (now : ℕ → Instant) (file size n : ℕ) : List ReadaheadCall :=
  (List.range n).map fun i => .read (now i) file (i * size) size

theorem scan_succ (now : ℕ → Instant) (file size n : ℕ) :
    scan now file size (n + 1) = scan now file size n ++ [.read (now n) file (n * size) size] := by
  unfold scan
  rw [List.range_succ, List.map_append]
  rfl

/-- The end of what is prefetched and the requests, after `k` reads of a scan. -/
def scanned (config : ReadaheadConfig) (file size : ℕ) : ℕ → ℕ × List PrefetchRequest
  | 0 => (0, [])
  | k + 1 =>
    let (stop, requests) := scanned config file size k
    if config.seqThreshold ≤ k + 1 ∧ stop < (k + 1) * size then
      (u64 ((k + 1) * size + config.windowSize),
        requests ++ [⟨file, (k + 1) * size, config.windowSize⟩])
    else (stop, requests)

section Scan
variable {config : ReadaheadConfig} {file size k : ℕ}

/-- After `k` reads of a scan the manager is as `scanned` says. -/
structure Scanned (config : ReadaheadConfig) (file size k : ℕ) (w : WatchedReads) : Prop where
  config_eq : w.manager.config = config
  stop : ∀ now, (w.manager.stateOf now file).lastOffset + (w.manager.stateOf now file).lastSize =
    k * size
  count : ∀ now, (w.manager.stateOf now file).seqCount = k
  prefetched : ∀ now, (w.manager.stateOf now file).prefetchOffset = (scanned config file size k).1
  requests : w.requests = (scanned config file size k).2

theorem Scanned.of_state {m : ReadaheadManager} {st : ReadState} {reads : List FileRead}
    {issued : List (PrefetchRequest × List FileRead)} (hconfig : m.config = config)
    (hstop : st.lastOffset + st.lastSize = k * size) (hcount : st.seqCount = k)
    (hprefetch : st.prefetchOffset = (scanned config file size k).1)
    (hissued : issued.map Prod.fst = (scanned config file size k).2) :
    Scanned config file size k ⟨m.withState file st, reads, issued⟩ := by
  have hstate : ∀ now, (m.withState file st).stateOf now file = st := by
    intro now
    rw [ReadaheadManager.stateOf_withState, if_pos rfl]
  refine ⟨hconfig, ?_, ?_, ?_, hissued⟩
  · intro now
    rw [hstate]
    exact hstop
  · intro now
    rw [hstate]
    exact hcount
  · intro now
    rw [hstate]
    exact hprefetch

theorem Scanned.triggers_iff {w : WatchedReads} (h : Scanned config file size k w)
    (hfit : (k + 1) * size < 2 ^ 64) (now : Instant) :
    ReadaheadManager.Triggers config (w.manager.stateOf now file) (k * size) size ↔
      config.seqThreshold ≤ k + 1 ∧ (scanned config file size k).1 < (k + 1) * size := by
  have hend : k * size + size = (k + 1) * size := (Nat.succ_mul k size).symm
  unfold ReadaheadManager.Triggers
  rw [h.stop, h.count, h.prefetched, hend, u64_eq hfit, u64_eq (by omega)]
  simp

theorem Scanned.read {w : WatchedReads} (h : Scanned config file size k w)
    (henable : config.enable = true) (hfit : (k + 1) * size < 2 ^ 64) (now : Instant) :
    Scanned config file size (k + 1) (w.step file (.read now file (k * size) size)) := by
  have hconfig := h.config_eq
  have hon : w.manager.config.enable = true := by
    rw [hconfig]
    exact henable
  have hend : k * size + size = (k + 1) * size := (Nat.succ_mul k size).symm
  have hcount : ((w.manager.stateOf now file).update now (k * size) size).2.seqCount = k + 1 := by
    simp only [ReadState.update]
    rw [h.stop, h.count, u64_eq (by omega)]
    simp
  have hrequests := h.requests
  by_cases ht : config.seqThreshold ≤ k + 1 ∧ (scanned config file size k).1 < (k + 1) * size
  · have hscanned : scanned config file size (k + 1) =
        (u64 ((k + 1) * size + config.windowSize),
          (scanned config file size k).2 ++ [⟨file, (k + 1) * size, config.windowSize⟩]) :=
      if_pos ht
    have hask := @WatchedReads.step_asks file w now (k * size) size hon
      (by rw [hconfig]; exact (h.triggers_iff hfit now).mpr ht)
    rw [hconfig, hend, u64_eq hfit] at hask
    rw [hask]
    refine .of_state hconfig hend hcount ?_ ?_
    · rw [hscanned]
    · rw [hscanned, List.map_append, ← hrequests]
      rfl
  · have hscanned : scanned config file size (k + 1) = scanned config file size k := if_neg ht
    rw [WatchedReads.step_waits now hon
      (by rw [hconfig]; exact fun htrigger => ht ((h.triggers_iff hfit now).mp htrigger))]
    refine .of_state hconfig hend hcount ?_ ?_
    · rw [hscanned]
      exact h.prefetched now
    · rw [hscanned]
      exact hrequests

theorem scanned_of_run {m : ReadaheadManager} (hnew : AList.lookup file m.fileStates = none)
    (henable : m.config.enable = true) (now : ℕ → Instant) (n : ℕ) (hfit : n * size < 2 ^ 64) :
    Scanned m.config file size n
      (run (WatchedReads.step file) (.start m) (scan now file size n)) := by
  induction n with
  | zero =>
    have hstate : ∀ now, m.stateOf now file = .new now := by
      intro now
      unfold ReadaheadManager.stateOf
      rw [hnew]
      rfl
    refine ⟨rfl, ?_, ?_, ?_, rfl⟩
    · intro now
      rw [Nat.zero_mul]
      exact congrArg (fun st => st.lastOffset + st.lastSize) (hstate now)
    · intro now
      exact congrArg ReadState.seqCount (hstate now)
    · intro now
      exact congrArg ReadState.prefetchOffset (hstate now)
  | succ n ih =>
    rw [scan_succ, run_append]
    have hle : n * size ≤ (n + 1) * size := Nat.mul_le_mul_right size (Nat.le_succ n)
    exact (ih (by omega)).read henable hfit (now n)

/-! ### The requests of a scan -/

variable (config file size)

/-- The number of reads with which the first request is made. -/
def firstRead : ℕ := max 1 config.seqThreshold

def windowAfter (k : ℕ) : PrefetchRequest := ⟨file, k * size, config.windowSize⟩

theorem scanned_asks (ht : firstRead config ≤ k + 1)
    (hpast : (scanned config file size k).1 < (k + 1) * size) :
    scanned config file size (k + 1) =
      (u64 ((k + 1) * size + config.windowSize),
        (scanned config file size k).2 ++ [windowAfter config file size (k + 1)]) := by
  unfold firstRead at ht
  have hcount : config.seqThreshold ≤ k + 1 := by omega
  exact if_pos ⟨hcount, hpast⟩

theorem scanned_waits (h : k + 1 < firstRead config ∨
    (k + 1) * size ≤ (scanned config file size k).1) :
    scanned config file size (k + 1) = scanned config file size k := by
  unfold firstRead at h
  apply if_neg
  rintro ⟨hcount, hpast⟩
  omega

theorem scanned_early (hk : k < firstRead config) : scanned config file size k = (0, []) := by
  induction k with
  | zero => rfl
  | succ k ih => rw [scanned_waits config file size (.inl hk), ih (by omega)]

variable (hsize : 1 ≤ size)
include hsize

theorem scanned_first : scanned config file size (firstRead config) =
    (u64 (firstRead config * size + config.windowSize),
      [windowAfter config file size (firstRead config)]) := by
  have hpos : 1 ≤ firstRead config := Nat.le_max_left 1 _
  obtain ⟨k, hk⟩ := Nat.exists_eq_add_of_le' hpos
  have hearly := scanned_early config file size (k := k) (by omega)
  have hpast : (scanned config file size k).1 < (k + 1) * size := by
    rw [hearly]
    exact Nat.mul_pos (Nat.succ_pos k) hsize
  rw [hk, scanned_asks config file size (by omega) hpast, hearly]
  rfl

/-- After the first request, the others start within what has been read. -/
theorem scanned_within (j : ℕ) : ∃ rest, (scanned config file size (firstRead config + j)).2 =
    windowAfter config file size (firstRead config) :: rest ∧
      ∀ r ∈ rest, r.offset ≤ (firstRead config + j) * size := by
  induction j with
  | zero =>
    refine ⟨[], ?_, fun r hr => by cases hr⟩
    rw [Nat.add_zero, scanned_first config file size hsize]
  | succ j ih =>
    obtain ⟨rest, hrest, hoffsets⟩ := ih
    have hmono : (firstRead config + j) * size ≤ (firstRead config + j + 1) * size :=
      Nat.mul_le_mul_right size (Nat.le_succ _)
    by_cases hpast : (scanned config file size (firstRead config + j)).1 <
        (firstRead config + j + 1) * size
    · refine ⟨rest ++ [windowAfter config file size (firstRead config + j + 1)], ?_, ?_⟩
      · rw [← Nat.add_assoc, scanned_asks config file size (by omega) hpast, hrest]
        rfl
      · intro r hr
        rcases List.mem_append.mp hr with hold | hnew
        · exact (hoffsets r hold).trans hmono
        · rw [List.mem_singleton.mp hnew]
          exact Nat.le_refl _
    · refine ⟨rest, ?_, fun r hr => (hoffsets r hr).trans hmono⟩
      rw [← Nat.add_assoc, scanned_waits config file size (.inr (Nat.le_of_not_lt hpast)), hrest]

variable {m : ℕ} (hwindow : config.windowSize = m * size)
include hwindow

theorem scanned_in_window (hfit : (firstRead config + m) * size < 2 ^ 64) {j : ℕ} (hj : j ≤ m) :
    scanned config file size (firstRead config + j) =
      ((firstRead config + m) * size, [windowAfter config file size (firstRead config)]) := by
  induction j with
  | zero =>
    have hend : firstRead config * size + config.windowSize = (firstRead config + m) * size := by
      rw [hwindow, Nat.add_mul]
    rw [Nat.add_zero, scanned_first config file size hsize, hend, u64_eq hfit]
  | succ j ih =>
    have hstop := ih (by omega)
    have hle : (firstRead config + j + 1) * size ≤ (firstRead config + m) * size :=
      Nat.mul_le_mul_right size (by omega)
    rw [← Nat.add_assoc, scanned_waits config file size (.inr (by rw [hstop]; exact hle)), hstop]

/-- The second window starts one read after the end of the first. -/
theorem scanned_past_window {j : ℕ}
    (hfit : (firstRead config + m + 1 + j) * size < 2 ^ 64) :
    ∃ rest, (scanned config file size (firstRead config + m + 1 + j)).2 =
      windowAfter config file size (firstRead config) ::
        windowAfter config file size (firstRead config + m + 1) :: rest ∧
      ∀ r ∈ rest, (firstRead config + m + 1) * size ≤ r.offset := by
  induction j with
  | zero =>
    have hlt : (firstRead config + m) * size < (firstRead config + m + 1) * size :=
      Nat.mul_lt_mul_of_pos_right (Nat.lt_succ_self _) hsize
    rw [Nat.add_zero] at hfit ⊢
    have hfull := scanned_in_window config file size hsize hwindow (by omega) (Nat.le_refl m)
    have hpast : (scanned config file size (firstRead config + m)).1 <
        (firstRead config + m + 1) * size := by
      rw [hfull]
      exact hlt
    refine ⟨[], ?_, fun r hr => by cases hr⟩
    rw [scanned_asks config file size (by omega) hpast, hfull]
    rfl
  | succ j ih =>
    have hmono : (firstRead config + m + 1 + j) * size ≤
        (firstRead config + m + 1 + (j + 1)) * size := Nat.mul_le_mul_right size (by omega)
    obtain ⟨rest, hrest, hoffsets⟩ := ih (by omega)
    by_cases hpast : (scanned config file size (firstRead config + m + 1 + j)).1 <
        (firstRead config + m + 1 + j + 1) * size
    · refine ⟨rest ++ [windowAfter config file size (firstRead config + m + 1 + j + 1)], ?_, ?_⟩
      · rw [← Nat.add_assoc, scanned_asks config file size (by omega) hpast, hrest]
        rfl
      · intro r hr
        rcases List.mem_append.mp hr with hold | hnew
        · exact hoffsets r hold
        · rw [List.mem_singleton.mp hnew]
          exact Nat.mul_le_mul_right size (by omega)
    · refine ⟨rest, ?_, hoffsets⟩
      rw [← Nat.add_assoc, scanned_waits config file size (.inr (Nat.le_of_not_lt hpast)), hrest]

/-- The first byte after the first window is in no range, once a second one is asked for. -/
theorem gap_past_window {n : ℕ} (hfit : n * size < 2 ^ 64) (hlate : firstRead config + m < n) :
    ¬CoversScan (scanned config file size n).2 := by
  intro hcovers
  have hend : (firstRead config + m) * size = firstRead config * size + config.windowSize := by
    rw [hwindow, Nat.add_mul]
  obtain ⟨j, rfl⟩ : ∃ j, n = firstRead config + m + 1 + j := Nat.exists_eq_add_of_le hlate
  obtain ⟨rest, hrest, hoffsets⟩ := scanned_past_window config file size hsize hwindow hfit
  rw [hrest] at hcovers
  have hlt : (firstRead config + m) * size < (firstRead config + m + 1) * size :=
    Nat.mul_lt_mul_of_pos_right (Nat.lt_succ_self _) hsize
  have hlater : ∀ r ∈ windowAfter config file size (firstRead config + m + 1) :: rest,
      (firstRead config + m + 1) * size ≤ r.offset := by
    intro r hr
    rcases List.mem_cons.mp hr with rfl | hr
    · exact Nat.le_refl _
    · exact hoffsets r hr
  obtain ⟨last, hlast⟩ : ∃ last,
      last ∈ (windowAfter config file size (firstRead config + m + 1) :: rest).getLast? :=
    ⟨_, List.getLast?_eq_some_getLast (List.cons_ne_nil _ _)⟩
  have hlastin := List.mem_of_getLast? hlast
  obtain ⟨r, hr, hin⟩ := hcovers (windowAfter config file size (firstRead config)) rfl last
    (by rw [List.getLast?_cons_cons]; exact hlast) ((firstRead config + m) * size)
    (Nat.mul_le_mul_right size (by omega)) (Nat.lt_of_lt_of_le hlt (hlater last hlastin))
  obtain ⟨hge, hstop⟩ := Set.mem_Ico.mp hin
  rcases List.mem_cons.mp hr with rfl | hr
  · have hstop' : (firstRead config + m) * size <
        firstRead config * size + config.windowSize := hstop
    omega
  · have hstart := hlater r hr
    omega

theorem covers_in_window {n : ℕ} (hn : n ≤ firstRead config + m) :
    CoversScan (scanned config file size n).2 := by
  intro first hfirst last hlast x hx hxlast
  by_cases hearly : n < firstRead config
  · rw [scanned_early config file size hearly] at hfirst
    cases hfirst
  · have hend : (firstRead config + m) * size = firstRead config * size + config.windowSize := by
      rw [hwindow, Nat.add_mul]
    obtain ⟨j, rfl⟩ : ∃ j, n = firstRead config + j := Nat.exists_eq_add_of_le (by omega)
    obtain ⟨rest, hrest, hoffsets⟩ := scanned_within config file size hsize j
    rw [hrest] at hfirst hlast ⊢
    cases hfirst
    refine ⟨_, List.mem_cons_self .., Set.mem_Ico.mpr ⟨hx, ?_⟩⟩
    have hmono : (firstRead config + j) * size ≤ (firstRead config + m) * size :=
      Nat.mul_le_mul_right size hn
    show x < firstRead config * size + config.windowSize
    rcases List.mem_cons.mp (List.mem_of_getLast? hlast) with rfl | hin
    · -- the first window alone
      have hlt : x < firstRead config * size := hxlast
      omega
    · have hle := hoffsets last hin
      omega

theorem covers_iff {n : ℕ} (hfit : n * size < 2 ^ 64) :
    CoversScan (scanned config file size n).2 ↔ n ≤ firstRead config + m := by
  constructor
  · intro hcovers
    by_contra hlate
    exact gap_past_window config file size hsize hwindow hfit (Nat.lt_of_not_le hlate) hcovers
  · exact covers_in_window config file size hsize hwindow

end Scan

theorem scan_disabled {m : ReadaheadManager} (h : m.config.enable = false) (now : ℕ → Instant)
    (file size n : ℕ) :
    (run (WatchedReads.step file) (.start m) (scan now file size n)).manager = m ∧
      (run (WatchedReads.step file) (.start m) (scan now file size n)).issued = [] := by
  induction n with
  | zero => exact ⟨rfl, rfl⟩
  | succ n ih =>
    obtain ⟨hmanager, hissued⟩ := ih
    rw [scan_succ, run_append, run_cons, run_nil]
    simp only [WatchedReads.step, if_true, hmanager, hissued]
    rw [ReadaheadManager.recordRead_disabled h]
    exact ⟨rfl, rfl⟩

/-- A scan in reads of one size, with a window of `w` reads, leaves no gap exactly if nothing is
prefetched at all or the scan ends within the first window. -/
theorem scan_without_gap_iff (m : ReadaheadManager) (file size w n : ℕ) (now : ℕ → Instant)
    (hnew : AList.lookup file m.fileStates = none) (hsize : 1 ≤ size)
    (hwindow : m.config.windowSize = w * size) (hfit : n * size < 2 ^ 64) :
    CoversScan (run (WatchedReads.step file) (.start m) (scan now file size n)).requests ↔
      m.config.enable = false ∨ n ≤ max 1 m.config.seqThreshold + w := by
  cases henable : m.config.enable with
  | false =>
    have hnone := (scan_disabled henable now file size n).2
    unfold WatchedReads.requests
    rw [hnone]
    refine Iff.intro (fun _ => .inl rfl) fun _ => ?_
    intro first hfirst
    cases hfirst
  | true =>
    rw [(scanned_of_run hnew henable now n hfit).requests,
      covers_iff m.config file size hsize hwindow hfit]
    simp [firstRead]

/-- Eight reads of 1024 bytes under a window of 4096: the bytes from 7168 to 8191 are not asked
for. -/
theorem second_window_leaves_gap :
    let w := run (WatchedReads.step 1) (.start (.new ⟨true, 4096, 3, 30⟩))
      (scan id 1 1024 8)
    w.requests = [⟨1, 3072, 4096⟩, ⟨1, 8192, 4096⟩] ∧ ¬CoversScan w.requests := by
  intro w
  have hrequests : w.requests = [⟨1, 3072, 4096⟩, ⟨1, 8192, 4096⟩] := by decide
  refine ⟨hrequests, ?_⟩
  intro hcovers
  rw [hrequests] at hcovers
  obtain ⟨r, hr, hin⟩ :=
    hcovers ⟨1, 3072, 4096⟩ rfl ⟨1, 8192, 4096⟩ rfl 7168 (by decide) (by decide)
  obtain ⟨hge, hlt⟩ := Set.mem_Ico.mp hin
  simp only [List.mem_cons, List.not_mem_nil, or_false] at hr
  rcases hr with rfl | rfl
  · exact absurd hlt (by decide)
  · exact absurd hge (by decide)

/-- Seven such reads stay within the first window. -/
theorem first_window_covers :
    CoversScan (run (WatchedReads.step 1) (.start (.new ⟨true, 4096, 3, 30⟩))
      (scan id 1 1024 7)).requests :=
  (scan_without_gap_iff (.new ⟨true, 4096, 3, 30⟩) 1 1024 4 7 id rfl (by decide) (by decide)
    (by decide)).mpr (.inr (by decide))

end ObsFuse
