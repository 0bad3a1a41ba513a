import ObsFuse.Cache.Data

/-! # The disk tier of the data cache

`content` is what the disk tier holds for a block. The lemmas say how each operation
changes it; making room only ever forgets. -/

namespace ObsFuse
open Lib

theorem toDigits_ten_inj {m n : ℕ} (h : Nat.toDigits 10 m = Nat.toDigits 10 n) : m = n := by
  have hd := congrArg (Nat.ofDigitChars 10 · 0) h
  simpa only [Nat.ofDigitChars_ten_toDigits] using hd

namespace DiskCache

theorem filePath_inj (d : DiskCache) {k k' : BlockKey} (h : d.filePath k = d.filePath k') :
    k = k' := by
  have htail := List.append_cancel_left h
  rw [List.cons.injEq] at htail
  obtain ⟨hi, -, ho⟩ := (List.append_cons_inj_of_notMem Nat.underscore_not_in_toDigits
    Nat.underscore_not_in_toDigits).mp htail.2
  cases k
  cases k'
  rw [BlockKey.mk.injEq]
  exact ⟨toDigits_ten_inj hi, toDigits_ten_inj ho⟩

def content (d : DiskCache) (key : BlockKey) : Option Bytes :=
  (AList.lookup key d.entries).bind fun e => AList.lookup e.path d.files

def WellFormed (d : DiskCache) : Prop :=
  ∀ key e, AList.lookup key d.entries = some e → e.path = d.filePath key

/-- No file operation fails. -/
def Faithful (d : DiskCache) : Prop := ∀ n, d.faults n = none

/-- The disk tier `d'` holds nothing that `d` does not hold. -/
structure Forgets (d d' : DiskCache) : Prop where
  dir : d'.cacheDir = d.cacheDir
  wellFormed : d'.WellFormed
  content : ∀ key data, d'.content key = some data → d.content key = some data

theorem Forgets.refl {d : DiskCache} (h : d.WellFormed) : d.Forgets d := ⟨rfl, h, fun _ _ => id⟩

theorem Forgets.trans {d d' d'' : DiskCache} (h : d.Forgets d') (h' : d'.Forgets d'') :
    d.Forgets d'' :=
  ⟨h'.dir.trans h.dir, h'.wellFormed, fun k data hk => h.content k data (h'.content k data hk)⟩

theorem Forgets.of_sub {d d' : DiskCache} (hw : d.WellFormed) (hdir : d'.cacheDir = d.cacheDir)
    (he : ∀ k e, AList.lookup k d'.entries = some e → AList.lookup k d.entries = some e)
    (hf : ∀ p data, AList.lookup p d'.files = some data → AList.lookup p d.files = some data) :
    d.Forgets d' where
  dir := hdir
  wellFormed k e hk := by
    rw [hw k e (he k e hk), filePath, filePath, hdir]
  content k data hk := by
    obtain ⟨e, hk, hfile⟩ := Option.bind_eq_some_iff.mp hk
    exact Option.bind_eq_some_iff.mpr ⟨e, he k e hk, hf _ _ hfile⟩

/-- What the next read of the block's file answers. -/
def answer (d : DiskCache) (key : BlockKey) : Option Bytes :=
  match d.fault with
  | none => d.content key
  | some _ => none

theorem answer_content {d : DiskCache} {key : BlockKey} {data : Bytes}
    (h : d.answer key = some data) : d.content key = some data := by
  unfold answer at h
  split at h
  · exact h
  · cases h

theorem get_answer (d : DiskCache) (now : Instant) (key : BlockKey) :
    (d.get now key).1 = d.answer key := by
  unfold get answer content
  cases AList.lookup key d.entries with
  | none =>
    dsimp only
    split
    · rfl
    · rfl
  | some e => rfl

theorem get_faults (d : DiskCache) (now : Instant) (key : BlockKey) :
    (d.get now key).2.faults = d.faults := by
  unfold get
  split
  · rfl
  · rfl

theorem get_forgets {d : DiskCache} (h : d.WellFormed) (now : Instant) (key : BlockKey) :
    d.Forgets (d.get now key).2 := by
  unfold get
  cases hk : AList.lookup key d.entries with
  | none => exact .refl h
  | some e =>
    have hpath := h key e hk
    refine ⟨rfl, ?_, ?_⟩
    · intro k e' he
      rw [Table.lookup_insert_if] at he
      split at he
      · next hkk =>
        obtain rfl := Option.some.inj he
        exact hkk ▸ hpath
      · exact h k e' he
    · intro k data hc
      simp only [content, Table.lookup_insert_if] at hc ⊢
      split at hc
      · next hkk =>
        rw [hkk, hk]
        exact hc
      · exact hc

theorem oldest_mem {es : List DiskItem} {e : DiskItem} (h : oldest es = some e) : e ∈ es := by
  induction es generalizing e with
  | nil => cases h
  | cons x xs ih =>
    unfold oldest at h
    cases hx : oldest xs with
    | none =>
      rw [hx] at h
      obtain rfl := Option.some.inj h
      exact List.mem_cons_self
    | some f =>
      rw [hx] at h
      dsimp only at h
      split at h
      · obtain rfl := Option.some.inj h
        exact List.mem_cons_of_mem _ (ih hx)
      · obtain rfl := Option.some.inj h
        exact List.mem_cons_self

theorem oldest_none {es : List DiskItem} (h : oldest es = none) : es = [] := by
  cases es with
  | nil => rfl
  | cons x xs =>
    unfold oldest at h
    cases hx : oldest xs with
    | none => simp [hx] at h
    | some f =>
      rw [hx] at h
      dsimp only at h
      split at h <;> cases h

theorem entries_eq_empty {d : DiskCache} (h : d.entries.entries = []) (k : BlockKey) :
    AList.lookup k d.entries = none := by
  have he : d.entries = ∅ := AList.ext h
  rw [he, AList.lookup_empty]

theorem evictOneLocked_forgets {d d' : DiskCache} (hw : d.WellFormed)
    (h : d.evictOneLocked = some d') :
    d.Forgets d' ∧ d'.entries.entries.length < d.entries.entries.length := by
  unfold evictOneLocked at h
  cases ho : oldest (d.order.visit d.entries.entries) with
  | none => simp [ho] at h
  | some e =>
    rw [ho] at h
    obtain rfl := Option.some.inj h
    have hmem : e ∈ d.entries.entries := d.order.mem_visit.mp (oldest_mem ho)
    refine ⟨.of_sub hw rfl ?_ ?_, ?_⟩
    · exact fun k f hk => Table.lookup_of_erase hk
    · exact fun p data hp => Table.lookup_of_erase hp
    · exact d.entries.length_erase_lt hmem

theorem evictOneLocked_none {d : DiskCache} (h : d.evictOneLocked = none) :
    d.entries.entries = [] := by
  unfold evictOneLocked at h
  cases ho : oldest (d.order.visit d.entries.entries) with
  | none =>
    have hperm := d.order.perm d.entries.entries
    rw [oldest_none ho] at hperm
    exact hperm.nil_eq.symm
  | some e => simp [ho] at h

theorem makeRoom_forgets {d : DiskCache} (hw : d.WellFormed) (size k : ℕ) :
    d.Forgets (makeRoom size k d).2 ∧
      (d.entries.entries.length < k → (makeRoom size k d).1 = false →
        (makeRoom size k d).2.entries.entries = []) := by
  induction k generalizing d with
  | zero => exact ⟨.refl hw, fun h => absurd h (by omega)⟩
  | succ k ih =>
    unfold makeRoom
    split
    · cases he : d.evictOneLocked with
      | none => exact ⟨.refl hw, fun _ _ => evictOneLocked_none he⟩
      | some d' =>
        obtain ⟨hf, hlt⟩ := evictOneLocked_forgets hw he
        have hsized : d'.Forgets { d' with currentSize := d'.calculateSize } :=
          .of_sub hf.wellFormed rfl (fun _ _ h => h) (fun _ _ h => h)
        obtain ⟨hrec, hempty⟩ := ih hsized.wellFormed
        exact ⟨(hf.trans hsized).trans hrec, fun hk => hempty (by dsimp only; omega)⟩
    · exact ⟨.refl hw, fun _ h => nomatch h⟩

theorem evictOneLocked_faults {d d' : DiskCache} (h : d.evictOneLocked = some d') :
    d'.faults = d.faults := by
  unfold evictOneLocked at h
  split at h
  · cases h
    rfl
  · cases h

theorem makeRoom_faults (d : DiskCache) (size k : ℕ) :
    (makeRoom size k d).2.faults = d.faults := by
  induction k generalizing d with
  | zero => rfl
  | succ k ih =>
    unfold makeRoom
    split
    · cases he : d.evictOneLocked with
      | none => rfl
      | some d' =>
        have hone := evictOneLocked_faults he
        exact (ih _).trans hone
    · rfl

theorem put_faults (d : DiskCache) (now : Instant) (key : BlockKey) (data : Bytes) :
    (d.put now key data).faults = d.faults := by
  have hroom := d.makeRoom_faults data.length (d.entries.entries.length + 1)
  simp only [put]
  generalize makeRoom data.length (d.entries.entries.length + 1) d = r at hroom
  obtain ⟨_ | _, d'⟩ := r
  · exact hroom
  · dsimp only
    split
    · exact hroom
    · exact hroom
    · exact hroom

/-- A file operation that writes a block's file leaves the others. -/
theorem content_written {d : DiskCache} (hw : d.WellFormed) {key k : BlockKey} (hk : k ≠ key)
    (data : Bytes) :
    ((AList.lookup k d.entries).bind fun e =>
      AList.lookup e.path (d.files.insert (d.filePath key) data)) = d.content k := by
  unfold content
  cases he : AList.lookup k d.entries with
  | none => rfl
  | some e =>
    have hne : e.path ≠ d.filePath key := by
      rw [hw k e he]
      exact fun h => hk (filePath_inj _ h)
    rw [Option.bind_some, Option.bind_some, Table.lookup_insert_if, if_neg hne]

/-- After `put` the tier holds the first bytes of the new data for the block, or what it held; for
other blocks it holds at most what it held. -/
theorem put_spec {d : DiskCache} (hw : d.WellFormed) (now : Instant) (key : BlockKey)
    (data : Bytes) :
    (d.put now key data).WellFormed ∧
      ∀ k data', (d.put now key data).content k = some data' →
        (k = key ∧ data' <+: data) ∨ d.content k = some data' := by
  obtain ⟨hf, -⟩ := makeRoom_forgets hw data.length (d.entries.entries.length + 1)
  simp only [put]
  generalize makeRoom data.length (d.entries.entries.length + 1) d = r at hf
  obtain ⟨room, d'⟩ := r
  have hpath : d.filePath key = d'.filePath key := by rw [filePath, filePath, hf.dir]
  rw [hpath]
  cases room with
  | false => exact ⟨hf.wellFormed, fun k data' hc => .inr (hf.content k data' hc)⟩
  | true =>
    dsimp only
    split
    · constructor
      · intro k e he
        rw [Table.lookup_insert_if] at he
        split at he
        · next hk =>
          obtain rfl := Option.some.inj he
          exact congrArg d'.filePath hk.symm
        · exact hf.wellFormed k e he
      · intro k data' hc
        by_cases hk : k = key
        · simp only [content, Table.lookup_insert_if, hk, if_true, Option.bind_some,
            Option.some.injEq] at hc
          exact .inl ⟨hk, hc ▸ List.prefix_refl data⟩
        · simp only [content, Table.lookup_insert_if, if_neg hk] at hc
          have hold := content_written hf.wellFormed hk data
          simp only [Table.lookup_insert_if] at hold
          exact .inr (hf.content k data' (hold ▸ hc))
    · exact ⟨hf.wellFormed, fun k data' hc => .inr (hf.content k data' hc)⟩
    · next written _ =>
      refine ⟨hf.wellFormed, fun k data' hc => ?_⟩
      by_cases hk : k = key
      · left
        obtain ⟨e, he, hfile⟩ := Option.bind_eq_some_iff.mp hc
        have hsame : e.path = d'.filePath key := hk ▸ hf.wellFormed k e he
        rw [hsame] at hfile
        dsimp only at hfile
        rw [AList.lookup_insert, Option.some.injEq] at hfile
        rw [← hfile]
        exact ⟨hk, List.take_prefix written data⟩
      · exact .inr (hf.content k data' (content_written hf.wellFormed hk _ ▸ hc))

-- a write that fails halfway leaves the entry of an earlier one, with a cut file
example : let faults := fun n => if n = 1 then some (FileFault.cut 1) else none
    (((new ['d'] 9 .storage faults).put 0 ⟨1, 0⟩ [7, 8]).put 1 ⟨1, 0⟩ [5, 6]).content ⟨1, 0⟩ =
      some [5] := by decide

/-- If no file operation fails, the tier holds all of the new data for the block, or nothing. -/
theorem put_faithful {d : DiskCache} (hw : d.WellFormed) (hd : d.Faithful)
    (now : Instant) {key : BlockKey} {data data' : Bytes}
    (h : (d.put now key data).content key = some data') : data' = data := by
  obtain ⟨-, hempty⟩ := makeRoom_forgets hw data.length (d.entries.entries.length + 1)
  have hroom := d.makeRoom_faults data.length (d.entries.entries.length + 1)
  simp only [put] at h
  generalize makeRoom data.length (d.entries.entries.length + 1) d = r at h hempty hroom
  obtain ⟨room, d'⟩ := r
  cases room with
  | false =>
    have hnone := entries_eq_empty (hempty (Nat.lt_succ_self _) rfl) key
    simp [content, hnone] at h
  | true =>
    have hfault : d'.fault = none := by
      unfold fault
      rw [hroom]
      exact hd _
    dsimp only at h
    rw [hfault] at h
    simp only [content, Table.lookup_insert_if, if_true, Option.bind_some, Option.some.injEq] at h
    exact h.symm

theorem invalidate_spec {d : DiskCache} (hw : d.WellFormed) (inode : ℕ) :
    d.Forgets (d.invalidate inode) ∧
      ∀ key, key.inode = inode → (d.invalidate inode).content key = none := by
  constructor
  · refine .of_sub hw rfl ?_ fun p data h => Table.lookup_of_foldl_erase h
    intro k e he
    rw [invalidate, Table.lookup_keep, Option.filter_eq_some_iff] at he
    exact he.1
  · intro key hk
    have hnone : AList.lookup key (d.invalidate inode).entries = none := by
      rw [invalidate, Table.lookup_keep, Option.filter_eq_none_iff]
      intro e _
      simp [hk]
    simp [content, hnone]

theorem clear_content (d : DiskCache) (key : BlockKey) : d.clear.content key = none := by
  simp [content, clear]

theorem clear_wellFormed (d : DiskCache) : d.clear.WellFormed := by
  intro k e h
  simp [clear] at h

/-- What holds of the disk tier through all that the data cache does with it. -/
structure Kept (P : DiskCache → Prop) : Prop where
  put : ∀ (d : DiskCache) now key data, P d → P (d.put now key data)
  get : ∀ (d : DiskCache) now key, P d → P (d.get now key).2
  invalidate : ∀ (d : DiskCache) inode, P d → P (d.invalidate inode)
  clear : ∀ d : DiskCache, P d → P d.clear

theorem wellFormed_kept : Kept WellFormed where
  put _ now key data h := (put_spec h now key data).1
  get _ now key h := (get_forgets h now key).wellFormed
  invalidate _ inode h := (invalidate_spec h inode).1.wellFormed
  clear d _ := d.clear_wellFormed

theorem faithful_kept : Kept Faithful where
  put d now key data h n := by
    rw [put_faults]
    exact h n
  get d now key h n := by
    rw [get_faults]
    exact h n
  invalidate _ _ h := h
  clear _ h := h

end DiskCache

end ObsFuse
