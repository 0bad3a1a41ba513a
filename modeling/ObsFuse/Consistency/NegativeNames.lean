import ObsFuse.Fs.LookupPath
import ObsFuse.Fs.Mount
import ObsFuse.Fs.Steps

/-! # Names that the negative cache denies

A lookup that finds nothing is remembered for a second. Every operation that makes a key
appear has to forget the paths that the key is at or below. Here is which operations deny no
existing name. -/

namespace ObsFuse
open Lib

/-- The operations on names. -/
inductive NameCall where
  | lookup (parent : ℕ) (name : OsStr)
  | create (parent : ℕ) (name : OsStr) (mode flags : ℕ)
  | mkdir (parent : ℕ) (name : OsStr) (mode : ℕ)
  | rename (parent : ℕ) (name : OsStr) (newParent : ℕ) (newName : OsStr)
  | unlink (parent : ℕ) (name : OsStr)
  | rmdir (parent : ℕ) (name : OsStr)
  deriving DecidableEq, Repr

def NameCall.toOp (now : Now) : NameCall → FsOp
  | .lookup parent name => .lookup now parent name
  | .create parent name mode flags => .create now parent name mode flags
  | .mkdir parent name mode => .mkdir now parent name mode
  | .rename parent name newParent newName => .rename now parent name newParent newName
  | .unlink parent name => .unlink parent name
  | .rmdir parent name => .rmdir parent name

/-- A call, with the time since the one before it. -/
structure TimedCall where
  elapsed : ℕ
  system : SystemTime
  call : NameCall
  deriving DecidableEq, Repr

/-- The core at the clock reading of its last call. -/
structure TimedCore where
  core : ObsFsCore
  time : Instant

def TimedCore.step (s : TimedCore) (c : TimedCall) : TimedCore :=
  let now : Now := ⟨s.time + c.elapsed, c.system⟩
  ⟨s.core.step (c.call.toOp now), now.instant⟩

namespace ObsFsCore
variable {s s' : ObsFsCore}

/-- `is_negative` of the path at the given time. -/
def Denies (s : ObsFsCore) (now : Instant) (path : Str) : Prop :=
  (s.metadataCache.isNegative now path).1 = true

instance (s : ObsFsCore) (now : Instant) (path : Str) : Decidable (s.Denies now path) :=
  inferInstanceAs (Decidable (_ = true))

/-- No denied path has an object, a marker or anything below it. -/
def DeniesAbsent (s : ObsFsCore) (now : Instant) : Prop := ∀ path, s.Denies now path → s.Absent path

/-- What an operation on names changes: at most one key appears and one path is forgotten. -/
structure Changes (s s' : ObsFsCore) (new cleared : Option Str) : Prop where
  config : s'.config = s.config
  cacheConfig : s'.metadataCache.config = s.metadataCache.config
  faults : s'.obsClient.faults = s.obsClient.faults
  backend : s'.obsClient.backend = s.obsClient.backend
  objects : ∀ key ∈ s'.obsClient.objects, some key = new ∨ key ∈ s.obsClient.objects
  created : ∀ key, some key = new → key ∈ s'.obsClient.objects
  negative : ∀ q, AList.lookup q s'.metadataCache.negativeCache =
    if some q = cleared then none else AList.lookup q s.metadataCache.negativeCache

theorem Changes.of_subset (hconfig : s'.config = s.config)
    (hcache : s'.metadataCache.config = s.metadataCache.config)
    (hfaults : s'.obsClient.faults = s.obsClient.faults)
    (hbackend : s'.obsClient.backend = s.obsClient.backend)
    (hsub : ∀ key ∈ s'.obsClient.objects, key ∈ s.obsClient.objects)
    (hneg : s'.metadataCache.negativeCache = s.metadataCache.negativeCache) :
    Changes s s' none none where
  config := hconfig
  cacheConfig := hcache
  faults := hfaults
  backend := hbackend
  objects key hkey := .inr (hsub key hkey)
  created key hkey := by cases hkey
  negative q := by rw [hneg, if_neg (Option.some_ne_none q)]

theorem Changes.refl (s : ObsFsCore) : Changes s s none none :=
  .of_subset rfl rfl rfl rfl (fun _ h => h) rfl

theorem Changes.denies_iff {new cleared : Option Str} (h : Changes s s' new cleared)
    (now : Instant) (q : Str) : s'.Denies now q ↔ some q ≠ cleared ∧ s.Denies now q := by
  unfold Denies
  rw [MetadataCache.isNegative_iff, MetadataCache.isNegative_iff, h.negative, h.cacheConfig]
  by_cases hq : some q = cleared
  · rw [if_pos hq]
    simp [hq]
  · rw [if_neg hq]
    simp [hq]

/-- A key that appears must not be covered by a path that is still denied. -/
theorem Changes.deniesAbsent_iff {new cleared : Option Str} (h : Changes s s' new cleared)
    {time now : Instant} (hle : time ≤ now) (hs : s.DeniesAbsent time) :
    s'.DeniesAbsent now ↔
      ∀ key, some key = new → ∀ q, s.Denies now q → some q ≠ cleared →
        ¬Covers (s.obsPath q) key := by
  constructor
  · intro hs' key hkey q hq hne
    have habsent := hs' q ((h.denies_iff now q).mpr ⟨hne, hq⟩) key (h.created key hkey)
    rw [obsPath_congr h.config] at habsent
    exact habsent
  · intro hfree q hq key hkey
    obtain ⟨hne, hden⟩ := (h.denies_iff now q).mp hq
    rw [obsPath_congr h.config]
    rcases h.objects key hkey with hnew | hold
    · exact hfree key hnew q hden hne
    · exact hs q (MetadataCache.isNegative_mono hle hden) key hold

theorem LooksUp.deniesAbsent {now : Now} {path : Str} (h : LooksUp s s' now path)
    (hr : s.obsClient.Reliable) (hf : s.obsClient.backend.Finds) {time : Instant}
    (hle : time ≤ now.instant) (hs : s.DeniesAbsent time) : s'.DeniesAbsent now.instant := by
  intro q hq
  have habsent : s.Absent q := by
    unfold Denies at hq
    rw [MetadataCache.isNegative_iff] at hq
    obtain ⟨t, ht, hage⟩ := hq
    rcases h.negative q t ht with hold | ⟨hpath, -, hnew⟩
    · apply hs q
      apply MetadataCache.isNegative_mono hle
      rw [MetadataCache.isNegative_iff]
      rw [h.cacheConfig] at hage
      exact ⟨t, hold, hage⟩
    · rw [hpath]
      exact hnew hr hf
  unfold Absent at habsent ⊢
  rw [h.client.objects, obsPath_congr h.config]
  exact habsent

/-! ### The operations -/

/-- The path of a name in a directory. -/
def child (s : ObsFsCore) (parent : ℕ) (name : OsStr) : Option Str :=
  (s.inodeMgr.getPath parent).map (childPath · name)

/-- The key that a rename makes appear: that of the target, if there is an object to move and
the storage library does not refuse to copy it. -/
def movedKey (s : ObsFsCore) (oldPath newPath : Str) : Option Str :=
  if s.obsPath oldPath ∈ s.obsClient.objects ∧ s.obsPath newPath ≠ s.obsPath oldPath ∧
      s.obsClient.backend.refusesCopy (s.obsPath oldPath) (s.obsPath newPath) = none then
    some (s.obsPath newPath)
  else none

/-- The key that a call makes appear in the bucket. -/
def newKey (s : ObsFsCore) : NameCall → Option Str
  | .create parent name _ _ => (s.child parent name).map s.obsPath
  | .mkdir parent name _ =>
    (s.child parent name).map fun path => ObsClient.dirObject (s.obsPath path)
  | .rename parent name newParent newName =>
    (s.child parent name).bind fun oldPath =>
      (s.child newParent newName).bind fun newPath => s.movedKey oldPath newPath
  | _ => none

/-- The path whose negative entry a call removes. -/
def forgotten (s : ObsFsCore) : NameCall → Option Str
  | .create parent name _ _ | .mkdir parent name _ => s.child parent name
  | _ => none

theorem mem_insert {objects : Bucket} {key k : Str} {data : Bytes} :
    k ∈ AList.insert key data objects ↔ k = key ∨ k ∈ objects := AList.mem_insert objects

theorem mem_of_mem_erase {objects : Bucket} {key k : Str} (h : k ∈ AList.erase key objects) :
    k ∈ objects := (AList.mem_erase.mp h).2

/-- A creation: the object appears, and the path is interned and no longer denied. -/
theorem Changes.creation {path key : Str} {data : Bytes} (hconfig : s'.config = s.config)
    (hclient : s'.obsClient.faults = s.obsClient.faults ∧
      s'.obsClient.backend = s.obsClient.backend ∧
      s'.obsClient.objects = AList.insert key data s.obsClient.objects)
    (hcache : ∃ now inode attr parent, s'.metadataCache =
      ((s.metadataCache.putAttr now inode attr).removeNegative path).invalidateDir parent) :
    Changes s s' (some key) (some path) := by
  obtain ⟨hfaults, hbackend, hobjects⟩ := hclient
  obtain ⟨now, inode, attr, parent, hc⟩ := hcache
  unfold MetadataCache.removeNegative MetadataCache.invalidateDir at hc
  refine ⟨hconfig, ?_, hfaults, hbackend, ?_, ?_, ?_⟩
  · rw [hc]
    exact MetadataCache.putAttr_config now inode attr
  · intro k hk
    rw [hobjects, mem_insert] at hk
    exact hk.imp (congrArg some) id
  · intro k hk
    rw [hobjects, mem_insert]
    exact .inl (Option.some.inj hk)
  · intro q
    rw [hc]
    dsimp only
    rw [MetadataCache.putAttr_negativeCache, Table.lookup_erase_if]
    simp only [Option.some.injEq]

theorem doCreate_changes (hr : s.obsClient.Reliable) (now : Now) (parent : ℕ) (name : OsStr)
    (mode flags : ℕ) : Changes s (s.doCreate now parent name mode flags).2
      (s.newKey (.create parent name mode flags))
      (s.forgotten (.create parent name mode flags)) := by
  simp only [doCreate, internInode, newKey, forgotten, child]
  cases hp : s.inodeMgr.getPath parent with
  | none => exact .refl s
  | some parentPath =>
    dsimp only
    rw [ObsClient.write_stored hr.fault]
    refine Changes.creation rfl ⟨rfl, rfl, rfl⟩ ?_
    exact ⟨_, _, _, _, rfl⟩

theorem doMkdir_changes (hr : s.obsClient.Reliable) (now : Now) (parent : ℕ) (name : OsStr)
    (mode : ℕ) : Changes s (s.doMkdir now parent name mode).2
      (s.newKey (.mkdir parent name mode)) (s.forgotten (.mkdir parent name mode)) := by
  simp only [doMkdir, internInode, newKey, forgotten, child]
  cases hp : s.inodeMgr.getPath parent with
  | none => exact .refl s
  | some parentPath =>
    dsimp only
    rw [ObsClient.createDir_ok hr.fault]
    refine Changes.creation rfl ⟨rfl, rfl, rfl⟩ ?_
    exact ⟨_, _, _, _, rfl⟩

theorem doUnlink_changes (hr : s.obsClient.Reliable) (parent : ℕ) (name : OsStr) :
    Changes s (s.doUnlink parent name).2 none none := by
  unfold doUnlink
  cases hp : s.inodeMgr.getPath parent with
  | none => exact .refl s
  | some parentPath =>
    dsimp only
    rw [ObsClient.delete_ok hr.fault]
    dsimp only
    split
    · exact .of_subset rfl rfl rfl rfl (fun _ h => mem_of_mem_erase h) rfl
    · exact .of_subset rfl rfl rfl rfl (fun _ h => mem_of_mem_erase h) rfl

theorem doRmdir_changes (hr : s.obsClient.Reliable) (parent : ℕ) (name : OsStr) :
    Changes s (s.doRmdir parent name).2 none none := by
  unfold doRmdir
  cases hp : s.inodeMgr.getPath parent with
  | none => exact .refl s
  | some parentPath =>
    dsimp only
    have hlist := s.obsClient.list_sameBucket (dirKey (s.obsPath (childPath parentPath name)))
    generalize s.obsClient.list (dirKey (s.obsPath (childPath parentPath name))) = r at hlist
    obtain ⟨e | entries, cl⟩ := r
    · exact .of_subset rfl rfl hlist.faults hlist.backend (fun _ h => hlist.objects ▸ h) rfl
    · dsimp only at hlist ⊢
      have hold : ∀ {k : Str} key, key ∈ AList.erase k cl.objects → key ∈ s.obsClient.objects := by
        intro k key hkey
        rw [← hlist.objects]
        exact mem_of_mem_erase hkey
      split
      · exact .of_subset rfl rfl hlist.faults hlist.backend (fun _ h => hlist.objects ▸ h) rfl
      · rw [ObsClient.delete_ok (hlist.reliable hr).fault]
        dsimp only
        split
        · exact .of_subset rfl rfl hlist.faults hlist.backend hold rfl
        · exact .of_subset rfl rfl hlist.faults hlist.backend hold rfl

theorem mem_moved {objects : Bucket} {old new : Str} {data : Bytes} (key : Str) :
    key ∈ AList.erase old (AList.insert new data objects) ↔
      key ≠ old ∧ (key = new ∨ key ∈ objects) := by
  rw [AList.mem_erase, mem_insert]

/-- A rename that goes through: the new key appears unless it is the old one. -/
theorem Changes.move {oldObs newObs : Str} {data : Bytes} (hconfig : s'.config = s.config)
    (hcache : s'.metadataCache.config = s.metadataCache.config ∧
      s'.metadataCache.negativeCache = s.metadataCache.negativeCache)
    (hclient : s'.obsClient.faults = s.obsClient.faults ∧
      s'.obsClient.backend = s.obsClient.backend ∧ s'.obsClient.objects =
        AList.erase oldObs (AList.insert newObs data s.obsClient.objects)) :
    Changes s s' (if newObs ≠ oldObs then some newObs else none) none := by
  obtain ⟨hfaults, hbackend, hobjects⟩ := hclient
  refine ⟨hconfig, hcache.1, hfaults, hbackend, ?_, ?_, ?_⟩
  · intro key hkey
    rw [hobjects, mem_moved] at hkey
    obtain ⟨hne, hor⟩ := hkey
    rcases hor with hnew | hold
    · left
      rw [hnew] at hne
      rw [if_pos hne, hnew]
    · exact .inr hold
  · intro key hkey
    split at hkey
    · next hne =>
      cases hkey
      rw [hobjects, mem_moved]
      exact ⟨hne, .inl rfl⟩
    · cases hkey
  · intro q
    rw [if_neg (Option.some_ne_none q), hcache.2]

theorem doRename_changes (hr : s.obsClient.Reliable) (now : Now) (parent : ℕ) (name : OsStr)
    (newParent : ℕ) (newName : OsStr) :
    Changes s (s.doRename now parent name newParent newName).2
      (s.newKey (.rename parent name newParent newName)) none := by
  simp only [doRename, newKey, child]
  cases hp : s.inodeMgr.getPath parent with
  | none => exact .refl s
  | some parentPath =>
    cases hq : s.inodeMgr.getPath newParent with
    | none => exact .refl s
    | some newParentPath =>
      simp only [Option.map_some, Option.bind_some]
      unfold movedKey
      generalize s.obsPath (childPath parentPath name) = oldObs
      generalize s.obsPath (childPath newParentPath newName) = newObs
      by_cases hmade : s.obsClient.backend.refusesCopy oldObs newObs = none →
          AList.lookup oldObs s.obsClient.objects = none
      · have hout : ¬(oldObs ∈ s.obsClient.objects ∧ newObs ≠ oldObs ∧
            s.obsClient.backend.refusesCopy oldObs newObs = none) :=
          fun h => AList.lookup_eq_none.mp (hmade h.2.2) h.1
        obtain ⟨e, hcopy⟩ := @ObsClient.copy_failed s.obsClient oldObs newObs fun _ => hmade
        rw [if_neg hout, hcopy]
        exact .of_subset rfl rfl rfl rfl (fun _ h => h) rfl
      · rw [Classical.not_imp] at hmade
        obtain ⟨hc, hsome⟩ := hmade
        obtain ⟨data, hdata⟩ := Option.ne_none_iff_exists'.mp hsome
        have hin : oldObs ∈ s.obsClient.objects := AList.lookup_isSome.mp (by rw [hdata]; rfl)
        have hcopied : (s.obsClient.copied oldObs newObs data).Reliable := hr
        simp only [hin, hc, true_and, and_true]
        rw [ObsClient.copy_ok hr.fault hc hdata]
        dsimp only
        rw [ObsClient.delete_ok hcopied.fault]
        refine .move rfl ?_ ⟨rfl, rfl, rfl⟩
        dsimp only
        split
        · split
          · exact ⟨rfl, rfl⟩
          · exact ⟨rfl, rfl⟩
        · split
          · exact ⟨rfl, rfl⟩
          · exact ⟨rfl, rfl⟩

end ObsFsCore

/-! ### Runs -/

namespace TimedCore
variable {s : TimedCore}

/-- From the last call on, no existing name is denied. -/
def NegativesAbsent (s : TimedCore) : Prop :=
  ∀ elapsed, s.core.DeniesAbsent (s.time + elapsed)

/-- No path that the negative cache still denies covers the key that the call makes appear,
the path apart whose entry the call removes. -/
def KeepsNegatives (s : TimedCore) (c : TimedCall) : Prop :=
  ∀ key, some key = s.core.newKey c.call → ∀ q, s.core.Denies (s.time + c.elapsed) q →
    some q ≠ s.core.forgotten c.call → ¬ObsFsCore.Covers (s.core.obsPath q) key

theorem negativesAbsent_iff : s.NegativesAbsent ↔ s.core.DeniesAbsent s.time := by
  constructor
  · intro h
    exact h 0
  · intro h elapsed q hq
    exact h q (MetadataCache.isNegative_mono (Nat.le_add_right ..) hq)

/-- The storage does not fail and finds what is there. -/
def Answers (s : TimedCore) : Prop :=
  s.core.obsClient.Reliable ∧ s.core.obsClient.backend.Finds

theorem Answers.changes (h : s.Answers) {s' : TimedCore} {new cleared : Option Str}
    (hc : ObsFsCore.Changes s.core s'.core new cleared) : s'.Answers := by
  refine ⟨?_, ?_⟩
  · intro n
    rw [hc.faults]
    exact h.1 n
  · rw [hc.backend]
    exact h.2

/-- A step denies no existing name, if none was denied before, exactly under the condition. -/
theorem Answers.step (h : s.Answers) (c : TimedCall) :
    (s.step c).Answers ∧ (s.NegativesAbsent →
      ((s.step c).NegativesAbsent ↔ s.KeepsNegatives c)) := by
  have hle : s.time ≤ s.time + c.elapsed := Nat.le_add_right ..
  have hchanges : ObsFsCore.Changes s.core (s.step c).core (s.core.newKey c.call)
        (s.core.forgotten c.call) →
      (s.step c).Answers ∧ (s.NegativesAbsent →
        ((s.step c).NegativesAbsent ↔ s.KeepsNegatives c)) := by
    intro hc
    refine ⟨h.changes hc, ?_⟩
    intro hs
    rw [negativesAbsent_iff] at hs ⊢
    exact hc.deniesAbsent_iff hle hs
  obtain ⟨elapsed, system, call⟩ := c
  cases call with
  | lookup parent name =>
    have hl := ObsFsCore.doLookup_looksUp s.core ⟨s.time + elapsed, system⟩ parent name
      ((s.core.child parent name).getD []) (fun parentPath hp => by
        rw [ObsFsCore.child, Option.mem_def.mp hp]
        rfl)
    refine ⟨⟨hl.client.reliable h.1, ?_⟩, ?_⟩
    · have hback := h.2
      rw [← hl.client.backend] at hback
      exact hback
    · intro hs
      rw [negativesAbsent_iff] at hs ⊢
      refine iff_of_true (hl.deniesAbsent h.1 h.2 hle hs) ?_
      intro key hkey
      cases hkey
  | create parent name mode flags =>
    exact hchanges (ObsFsCore.doCreate_changes h.1 _ parent name mode flags)
  | mkdir parent name mode => exact hchanges (ObsFsCore.doMkdir_changes h.1 _ parent name mode)
  | rename parent name newParent newName =>
    exact hchanges (ObsFsCore.doRename_changes h.1 _ parent name newParent newName)
  | unlink parent name => exact hchanges (ObsFsCore.doUnlink_changes h.1 parent name)
  | rmdir parent name => exact hchanges (ObsFsCore.doRmdir_changes h.1 parent name)

end TimedCore

/-- In every run from a mount, no existing name is ever denied exactly when every step
forgets the paths that cover the key it makes appear. -/
theorem negatives_absent_iff (config : Config) (valid : config.validate = .ok ())
    (env : Surroundings) (hr : env.client.Reliable) (hf : env.client.backend.Finds)
    (calls : List TimedCall) :
    (∀ n, (run TimedCore.step ⟨.new config valid env, env.now.instant⟩
        (calls.take n)).NegativesAbsent) ↔
      Along TimedCore.step TimedCore.KeepsNegatives ⟨.new config valid env, env.now.instant⟩
        calls := by
  apply @forall_states_iff_along _ _ TimedCore.step TimedCore.KeepsNegatives TimedCore.Answers
    TimedCore.NegativesAbsent
  · intro s c h
    exact (h.step c).1
  · intro s c h
    exact (h.step c).2
  · exact ⟨hr, hf⟩
  · intro elapsed q hq
    unfold ObsFsCore.Denies at hq
    rw [MetadataCache.isNegative_iff] at hq
    obtain ⟨t, ht, -⟩ := hq
    cases ht

/-- A name is looked up in vain and then created within the second. -/
theorem created_name_is_not_denied :
    (run TimedCore.step ⟨.new .basic Config.basic_valid (.still (.holding .plain [])), 0⟩
      ([⟨0, 0, .lookup 1 ['f'.toUInt8]⟩, ⟨1, 0, .create 1 ['f'.toUInt8] 0 0⟩].take
        2)).NegativesAbsent := by
  refine (negatives_absent_iff .basic Config.basic_valid (.still (.holding .plain []))
    (fun _ => rfl) Backend.plain_finds
    [⟨0, 0, .lookup 1 ['f'.toUInt8]⟩, ⟨1, 0, .create 1 ['f'.toUInt8] 0 0⟩]).mpr ?_ 2
  rw [along_cons, along_cons]
  refine ⟨?_, ?_, trivial⟩
  · intro key hkey
    cases hkey
  · -- the only path denied so far is the one that is created
    intro key hkey q hq hne
    unfold ObsFsCore.Denies at hq
    rw [MetadataCache.isNegative_iff] at hq
    obtain ⟨t, ht, -⟩ := hq
    have hmem := Table.mem_entries_of_lookup _ ht
    have hentry : (⟨q, t⟩ : Sigma fun _ : Str => Instant) ∈
        [(⟨['f'], 0⟩ : Sigma fun _ : Str => Instant)] := hmem
    cases List.mem_singleton.mp hentry
    exact absurd (by decide) hne

/-- A name is looked up in vain, and a file renamed to it: the file is there and denied. -/
theorem renamed_file_is_denied :
    let s := run TimedCore.step
      ⟨.new .basic Config.basic_valid (.still (.holding .plain [['a']])), 0⟩
      [⟨0, 0, .lookup 1 ['b'.toUInt8]⟩, ⟨1, 0, .rename 1 ['a'.toUInt8] 1 ['b'.toUInt8]⟩]
    ['b'] ∈ s.core.obsClient.objects ∧ s.core.obsPath ['b'] = ['b'] ∧
      (s.core.metadataCache.isNegative s.time ['b']).1 = true ∧
      (s.core.doLookup ⟨s.time, 0⟩ 1 ['b'.toUInt8]).1 = .err .notFound ∧ ¬s.NegativesAbsent := by
  refine ⟨by decide, by decide, by decide, by decide, ?_⟩
  intro h
  exact h 0 ['b'] (by decide) ['b'] (by decide) (by decide)

end ObsFuse
