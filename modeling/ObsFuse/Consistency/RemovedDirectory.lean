import ObsFuse.Consistency.DirectChildren
import ObsFuse.Consistency.NamespaceFailures

/-! # Removing a directory

Whether a directory is empty is read off its listing, where its own marker does not count, and
neither does an object named with a single dot. Then the marker is deleted, by one more request,
whose answer is not looked at. -/

namespace ObsFuse
open Lib

/-- A storage library whose listings are right, when it gives them. Whether a listing names its
own prefix is left open. -/
def Backend.ListsBelow (b : Backend) : Prop :=
  ∀ objects key listing, b.list objects key = .ok listing →
    ∀ path, path ≠ key → (path ∈ listing ↔ IsListed objects key path)

theorem Backend.delimited_listsBelow : Backend.delimited.ListsBelow := by
  intro objects key listing h path _
  have hlists := delimited_lists objects key
  cases h.symm.trans hlists.answer
  exact hlists.mem path

/-! ### What counts as empty -/

/-- Nothing is stored below the key but its marker and an object named with a single dot. -/
def OnlyMarkers (objects : Bucket) (key : Str) : Prop :=
  ∀ k ∈ objects, key <+: k → k = key ∨ k = key ++ ['.']

section
variable {objects : Bucket} {key : Str}

/-- Of the paths listed under a key that ends with a slash, only the object named with a dot
ends with a slash and a dot. -/
theorem dot_suffix_iff {path : Str} (hkey : ∃ a, key = a ++ ['/'])
    (hlisted : IsListed objects key path) (hne : path ≠ key) :
    ['/', '.'] <:+ path ↔ path = key ++ ['.'] := by
  constructor
  · intro h
    rcases hlisted with ⟨hself, -⟩ | ⟨name, hpath, hnil, hno, -⟩ | ⟨name, hpath, -⟩
    · exact absurd hself hne
    · rw [hpath] at h ⊢
      rcases List.suffix_or_suffix_of_suffix h (List.suffix_append key name) with hin | hin
      · exact absurd (hin.subset (List.mem_cons_self ..)) hno
      · rcases List.suffix_cons_iff.mp hin with hall | hdot
        · rw [hall] at hno
          exact absurd (List.mem_cons_self ..) hno
        · rcases List.suffix_cons_iff.mp hdot with hdot | hempty
          · rw [hdot]
          · exact absurd (List.suffix_nil.mp hempty) hnil
    · obtain ⟨front, hfront⟩ := h
      have hlast := congrArg List.getLast? (hfront.trans hpath)
      simp at hlast
  · intro h
    obtain ⟨a, ha⟩ := hkey
    rw [h, ha, List.append_assoc]
    exact List.suffix_append a _

theorem onlyMarkers_iff : OnlyMarkers objects key ↔
    ∀ path, path ≠ key → IsListed objects key path → path = key ++ ['.'] := by
  have hslash : ∀ name : Str, key ++ (name ++ ['/']) ≠ key ++ ['.'] := by
    intro name heq
    have hlast := congrArg List.getLast? heq
    simp at hlast
  constructor
  · intro h path hne hlisted
    rcases hlisted with ⟨hself, -⟩ | ⟨name, hpath, -, -, hmem⟩ | ⟨name, hpath, -, rest, hmem⟩
    · exact absurd hself hne
    · rw [hpath] at hne ⊢
      exact (h _ hmem (List.prefix_append ..)).resolve_left hne
    · -- an object in a subdirectory is no marker
      rcases h _ hmem (List.prefix_append ..) with hself | hdot
      · simp at hself
      · have hrest := List.append_cancel_left hdot
        cases name with
        | nil => simp at hrest
        | cons c name => simp at hrest
  · intro h k hk hbelow
    obtain ⟨rest, hrest⟩ := hbelow
    rw [← hrest] at hk ⊢
    by_cases hne : rest = []
    · left
      rw [hne, List.append_nil]
    · right
      have happend : ∀ r : Str, r ≠ [] → key ++ r ≠ key := by
        intro r hr heq
        exact hr (List.append_right_eq_self.mp heq)
      rcases noSlash_or_first rest with hno | ⟨tail, htail⟩
      · exact h _ (happend rest hne) (.inr (.inl ⟨rest, rfl, hne, hno, hk⟩))
      · rw [htail] at hk
        have hsub := h _ (happend _ (by simp))
          (.inr (.inr ⟨firstComponent rest, rfl, firstComponent_noSlash rest, tail, hk⟩))
        exact absurd hsub (hslash _)

theorem nonMarkerEntries_eq_nil_iff {infos : List ObjectMeta} (hkey : ∃ a, key = a ++ ['/'])
    (hlists : ∀ path, path ≠ key → (path ∈ infos.map (·.path) ↔ IsListed objects key path)) :
    ObsFsCore.nonMarkerEntries key infos = [] ↔ OnlyMarkers objects key := by
  have hcounted : ObsFsCore.nonMarkerEntries key infos = [] ↔
      ∀ info ∈ infos, info.path ≠ key → ['/', '.'] <:+ info.path := by
    unfold ObsFsCore.nonMarkerEntries
    simp [List.filter_eq_nil_iff]
  rw [hcounted, onlyMarkers_iff]
  constructor
  · intro h path hne hlisted
    obtain ⟨info, hinfo, hpath⟩ := List.mem_map.mp ((hlists path hne).mpr hlisted)
    rw [← hpath] at hne hlisted ⊢
    exact (dot_suffix_iff hkey hlisted hne).mp (h info hinfo hne)
  · intro h info hinfo hne
    have hlisted := (hlists info.path hne).mp (List.mem_map_of_mem hinfo)
    exact (dot_suffix_iff hkey hlisted hne).mpr (h info.path hne hlisted)

end

/-! ### The operation -/

namespace ObsFsCore

/-- The key of the directory's marker, which is also the prefix of its listing. -/
def markerKey (s : ObsFsCore) (parentPath : Str) (name : OsStr) : Str :=
  dirKey (s.obsPath (childPath parentPath name))

variable {s : ObsFsCore} {parent : ℕ} {name : OsStr} {parentPath : Str} {infos : List ObjectMeta}

theorem doRmdir_unlisted {e : ErrorKind} (hparent : s.inodeMgr.getPath parent = some parentPath)
    (hlist : (s.obsClient.list (s.markerKey parentPath name)).1 = .error e) :
    (s.doRmdir parent name).1 = .err .ioError := by
  unfold markerKey at hlist
  unfold doRmdir
  rw [hparent]
  dsimp only
  generalize s.obsClient.list (dirKey (s.obsPath (childPath parentPath name))) = r at hlist
  obtain ⟨_ | infos, cl⟩ := r
  · rfl
  · cases hlist

theorem doRmdir_refused (hparent : s.inodeMgr.getPath parent = some parentPath)
    (hlist : (s.obsClient.list (s.markerKey parentPath name)).1 = .ok infos)
    (hcounted : nonMarkerEntries (s.markerKey parentPath name) infos ≠ []) :
    s.doRmdir parent name = (.err .notEmpty,
      { s with obsClient := (s.obsClient.list (s.markerKey parentPath name)).2 }) := by
  unfold markerKey at hlist hcounted ⊢
  unfold doRmdir
  rw [hparent]
  dsimp only
  generalize s.obsClient.list (dirKey (s.obsPath (childPath parentPath name))) = r at hlist
  obtain ⟨_ | entries, cl⟩ := r
  · cases hlist
  · cases hlist
    dsimp only
    rw [if_pos hcounted]

theorem doRmdir_passed (hparent : s.inodeMgr.getPath parent = some parentPath)
    (hlist : (s.obsClient.list (s.markerKey parentPath name)).1 = .ok infos)
    (hcounted : nonMarkerEntries (s.markerKey parentPath name) infos = []) :
    (s.doRmdir parent name).1 = .ok () ∧ (s.doRmdir parent name).2.obsClient =
      ((s.obsClient.list (s.markerKey parentPath name)).2.delete
        (s.markerKey parentPath name)).2 := by
  unfold markerKey at hlist hcounted ⊢
  unfold doRmdir
  rw [hparent]
  dsimp only
  generalize s.obsClient.list (dirKey (s.obsPath (childPath parentPath name))) = r at hlist
  obtain ⟨_ | entries, cl⟩ := r
  · cases hlist
  · cases hlist
    dsimp only
    rw [if_neg (by rw [hcounted]; exact fun h => h rfl)]
    refine ⟨rfl, ?_⟩
    generalize s.inodeMgr.getInode (childPath parentPath name) = inode
    cases inode with
    | none => rfl
    | some inode => rfl

/-- The operation reports success only when nothing is left at the key or below, and refuses a
directory that is listed and has more than its marker, with nothing changed. -/
structure RemovesWhole (s : ObsFsCore) (parent : ℕ) (name : OsStr) (key : Str) : Prop where
  gone : (s.doRmdir parent name).1 = .ok () →
    ∀ k ∈ (s.doRmdir parent name).2.obsClient.objects, ¬key <+: k
  refused : ∀ infos, (s.obsClient.list key).1 = .ok infos →
    (∃ k ∈ s.obsClient.objects, key <+: k ∧ k ≠ key) →
      (s.doRmdir parent name).1 = .err .notEmpty ∧
        (s.doRmdir parent name).2.obsClient.objects = s.obsClient.objects ∧
        s.SameLocals (s.doRmdir parent name).2

end ObsFsCore

/-- If the listing of the key succeeds and shows only markers, then the marker of the key is the
only one, and the request after the listing, which deletes it, does not fail. -/
def ObsClient.DeletesMarker (cl : ObsClient) (key : Str) : Prop :=
  ∀ infos, (cl.list key).1 = .ok infos → OnlyMarkers cl.objects key →
    key ++ ['.'] ∉ cl.objects ∧
      (key ∈ cl.objects → cl.faults (cl.log.length + 1 + infos.length) = none)

theorem ObsClient.list_fault {cl : ObsClient} {key : Str} {infos : List ObjectMeta}
    (h : (cl.list key).1 = .ok infos) :
    (cl.list key).2.fault = cl.faults (cl.log.length + 1 + infos.length) := by
  obtain ⟨-, hlog⟩ := list_answered h
  have hlength : (cl.list key).2.log.length = cl.log.length + 1 + infos.length := by
    rw [hlog]
    simp
    omega
  unfold fault
  rw [(cl.list_sameBucket key).faults, hlength]

/-- Where there are only markers, the delete after the listing leaves nothing exactly when there
is none of the dot object and it does not fail on a marker that exists. -/
theorem ObsClient.nothing_left_iff {cl : ObsClient} {key : Str} {infos : List ObjectMeta}
    (hlist : (cl.list key).1 = .ok infos) (honly : OnlyMarkers cl.objects key) :
    (∀ k ∈ ((cl.list key).2.delete key).2.objects, ¬key <+: k) ↔
      key ++ ['.'] ∉ cl.objects ∧
        (key ∈ cl.objects → cl.faults (cl.log.length + 1 + infos.length) = none) := by
  rw [delete_objects, list_fault hlist, (cl.list_sameBucket key).objects]
  constructor
  · intro h
    constructor
    · intro hdot
      refine h (key ++ ['.']) ?_ (List.prefix_append ..)
      split
      · exact AList.mem_erase.mpr ⟨by simp, hdot⟩
      · exact hdot
    · intro hmem
      by_contra hfails
      rw [if_neg hfails] at h
      exact h key hmem (List.prefix_refl key)
  · intro h k hk hbelow
    obtain ⟨hdot, hdelete⟩ := h
    have hin : k ∈ cl.objects := by
      split at hk
      · exact (AList.mem_erase.mp hk).2
      · exact hk
    rcases honly k hin hbelow with hself | hkdot
    · rw [hself] at hk hin
      rw [if_pos (hdelete hin)] at hk
      exact (AList.mem_erase.mp hk).1 rfl
    · rw [hkdot] at hin
      exact hdot hin

/-- `rmdir` removes the directory or refuses to exactly when no dot object is left behind and
the delete of a marker that exists does not fail. -/
theorem rmdir_removes_iff {s : ObsFsCore} {parent : ℕ} {parentPath : Str} (name : OsStr)
    (hparent : s.inodeMgr.getPath parent = some parentPath)
    (hbackend : s.obsClient.backend.ListsBelow) :
    s.RemovesWhole parent name (s.markerKey parentPath name) ↔
      s.obsClient.DeletesMarker (s.markerKey parentPath name) := by
  have hempty : ∀ infos, (s.obsClient.list (s.markerKey parentPath name)).1 = .ok infos →
      (ObsFsCore.nonMarkerEntries (s.markerKey parentPath name) infos = [] ↔
        OnlyMarkers s.obsClient.objects (s.markerKey parentPath name)) := by
    intro infos hlist
    exact nonMarkerEntries_eq_nil_iff ⟨_, rfl⟩
      (hbackend _ _ _ (ObsClient.list_answered hlist).1)
  constructor
  · intro h infos hlist honly
    obtain ⟨hok, hclient⟩ := ObsFsCore.doRmdir_passed hparent hlist ((hempty infos hlist).mpr honly)
    have hgone := h.gone hok
    rw [hclient] at hgone
    exact (ObsClient.nothing_left_iff hlist honly).mp hgone
  · intro h
    constructor
    · intro hok
      -- success means that the listing showed only markers
      cases hlist : (s.obsClient.list (s.markerKey parentPath name)).1 with
      | error e =>
        rw [ObsFsCore.doRmdir_unlisted hparent hlist] at hok
        cases hok
      | ok infos =>
        by_cases honly : OnlyMarkers s.obsClient.objects (s.markerKey parentPath name)
        · obtain ⟨-, hclient⟩ :=
            ObsFsCore.doRmdir_passed hparent hlist ((hempty infos hlist).mpr honly)
          rw [hclient]
          exact (ObsClient.nothing_left_iff hlist honly).mpr (h infos hlist honly)
        · have hcounted := mt (hempty infos hlist).mp honly
          rw [ObsFsCore.doRmdir_refused hparent hlist hcounted] at hok
          cases hok
    · intro infos hlist hmore
      have hcounted :
          ObsFsCore.nonMarkerEntries (s.markerKey parentPath name) infos ≠ [] := by
        intro hnone
        have honly := (hempty infos hlist).mp hnone
        obtain ⟨k, hk, hbelow, hne⟩ := hmore
        rcases honly k hk hbelow with hself | hdot
        · exact hne hself
        · rw [hdot] at hk
          exact (h infos hlist honly).1 hk
      rw [ObsFsCore.doRmdir_refused hparent hlist hcounted]
      exact ⟨rfl, (s.obsClient.list_sameBucket _).objects, s.sameLocals_client _⟩

/-- An empty directory, found by its marker and then removed. -/
theorem empty_directory_removed :
    let s := ((ObsFsCore.new .basic Config.basic_valid
      (.still (.holding .delimited [['d', '/']]))).doLookup ⟨0, 0⟩ 1 ['d'.toUInt8]).2
    (s.doRmdir 1 ['d'.toUInt8]).1 = .ok () ∧ s.RemovesWhole 1 ['d'.toUInt8] ['d', '/'] := by
  intro s
  have hroot : s.inodeMgr.getPath 1 = some [] := by decide
  refine ⟨by decide, (rmdir_removes_iff _ hroot Backend.delimited_listsBelow).mpr ?_⟩
  intro infos _ _
  exact ⟨by decide, fun _ => rfl⟩

/-- The delete of the marker fails: the removal reports success, the inode is forgotten, and the
next lookup finds the directory under a new one. -/
theorem failed_delete_reports_success :
    let client : ObsClient := { ObsClient.holding .delimited [['d', '/']] with
      faults := fun n => if n = 4 then some .rateLimited else none }
    let s := ((ObsFsCore.new .basic Config.basic_valid (.still client)).doLookup ⟨0, 0⟩ 1
      ['d'.toUInt8]).2
    let (answer, t) := s.doRmdir 1 ['d'.toUInt8]
    answer = .ok () ∧ t.obsClient.objects.keys = [['d', '/']] ∧
      s.inodeMgr.getInode ['d'] = some 2 ∧ t.inodeMgr.getInode ['d'] = none ∧
      (t.doLookup ⟨1, 1⟩ 1 ['d'.toUInt8]).2.inodeMgr.getInode ['d'] = some 3 ∧
      ¬s.RemovesWhole 1 ['d'.toUInt8] ['d', '/'] := by
  refine ⟨by decide, by decide, by decide, by decide, by decide, ?_⟩
  intro h
  exact h.gone (by decide) ['d', '/'] (by decide) (List.prefix_refl _)

end ObsFuse
