import ObsFuse.Consistency.BoundedStaleness
import ObsFuse.Consistency.DirectedChanges
import ObsFuse.Consistency.OneVersion
import ObsFuse.Fs.WritePath
import ObsFuse.Lib.Sharing

/-! # Several mounts of one bucket

The mounts know of each other through the bucket alone. A file that one of them closes is what
another one reads that has not read it before; what it has read, it may go on answering. -/

namespace ObsFuse
open Lib

namespace ObsFsCore

/-- Mounts share the objects; a change by another mount is a change by another client. -/
def sharing : Sharing ObsFsCore CoreEvent Bucket where
  step := event
  shown s := s.obsClient.objects
  notice := .foreign

/-- Mounts of the bucket, each with its own settings, clocks and client. -/
def mounts {ι : Type*} (bucket : Bucket) (config : ι → Config)
    (valid : ∀ i, (config i).validate = .ok ()) (env : ι → Surroundings) (i : ι) : ObsFsCore :=
  .new (config i) (valid i) { env i with client := { (env i).client with objects := bucket } }

/-! ### One mount -/

section
variable {s₀ : ObsFsCore} {evs : List CoreEvent} {inode : ℕ}
  (hfirst : ∀ time fh start len, .op (.read time inode fh start len) ∉ evs)
include hfirst

/-- Nothing is prefetched of a file that was not read. -/
theorem getPrefetched_unread (hahead : s₀.readahead.prefetchBuffer = ∅) (hnone : s₀.spawned = [])
    (now : Instant) (offset : ℕ) :
    ((run event s₀ evs).readahead.getPrefetched now inode offset).1 = none := by
  by_contra hsome
  obtain ⟨data, hdata⟩ := Option.ne_none_iff_exists'.mp hsome
  obtain ⟨entry, hentry, -⟩ := (ReadaheadManager.getPrefetched_fst ..).mp hdata
  obtain ⟨n, op, -, -, -, -, job, -, -, hjob, hkey, -⟩ := prefetched_origin hahead hentry
  have hinode : job.request.inode = inode := (congrArg PrefetchKey.inode hkey).symm
  obtain ⟨k, op', hev, time, fh, start, len, path, rfl, -⟩ := spawned_origin hnone hjob
  rw [hinode] at hev
  exact hfirst time fh start len (List.mem_of_mem_take (List.mem_of_getElem? hev))

/-- No block is cached of a file that was not read. -/
theorem cachedAnswer_unread (hcold : ∀ key data, ¬s₀.dataCache.Keeps key data)
    (hw : s₀.dataCache.WellFormed) (offset size : ℕ) :
    (run event s₀ evs).cachedAnswer inode offset size = none := by
  by_contra hsome
  obtain ⟨data, hdata⟩ := Option.ne_none_iff_exists'.mp hsome
  obtain ⟨block, hblock, -⟩ := cachedAnswer_some hdata
  obtain ⟨n, op, fetched, hev, hfills, -⟩ :=
    keeps_origin hcold hw (DataCache.keeps_of_visible hblock)
  obtain ⟨time, inode', fh, start, len, path, content, rfl, -, -, hkey, -⟩ := hfills
  have hinode : inode' = inode := (congrArg BlockKey.inode hkey).symm
  rw [hinode] at hev
  exact hfirst time fh start len (List.mem_of_getElem? hev)

end

/-- The first read of a file in a mount gives what the bucket holds for it then, if the storage
library reads the range. -/
theorem doRead_first {s₀ : ObsFsCore} {evs : List CoreEvent} {inode : ℕ}
    (hfirst : ∀ time fh start len, .op (.read time inode fh start len) ∉ evs)
    (hahead : s₀.readahead.prefetchBuffer = ∅) (hnone : s₀.spawned = [])
    (hcold : ∀ key data, ¬s₀.dataCache.Keeps key data) (hw : s₀.dataCache.WellFormed)
    {path : Str} {content : Bytes} (hpath : (run event s₀ evs).inodeMgr.getPath inode = some path)
    (hobject : AList.lookup ((run event s₀ evs).obsPath path)
      (run event s₀ evs).obsClient.objects = some content)
    (hfault : (run event s₀ evs).obsClient.fault = none) {offset size : ℕ}
    (hreads : (run event s₀ evs).obsClient.backend.refusesRead content offset size = none)
    (now : Now) (fh : ℕ) :
    ((run event s₀ evs).doRead now inode fh offset size).1 =
      .ok ((content.drop offset).take size) := by
  have hprefetched := getPrefetched_unread hfirst hahead hnone now.instant offset
  have hcached := cachedAnswer_unread hfirst hcold hw offset size
  generalize run event s₀ evs = s at hpath hobject hfault hreads hprefetched hcached
  have hremote := (s.askedCache now inode fh offset size).readRemote_eq hfault hobject hreads now
    inode
  rw [s.doRead_eq hpath, hprefetched]
  dsimp only
  rw [hcached]
  dsimp only
  rw [hremote]

/-- So it does among several mounts, for a range inside the object: to one of them, the others are
other clients. -/
theorem mounts_doRead_first {ι : Type*} [DecidableEq ι] (bucket : Bucket) (config : ι → Config)
    (valid : ∀ i, (config i).validate = .ok ()) (env : ι → Surroundings)
    {evs : List (ι × CoreEvent)} {i : ι} {inode : ℕ} (hreads : (env i).client.backend.ReadsInside)
    (hfirst : ∀ time fh start len, (i, .op (.read time inode fh start len)) ∉ evs)
    {s : ObsFsCore} (hs : run sharing.act (mounts bucket config valid env) evs i = s) {path : Str}
    {content : Bytes} (hpath : s.inodeMgr.getPath inode = some path)
    (hobject : AList.lookup (s.obsPath path) s.obsClient.objects = some content)
    (hfault : s.obsClient.fault = none) (now : Now) (fh : ℕ) {offset size : ℕ}
    (hinside : offset + size ≤ content.length) :
    (s.doRead now inode fh offset size).1 = .ok ((content.drop offset).take size) := by
  have hunread : ∀ time handle start len, .op (.read time inode handle start len) ∉
      sharing.view i (mounts bucket config valid env) evs := by
    intro time handle start len hmem
    rcases Sharing.mem_view hmem with hown | ⟨objects, hnotice⟩
    · exact hfirst time handle start len hown
    · cases hnotice
  have hrun := @Sharing.run_act _ _ _ _ _ sharing (mounts bucket config valid env) i evs
  rw [hs] at hrun
  have hanswers : s.obsClient.backend.refusesRead content offset size = none := by
    have hbackend : s.obsClient.backend = (env i).client.backend := by
      rw [hrun]
      exact (run_sameService (mounts bucket config valid env i) _).backend
    rw [hbackend]
    exact hreads content offset size hinside
  rw [hrun] at hpath hobject hfault hanswers ⊢
  exact doRead_first hunread rfl rfl (new_cold _ _ _) (new_wellFormed _ _ _) hpath hobject hfault
    hanswers now fh

/-- A close that succeeds has stored the bytes that were buffered. -/
theorem doRelease_stored {s : ObsFsCore} {inode fh : ℕ} {buf : FileWriteBuffer}
    (hbuf : AList.lookup inode s.writeBuffer.buffers = some buf) (hdirty : buf.dirty = true)
    (hdata : buf.data ≠ []) (hm : buf.multipart = none) (hok : (s.doRelease inode fh).1 = .ok ()) :
    AList.lookup buf.path (s.doRelease inode fh).2.obsClient.objects = some buf.data := by
  obtain ⟨-, hclient, hresult⟩ := s.doRelease_buffer inode fh
  rw [WriteBuffer.release_some hbuf] at hclient hresult
  rw [hclient]
  cases hf : s.obsClient.fault with
  | none =>
    rw [WriteBufferConfig.flushBuffer_stores _ hdirty hdata hm hf]
    dsimp only
    rw [ObsClient.stored_lookup, if_pos rfl]
  | some e =>
    rw [hresult, WriteBufferConfig.flushBuffer_fails _ hdirty hdata hm hf] at hok
    cases hok

theorem Untouched.notice {key : Str} {content : Option Bytes} (s t : ObsFsCore)
    (h : Untouched key content s) (h' : Untouched key content t) :
    Untouched key content (sharing.step s (sharing.notice (sharing.shown t))) :=
  ⟨h'.object, h.buffers⟩

end ObsFsCore

/-- A mount closes a file for which it has bytes buffered, and the close succeeds. Then, as long as
no mount has a write buffer for the object or a request directed at it, another mount, or the same
one, that has not read the file before reads these bytes, whatever else happens. -/
theorem closed_file_read_elsewhere {ι : Type*} [DecidableEq ι] (bucket : Bucket)
    (config : ι → Config) (valid : ∀ i, (config i).validate = .ok ()) (env : ι → Surroundings)
    (before after : List (ι × CoreEvent)) (writer reader : ι) (inode inode' fh fh' : ℕ)
    {buf : FileWriteBuffer} {path : Str} (hreads : (env reader).client.backend.ReadsInside) :
    let start := ObsFsCore.mounts bucket config valid env
    let written := run ObsFsCore.sharing.act start before
    let closed := ObsFsCore.sharing.act written (writer, .op (.release inode fh))
    let last := run ObsFsCore.sharing.act closed after reader
    AList.lookup inode (written writer).writeBuffer.buffers = some buf → buf.dirty = true →
    buf.data ≠ [] → buf.multipart = none → ((written writer).doRelease inode fh).1 = .ok () →
    (∀ i, (closed i).writeBuffer.KeysIn (· ≠ buf.path)) →
    Along ObsFsCore.sharing.act (fun s e => ¬(s e.1).DirectedBy buf.path e.2) closed after →
    (∀ time fh start len, (reader, .op (.read time inode' fh start len)) ∉ before ++ after) →
    last.inodeMgr.getPath inode' = some path → last.obsPath path = buf.path →
    last.obsClient.fault = none →
    ∀ now offset size, offset + size ≤ buf.data.length →
      (last.doRead now inode' fh' offset size).1 = .ok ((buf.data.drop offset).take size) := by
  intro start written closed last hbuf hdirty hdata hm hok hkeys hquiet hfirst hpath hkey hfault now
    offset size hinside
  have hstored := ObsFsCore.doRelease_stored hbuf hdirty hdata hm hok
  have huntouched : ∀ i, (closed i).Untouched buf.path (some buf.data) := by
    intro i
    refine ⟨?_, hkeys i⟩
    have hshown := @Sharing.shown_act _ _ _ _ _ ObsFsCore.sharing written (fun _ _ => rfl)
      (writer, .op (.release inode fh)) i
    exact (congrArg (AList.lookup buf.path) hshown).trans hstored
  have hlast : last.Untouched buf.path (some buf.data) :=
    Sharing.run_act_invariant (fun _ _ hs hev => hs.event hev) ObsFsCore.Untouched.notice huntouched
      hquiet reader
  have hlist : run ObsFsCore.sharing.act start
      (before ++ (writer, .op (.release inode fh)) :: after) reader = last := by
    rw [run_append]
    rfl
  have hunread : ∀ time handle start' len, (reader, .op (.read time inode' handle start' len)) ∉
      before ++ (writer, .op (.release inode fh)) :: after := by
    intro time handle start' len hmem
    apply hfirst time handle start' len
    rcases List.mem_append.mp hmem with hbefore | hafter
    · exact List.mem_append_left _ hbefore
    · rcases List.mem_cons.mp hafter with hrelease | hafter
      · cases hrelease
      · exact List.mem_append_right _ hafter
  have hobject := hlast.object
  rw [← hkey] at hobject
  exact ObsFsCore.mounts_doRead_first bucket config valid env hreads hunread hlist hpath hobject
    hfault now fh' hinside

/-- A file that one mount creates, writes and closes, read in another mount. -/
theorem new_file_read_elsewhere :
    let start := @ObsFsCore.mounts Bool ∅ (fun _ => .basic) (fun _ => Config.basic_valid)
      (fun _ => .still .fresh)
    let written := run ObsFsCore.sharing.act start
      [(false, .op (.create ⟨0, 0⟩ rootInode [97] 0o644 1)),
        (false, .op (.write ⟨1, 1⟩ 2 1 0 [1, 2, 3]))]
    let closed := ObsFsCore.sharing.act written (false, .op (.release 2 1))
    let last := run ObsFsCore.sharing.act closed [(true, .op (.lookup ⟨2, 2⟩ rootInode [97]))] true
    ∀ now offset size, offset + size ≤ 3 →
      (last.doRead now 2 1 offset size).1 = .ok (([1, 2, 3].drop offset).take size) := by
  intro start written closed last
  have hbuf : ∃ buf ∈ AList.lookup 2 (written false).writeBuffer.buffers,
      buf.path = ['a'] ∧ buf.data = [1, 2, 3] ∧ buf.dirty = true ∧ buf.multipart = none := by
    decide +kernel
  obtain ⟨buf, hbuf, hkey, hdata, hdirty, hm⟩ := hbuf
  have hempty : ∀ i, (closed i).writeBuffer.buffers.keys = [] := by decide +kernel
  have hkeys : ∀ i, (closed i).writeBuffer.KeysIn (· ≠ buf.path) := by
    intro i inode other hother
    have hmem : inode ∈ (closed i).writeBuffer.buffers.keys :=
      AList.lookup_isSome.mp (Option.isSome_of_mem hother)
    rw [hempty i] at hmem
    cases hmem
  have hne : buf.data ≠ [] := by
    rw [hdata]
    exact List.cons_ne_nil _ _
  have hlength : buf.data.length = 3 := by
    rw [hdata]
    rfl
  rw [← hdata, ← hlength]
  apply @closed_file_read_elsewhere Bool _ ∅ (fun _ => .basic) (fun _ => Config.basic_valid)
    (fun _ => .still .fresh) _ [(true, .op (.lookup ⟨2, 2⟩ rootInode [97]))] false true 2 2 1 1 buf
    ['a'] Backend.plain_readsInside hbuf hdirty hne hm
  · decide +kernel
  · exact hkeys
  · rw [hkey]
    decide +kernel
  · intro time fh start len hread
    simp at hread
  · decide +kernel
  · rw [hkey]
    decide +kernel
  · decide +kernel

end ObsFuse
