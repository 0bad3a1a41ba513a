import ObsFuse.Fs.Adapters
import ObsFuse.Fs.Footprint
import ObsFuse.Fs.Mount

/-! # A mount that is only read from

Requests through either adapter, with the background tasks between them, change no object as
long as none of them modifies: caches fill, handles come and go, and a flush finds nothing. -/

namespace ObsFuse
open Lib

/-- What happens to a mount. The adapter that it does not have sends no requests. -/
inductive MountEvent where
  | fuse (r : FuseRequest)
  | winfsp (r : WinRequest)
  | flushTask (now : Now) (order : IterOrder ℕ)
  | prefetchTask (now : Now) (n : ℕ) (permit : Bool)
  | foreign (objects : Bucket)

def MountEvent.modifies : MountEvent → Bool
  | .fuse r => r.modifies
  | .winfsp r => r.modifies
  | _ => false

/-- The bucket, if only the other clients change it. -/
def MountEvent.others (objects : Bucket) : MountEvent → Bucket
  | .foreign objects => objects
  | _ => objects

namespace ObsFsCore

def onMount (s : ObsFsCore) : MountEvent → ObsFsCore
  | .fuse r => (ObsFs.serve s r).2
  | .winfsp r => WinFspFs.after s r
  | .flushTask now order => s.step (.flushExpired now order)
  | .prefetchTask now n permit => s.step (.prefetch now n permit)
  | .foreign objects => s.event (.foreign objects)

/-- The mount has changed nothing in the bucket and holds nothing to store. -/
structure OnlyRead (objects : Bucket) (s : ObsFsCore) : Prop where
  objects : ∀ key, AList.lookup key s.obsClient.objects = AList.lookup key objects
  buffers : s.writeBuffer.KeysIn fun _ => False

variable {objects : Bucket} {s s' : ObsFsCore}

theorem directed_modifies {key : Str} {op : FsOp} (h : s.Directed key op) :
    op.modifies = true := by
  cases op with
  | create | mkdir | unlink | rmdir | rename | write | truncate => rfl
  | _ => exact h.elim

theorem OnlyRead.event (h : OnlyRead objects s) {ev : CoreEvent} (hev : ev.Own false) :
    OnlyRead objects (s.event ev) := by
  cases ev with
  | op call =>
    have hnone : ∀ key, ¬s.Directed key call := by
      intro key hkey
      exact Bool.false_ne_true (hev (directed_modifies hkey))
    have hstays := step_staysIn h.buffers hnone
    exact ⟨fun key => (hstays.client.objects key not_false).trans (h.objects key), hstays.buffers⟩
  | cacheGet now inode => exact ⟨h.objects, h.buffers⟩
  | cachePut now inode attr => exact ⟨h.objects, h.buffers⟩
  | foreign objects => exact hev.elim

theorem OnlyRead.does (h : OnlyRead objects s) (hdoes : s.Does false s') :
    OnlyRead objects s' :=
  hdoes.kept (fun _ _ hs hev => hs.event hev) h

theorem OnlyRead.onMount (h : OnlyRead objects s) {ev : MountEvent} (hev : ev.modifies = false) :
    OnlyRead (ev.others objects) (s.onMount ev) := by
  cases ev with
  | fuse r =>
    have hdoes := ObsFs.serve_does s r
    rw [show r.modifies = false from hev] at hdoes
    exact h.does hdoes
  | winfsp r =>
    have hdoes := WinFspFs.after_does s r
    rw [show r.modifies = false from hev] at hdoes
    exact h.does hdoes
  | flushTask now order => exact h.does (@does_harmless false s (.flushExpired now order) rfl)
  | prefetchTask now n permit =>
    exact h.does (@does_harmless false s (.prefetch now n permit) rfl)
  | foreign objects => exact ⟨fun _ => rfl, h.buffers⟩

end ObsFsCore

/-- As long as no request modifies, the bucket of a mount is what the other clients make of it,
whatever is asked for through either adapter and whatever the storage answers. -/
theorem only_read_bucket_kept (config : Config) (valid : config.validate = .ok ())
    (env : Surroundings) {evs : List MountEvent} (h : ∀ ev ∈ evs, ev.modifies = false) (key : Str) :
    AList.lookup key (run ObsFsCore.onMount (.new config valid env) evs).obsClient.objects =
      AList.lookup key (run MountEvent.others env.client.objects evs) := by
  have hrun : ∀ (s : ObsFsCore) objects, s.OnlyRead objects →
      (run ObsFsCore.onMount s evs).OnlyRead (run MountEvent.others objects evs) := by
    induction evs with
    | nil => exact fun _ _ hs => hs
    | cons ev evs ih =>
      intro s objects hs
      have hhead := hs.onMount (h ev (List.mem_cons_self ..))
      exact ih (fun e he => h e (List.mem_cons_of_mem _ he)) _ _ hhead
  exact (hrun (.new config valid env) env.client.objects ⟨fun _ => rfl, nofun⟩).objects key

/-- Reads through both adapters, of a file that another client replaces in between. -/
theorem replaced_bucket_kept :
    let client : ObsClient := { ObsClient.fresh with objects := AList.insert ['a'] [1] ∅ }
    let evs : List MountEvent :=
      [.fuse (.lookup ⟨0, 0⟩ rootInode [97]), .fuse (.openFile ⟨0, 0⟩ 2 0),
        .fuse (.read ⟨0, 0⟩ 2 1 0 4), .foreign (AList.insert ['a'] [2] ∅),
        .winfsp (.getFileInfo ⟨9, 9⟩ ⟨2, 1, false⟩), .flushTask ⟨9, 9⟩ .storage,
        .winfsp (.close ⟨2, 1, false⟩), .fuse (.destroy .storage)]
    AList.lookup ['a'] (run ObsFsCore.onMount (.new .basic Config.basic_valid (.still client))
      evs).obsClient.objects = some [2] := by
  intro client evs
  exact only_read_bucket_kept .basic Config.basic_valid (.still client) (by decide) ['a']

end ObsFuse
