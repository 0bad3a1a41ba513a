import ObsFuse.Fs.Footprint
import ObsFuse.Fs.Mount

/-! # Objects change only where a request is directed

Whatever the order of the requests, and whatever fails, an object that no request is directed at
keeps its content: a flush stores nothing but what was written for a key before. -/

namespace ObsFuse
open Lib

namespace ObsFsCore

/-- The event is directed at the object of the key, or is another client's change of it. -/
def DirectedBy (s : ObsFsCore) (key : Str) : CoreEvent → Prop
  | .op op => s.Directed key op
  | .foreign objects => AList.lookup key objects ≠ AList.lookup key s.obsClient.objects
  | .cacheGet .. | .cachePut .. => False

instance decidableDirected (s : ObsFsCore) (key : Str) : (op : FsOp) → Decidable (s.Directed key op)
  | .create .. | .unlink .. | .mkdir .. | .rmdir .. | .write .. | .truncate .. =>
    inferInstanceAs (Decidable (∃ path ∈ _, key = _))
  | .rename .. => inferInstanceAs (Decidable ((∃ path ∈ _, key = _) ∨ ∃ path ∈ _, key = _))
  | .lookup .. | .readdir .. | .getattr .. | .read .. | .openFile .. | .opendir .. | .close ..
  | .release .. | .fsync .. | .flush .. | .flushAll .. | .flushExpired .. | .prefetch .. =>
    isFalse not_false

instance decidableDirectedBy (s : ObsFsCore) (key : Str) :
    (ev : CoreEvent) → Decidable (s.DirectedBy key ev)
  | .op op => decidableDirected s key op
  | .foreign _ => inferInstanceAs (Decidable (_ ≠ _))
  | .cacheGet .. | .cachePut .. => isFalse not_false

/-- The object of the key is as at first, and no bytes are buffered for the key. -/
structure Untouched (key : Str) (content : Option Bytes) (s : ObsFsCore) : Prop where
  object : AList.lookup key s.obsClient.objects = content
  buffers : s.writeBuffer.KeysIn (· ≠ key)

theorem Untouched.event {key : Str} {content : Option Bytes} {s : ObsFsCore}
    (h : Untouched key content s) {ev : CoreEvent} (hev : ¬s.DirectedBy key ev) :
    Untouched key content (s.event ev) := by
  cases ev with
  | op op =>
    have houtside : ∀ k, s.Directed k op → k ≠ key := by
      intro k hk heq
      rw [heq] at hk
      exact hev hk
    have hstays := step_staysIn h.buffers houtside
    exact ⟨(hstays.client.objects key (not_not_intro rfl)).trans h.object, hstays.buffers⟩
  | foreign objects =>
    have hsame : AList.lookup key objects = AList.lookup key s.obsClient.objects :=
      not_not.mp hev
    exact ⟨hsame.trans h.object, h.buffers⟩
  | cacheGet now inode => exact ⟨h.object, h.buffers⟩
  | cachePut now inode attr => exact ⟨h.object, h.buffers⟩

end ObsFsCore

/-- In every run of a mount, an object at which no event is directed has the content that it had
at the mount, be it absent or present. -/
theorem undirected_object_kept (config : Config) (valid : config.validate = .ok ())
    (env : Surroundings) (key : Str) {evs : List CoreEvent}
    (h : Along ObsFsCore.event (fun s ev => ¬s.DirectedBy key ev) (.new config valid env) evs) :
    AList.lookup key (run ObsFsCore.event (.new config valid env) evs).obsClient.objects =
      AList.lookup key env.client.objects := by
  have hnew : ObsFsCore.Untouched key (AList.lookup key env.client.objects)
      (.new config valid env) := ⟨rfl, nofun⟩
  have hstep : ∀ (s : ObsFsCore) ev, s.Untouched key (AList.lookup key env.client.objects) →
      ¬s.DirectedBy key ev → (s.event ev).Untouched key (AList.lookup key env.client.objects) :=
    fun _ _ hs hev => hs.event hev
  exact (run_invariant hstep hnew h).object

/-- Writes, a rename and a removal of other files, with a refused request between them. -/
theorem neighbour_object_kept :
    let client : ObsClient := { ObsClient.fresh with
      objects := AList.insert ['b'] [7] (AList.insert ['a'] [1] ∅)
      faults := fun n => if n = 3 then some .unexpected else none }
    let evs : List CoreEvent :=
      [.op (.lookup ⟨0, 0⟩ rootInode [97]), .op (.write ⟨1, 1⟩ 2 1 0 [9, 9]), .op (.flush 2),
        .op (.rename ⟨2, 2⟩ rootInode [97] rootInode [99]), .foreign (AList.insert ['b'] [7] ∅),
        .op (.unlink rootInode [99]), .op (.flushAll .storage)]
    AList.lookup ['b'] (run ObsFsCore.event (.new .basic Config.basic_valid (.still client))
      evs).obsClient.objects = some [7] := by
  intro client evs
  exact undirected_object_kept .basic Config.basic_valid (.still client) ['b'] (by decide)

end ObsFuse
