import ObsFuse.Storage.Obs

/-! # Requests one by one

What each request does to the bucket when it does not fail, and when it does. `stat` and the
listings leave the bucket as it is; of a storage library that finds what is there, their
failures say that keys are absent. -/

namespace ObsFuse
open Lib

def ObsClient.stored (cl : ObsClient) (path : Str) (data : Bytes) : ObsClient :=
  { cl.sent (.write path data) with objects := cl.objects.insert path data }

namespace ObsClient

theorem write_stored {cl : ObsClient} (h : cl.fault = none) (path : Str) (data : Bytes) :
    cl.write path data = (.ok (), cl.stored path data) := by
  unfold write
  rw [h]
  rfl

theorem write_failed {cl : ObsClient} {e : ErrorKind} (h : cl.fault = some e) (path : Str)
    (data : Bytes) : cl.write path data = (.error e, cl.sent (.write path data)) := by
  unfold write
  rw [h]

@[simp] theorem stored_lookup (cl : ObsClient) (path k : Str) (data : Bytes) :
    AList.lookup k (cl.stored path data).objects =
      if k = path then some data else AList.lookup k cl.objects :=
  Table.lookup_insert_if ..

@[simp] theorem stored_faults (cl : ObsClient) (path : Str) (data : Bytes) :
    (cl.stored path data).faults = cl.faults := rfl

@[simp] theorem stored_log (cl : ObsClient) (path : Str) (data : Bytes) :
    (cl.stored path data).log = cl.log ++ [.write path data] := rfl

theorem Reliable.stored {cl : ObsClient} (h : cl.Reliable) (path : Str) (data : Bytes) :
    (cl.stored path data).Reliable := h

/-- The key of a directory's marker. -/
def dirObject (path : Str) : Str := if path.getLast? = some '/' then path else path ++ ['/']

theorem createDir_ok {cl : ObsClient} (hf : cl.fault = none) (path : Str) : cl.createDir path =
    (.ok (), { cl.sent (.createDir (dirObject path)) with
      objects := cl.objects.insert (dirObject path) [] }) := by
  unfold createDir
  rw [hf]
  rfl

theorem delete_ok {cl : ObsClient} (hf : cl.fault = none) (path : Str) : cl.delete path =
    (.ok (), { cl.sent (.delete path) with objects := cl.objects.erase path }) := by
  unfold delete
  rw [hf]

/-- A delete leaves the object where it is only if it fails. -/
theorem delete_objects (cl : ObsClient) (path : Str) : (cl.delete path).2.objects =
    if cl.fault = none then cl.objects.erase path else cl.objects := by
  unfold delete
  cases cl.fault with
  | some e => rfl
  | none => rfl

theorem copy_failed {cl : ObsClient} {source target : Str}
    (h : cl.fault = none → cl.backend.refusesCopy source target = none →
      AList.lookup source cl.objects = none) :
    ∃ e, cl.copy source target = (.error e, cl.sent (.copy source target)) := by
  unfold copy
  cases hf : cl.fault with
  | some e => exact ⟨e, rfl⟩
  | none =>
    dsimp only
    cases hc : cl.backend.refusesCopy source target with
    | some e => exact ⟨e, rfl⟩
    | none =>
      dsimp only
      rw [h hf hc]
      exact ⟨.notFound, rfl⟩

def copied (cl : ObsClient) (source target : Str) (data : Bytes) : ObsClient :=
  { cl.sent (.copy source target) with objects := cl.objects.insert target data }

theorem copy_ok {cl : ObsClient} {source target : Str} (hf : cl.fault = none)
    (hc : cl.backend.refusesCopy source target = none) {data : Bytes}
    (h : AList.lookup source cl.objects = some data) :
    cl.copy source target = (.ok (), cl.copied source target data) := by
  unfold copy
  rw [hf]
  dsimp only
  rw [hc]
  dsimp only
  rw [h]
  rfl

theorem Reliable.copied {cl : ObsClient} (h : cl.Reliable) (source target : Str) (data : Bytes) :
    (cl.copied source target data).Reliable := h

end ObsClient

/-- The bucket, and what decides the answers to later requests. -/
structure ObsClient.SameBucket (cl cl' : ObsClient) : Prop where
  objects : cl'.objects = cl.objects
  faults : cl'.faults = cl.faults
  backend : cl'.backend = cl.backend

/-- What requests that delete nothing leave of a bucket. -/
structure ObsClient.Grows (cl cl' : ObsClient) : Prop where
  faults : cl'.faults = cl.faults
  objects : ∀ key ∈ cl.objects, key ∈ cl'.objects

/-- A storage library that has an answer for what is there: `stat` for each object, and for
each path that a listing returns; a listing for each directory with an object below it. -/
structure Backend.Finds (b : Backend) : Prop where
  stat : ∀ objects key, key ∈ objects → ∃ info, b.stat objects key = .ok info
  list : ∀ objects key k, k ∈ objects → key ++ ['/'] <+: k →
    ∃ listing, listing ≠ [] ∧ b.list objects (key ++ ['/']) = .ok listing ∧
      ∀ path ∈ listing, ∃ info, b.stat objects path = .ok info

namespace ObsClient
variable {cl cl' cl'' : ObsClient}

theorem SameBucket.refl (cl : ObsClient) : SameBucket cl cl := ⟨rfl, rfl, rfl⟩

theorem SameBucket.trans (h : SameBucket cl cl') (h' : SameBucket cl' cl'') :
    SameBucket cl cl'' :=
  ⟨h'.objects.trans h.objects, h'.faults.trans h.faults, h'.backend.trans h.backend⟩

theorem SameBucket.reliable (h : SameBucket cl cl') (hr : cl.Reliable) : cl'.Reliable := by
  intro n
  rw [h.faults]
  exact hr n

theorem sent_sameBucket (cl : ObsClient) (r : Request) : SameBucket cl (cl.sent r) :=
  ⟨rfl, rfl, rfl⟩

theorem Grows.refl (cl : ObsClient) : Grows cl cl := ⟨rfl, fun _ h => h⟩

theorem Grows.trans (h : Grows cl cl') (h' : Grows cl' cl'') : Grows cl cl'' :=
  ⟨h'.faults.trans h.faults, fun key hkey => h'.objects key (h.objects key hkey)⟩

theorem Grows.reliable (h : Grows cl cl') (hr : cl.Reliable) : cl'.Reliable := by
  intro n
  rw [h.faults]
  exact hr n

theorem stored_grows (cl : ObsClient) (path : Str) (data : Bytes) :
    Grows cl (cl.stored path data) :=
  ⟨rfl, fun _ hkey => (AList.mem_insert _).mpr (.inr hkey)⟩

theorem write_grows (cl : ObsClient) (path : Str) (data : Bytes) :
    Grows cl (cl.write path data).2 := by
  cases hf : cl.fault with
  | some e =>
    rw [write_failed hf]
    exact ⟨rfl, fun _ hkey => hkey⟩
  | none =>
    rw [write_stored hf]
    exact cl.stored_grows path data

theorem stat_sameBucket (cl : ObsClient) (path : Str) : SameBucket cl (cl.stat path).2 := by
  unfold stat
  split
  · exact cl.sent_sameBucket _
  · split
    · exact cl.sent_sameBucket _
    · exact cl.sent_sameBucket _

theorem statAll_sameBucket (cl : ObsClient) (paths : List Str) :
    SameBucket cl (cl.statAll paths).2 := by
  induction paths generalizing cl with
  | nil => exact .refl cl
  | cons path paths ih =>
    have hhead := cl.stat_sameBucket path
    unfold statAll
    generalize cl.stat path = r at hhead
    obtain ⟨_ | info, cl'⟩ := r
    · exact hhead
    · dsimp only
      have htail := hhead.trans (ih cl')
      generalize cl'.statAll paths = r at htail
      obtain ⟨_ | infos, cl''⟩ := r
      · exact htail
      · exact htail

theorem list_sameBucket (cl : ObsClient) (path : Str) : SameBucket cl (cl.list path).2 := by
  unfold list
  split
  · exact cl.sent_sameBucket _
  · split
    · exact cl.sent_sameBucket _
    · exact (cl.sent_sameBucket _).trans (statAll_sameBucket ..)

theorem readRange_sameBucket (cl : ObsClient) (path : Str) (offset size : ℕ) :
    SameBucket cl (cl.readRange path offset size).2 := by
  unfold readRange
  split
  · exact cl.sent_sameBucket _
  · split
    · exact cl.sent_sameBucket _
    · split
      · exact cl.sent_sameBucket _
      · exact cl.sent_sameBucket _

/-- The bytes that a read answers are those of the object in the range. -/
theorem readRange_ok {path : Str} {offset size : ℕ} {data : Bytes}
    (h : cl.readRange path offset size = (.ok data, cl')) :
    ∃ content, AList.lookup path cl.objects = some content ∧
      data = (content.drop offset).take size := by
  unfold readRange at h
  split at h
  · cases h
  · split at h
    · cases h
    · next content hcontent =>
      split at h
      · cases h
      · cases h
        exact ⟨content, hcontent, rfl⟩

theorem stat_ok_iff (hr : cl.Reliable) (path : Str) (info : ObjectMeta) :
    (cl.stat path).1 = .ok info ↔
      ∃ found, cl.backend.stat cl.objects path = .ok found ∧ info = .fromOpendal path found := by
  unfold stat
  rw [hr.fault]
  dsimp only
  cases cl.backend.stat cl.objects path with
  | error e => simp
  | ok found => simp [eq_comm]

/-- Without faults, the answers depend on the bucket alone. -/
theorem SameBucket.stat_answer (h : SameBucket cl cl') (hr : cl.Reliable) (path : Str) :
    (cl'.stat path).1 = (cl.stat path).1 := by
  unfold stat
  rw [hr.fault, (h.reliable hr).fault]
  dsimp only
  rw [h.backend, h.objects]
  cases cl.backend.stat cl.objects path with
  | error e => rfl
  | ok info => rfl

theorem SameBucket.statAll_answer (h : SameBucket cl cl') (hr : cl.Reliable) (paths : List Str) :
    (cl'.statAll paths).1 = (cl.statAll paths).1 := by
  induction paths generalizing cl cl' with
  | nil => rfl
  | cons path paths ih =>
    have hhead := h.stat_answer hr path
    have hsame := cl.stat_sameBucket path
    have hsame' := cl'.stat_sameBucket path
    unfold statAll
    generalize cl.stat path = r at hhead hsame
    generalize cl'.stat path = r' at hhead hsame'
    obtain ⟨answer, t⟩ := r
    obtain ⟨answer', t'⟩ := r'
    dsimp only at hhead hsame hsame'
    subst hhead
    cases answer' with
    | error e => rfl
    | ok info =>
      have hback : SameBucket t t' :=
        ⟨hsame'.objects.trans (h.objects.trans hsame.objects.symm),
          hsame'.faults.trans (h.faults.trans hsame.faults.symm),
          hsame'.backend.trans (h.backend.trans hsame.backend.symm)⟩
      have htail := ih hback (hsame.reliable hr)
      dsimp only
      generalize t.statAll paths = r at htail
      generalize t'.statAll paths = r' at htail
      obtain ⟨answer, u⟩ := r
      obtain ⟨answer', u'⟩ := r'
      dsimp only at htail
      subst htail
      cases answer' with
      | error e => rfl
      | ok infos => rfl

theorem SameBucket.list_answer (h : SameBucket cl cl') (hr : cl.Reliable) (path : Str) :
    (cl'.list path).1 = (cl.list path).1 := by
  unfold list
  rw [hr.fault, (h.reliable hr).fault]
  dsimp only
  rw [h.backend, h.objects]
  cases cl.backend.list cl.objects path with
  | error e => rfl
  | ok entries =>
    have hsent : SameBucket (cl.sent (.list path)) (cl'.sent (.list path)) :=
      ⟨h.objects, h.faults, h.backend⟩
    exact hsent.statAll_answer hr entries

theorem stat_sent (cl : ObsClient) (path : Str) : (cl.stat path).2 = cl.sent (.stat path) := by
  unfold stat
  split
  · rfl
  · split
    · rfl
    · rfl

theorem stat_path {path : Str} {info : ObjectMeta} (h : (cl.stat path).1 = .ok info) :
    info.path = path := by
  unfold stat at h
  split at h
  · cases h
  · split at h
    · cases h
    · cases h
      rfl

theorem stat_answered {path : Str} {info : ObjectMeta} (h : (cl.stat path).1 = .ok info) :
    ∃ found, cl.backend.stat cl.objects path = .ok found ∧ info = .fromOpendal path found := by
  unfold stat at h
  split at h
  · cases h
  · split at h
    · cases h
    · next found hfound =>
      cases h
      exact ⟨found, hfound, rfl⟩

theorem statAll_infos {paths : List Str} {infos : List ObjectMeta}
    (h : (cl.statAll paths).1 = .ok infos) :
    ∀ info ∈ infos, ∃ found, cl.backend.stat cl.objects info.path = .ok found ∧
      info = .fromOpendal info.path found := by
  induction paths generalizing cl infos with
  | nil =>
    cases h
    exact nofun
  | cons path paths ih =>
    have hsame := cl.stat_sameBucket path
    have hfound := @stat_answered cl path
    unfold statAll at h
    generalize cl.stat path = r at h hsame hfound
    obtain ⟨_ | first, cl'⟩ := r
    · cases h
    · dsimp only at h hsame hfound
      have htail := @ih cl'
      generalize cl'.statAll paths = r at h htail
      obtain ⟨_ | rest, cl''⟩ := r
      · cases h
      · cases h
        intro info hmem
        rcases List.mem_cons.mp hmem with hhead | hrest
        · obtain ⟨found, hstat, heq⟩ := hfound rfl
          rw [hhead, heq]
          exact ⟨found, hstat, rfl⟩
        · have hinfo := htail rfl info hrest
          rw [hsame.backend, hsame.objects] at hinfo
          exact hinfo

/-- What a listing returns is what the storage library says of each listed path. -/
theorem list_infos {key : Str} {infos : List ObjectMeta} (h : (cl.list key).1 = .ok infos) :
    ∀ info ∈ infos, ∃ found, cl.backend.stat cl.objects info.path = .ok found ∧
      info = .fromOpendal info.path found := by
  unfold list at h
  split at h
  · cases h
  · split at h
    · cases h
    · next entries _ => exact @statAll_infos (cl.sent (.list key)) entries infos h

/-- A listing that succeeds has made one request for each path, in order. -/
theorem statAll_answered {paths : List Str} {infos : List ObjectMeta}
    (h : (cl.statAll paths).1 = .ok infos) :
    infos.map (·.path) = paths ∧ (cl.statAll paths).2.log = cl.log ++ paths.map .stat := by
  induction paths generalizing cl infos with
  | nil =>
    cases h
    exact ⟨rfl, (List.append_nil _).symm⟩
  | cons path paths ih =>
    have hsent := cl.stat_sent path
    have hpath := @stat_path cl path
    unfold statAll at h ⊢
    generalize cl.stat path = r at h hsent hpath
    obtain ⟨_ | info, cl'⟩ := r
    · cases h
    · dsimp only at h hsent ⊢
      have htail := @ih cl'
      generalize cl'.statAll paths = r at h htail
      obtain ⟨_ | rest, cl''⟩ := r
      · cases h
      · cases h
        obtain ⟨hpaths, hlog⟩ := htail rfl
        dsimp only at hlog ⊢
        refine ⟨by rw [List.map_cons, hpaths, hpath rfl], ?_⟩
        rw [hlog, hsent, sent_log, List.append_assoc]
        rfl

theorem list_answered {key : Str} {infos : List ObjectMeta} (h : (cl.list key).1 = .ok infos) :
    cl.backend.list cl.objects key = .ok (infos.map (·.path)) ∧
      (cl.list key).2.log = cl.log ++ .list key :: infos.map fun info => .stat info.path := by
  unfold list at h ⊢
  split at h
  · cases h
  · split at h
    · cases h
    · next entries hlist =>
      rw [hlist]
      obtain ⟨hpaths, hlog⟩ := statAll_answered h
      refine ⟨by rw [hpaths], ?_⟩
      rw [hlog, ← hpaths, sent_log, List.append_assoc, List.map_map]
      rfl

theorem statAll_ok (hr : cl.Reliable) {paths : List Str}
    (hstat : ∀ path ∈ paths, ∃ info, cl.backend.stat cl.objects path = .ok info) :
    ∃ infos, (cl.statAll paths).1 = .ok infos ∧ infos.map (·.path) = paths := by
  induction paths generalizing cl with
  | nil => exact ⟨[], rfl, rfl⟩
  | cons path paths ih =>
    obtain ⟨info, hinfo⟩ := hstat path (List.mem_cons_self ..)
    have hhead : cl.stat path = (.ok (.fromOpendal path info), cl.sent (.stat path)) := by
      unfold stat
      rw [hr.fault, hinfo]
    obtain ⟨infos, htail, hpaths⟩ := @ih (cl.sent (.stat path)) hr
      fun p hp => hstat p (List.mem_cons_of_mem _ hp)
    refine ⟨.fromOpendal path info :: infos, ?_, ?_⟩
    · unfold statAll
      rw [hhead]
      dsimp only
      generalize (cl.sent (.stat path)).statAll paths = r at htail
      obtain ⟨answer, cl'⟩ := r
      dsimp only at htail
      rw [htail]
    · rw [List.map_cons, hpaths]
      rfl

theorem list_ok (hr : cl.Reliable) {key : Str} {listing : List Str}
    (hlist : cl.backend.list cl.objects key = .ok listing)
    (hstat : ∀ path ∈ listing, ∃ info, cl.backend.stat cl.objects path = .ok info) :
    ∃ infos, (cl.list key).1 = .ok infos ∧ infos.map (·.path) = listing := by
  obtain ⟨infos, hok, hpaths⟩ := @statAll_ok (cl.sent (.list key)) hr listing hstat
  refine ⟨infos, ?_, hpaths⟩
  unfold list
  rw [hr.fault]
  dsimp only
  rw [hlist]
  exact hok

theorem stat_ok (hr : cl.Reliable) (hf : cl.backend.Finds) {key : Str} (hkey : key ∈ cl.objects) :
    ∃ info, (cl.stat key).1 = .ok info := by
  obtain ⟨found, hfound⟩ := hf.stat cl.objects key hkey
  exact ⟨_, (stat_ok_iff hr key _).mpr ⟨found, hfound, rfl⟩⟩

theorem list_below_ok (hr : cl.Reliable) (hf : cl.backend.Finds) {key k : Str}
    (hk : k ∈ cl.objects) (hbelow : key ++ ['/'] <+: k) :
    ∃ info infos, (cl.list (key ++ ['/'])).1 = .ok (info :: infos) := by
  obtain ⟨listing, hne, hlist, hstat⟩ := hf.list cl.objects key k hk hbelow
  obtain ⟨infos, hok, hpaths⟩ := list_ok hr hlist hstat
  cases infos with
  | nil => exact absurd hpaths.symm hne
  | cons info infos => exact ⟨info, infos, hok⟩

end ObsClient

theorem Backend.plain_readsInside : Backend.plain.ReadsInside := by
  intro content offset size hinside
  exact if_pos hinside

theorem Backend.plain_finds : Backend.plain.Finds where
  stat objects key hkey := by
    obtain ⟨data, hdata⟩ := Option.isSome_iff_exists.mp (AList.lookup_isSome.mpr hkey)
    simp only [plain]
    rw [hdata]
    exact ⟨_, rfl⟩
  list objects key k hk hbelow := by
    refine ⟨objects.keys.filter fun k => (key ++ ['/']).isPrefixOf k, ?_, rfl, ?_⟩
    · have hmem : k ∈ objects.keys.filter fun k => (key ++ ['/']).isPrefixOf k :=
        List.mem_filter.mpr ⟨hk, List.isPrefixOf_iff_prefix.mpr hbelow⟩
      exact List.ne_nil_of_mem hmem
    · intro path hpath
      have hin : path ∈ objects := (List.mem_filter.mp hpath).1
      obtain ⟨data, hdata⟩ := Option.isSome_iff_exists.mp (AList.lookup_isSome.mpr hin)
      simp only [plain]
      rw [hdata]
      exact ⟨_, rfl⟩

end ObsFuse
