import ObsFuse.Fs.LookupPath
import ObsFuse.Fs.Mount
import ObsFuse.Fs.Steps

/-! # Lookups of a name while it is created

A lookup asks the storage up to three questions before it remembers that a name is not there;
a creation makes the object, and then forgets that it was not. Here is which interleavings at
the requests leave the new name denied. A request is answered in one step and its caller goes
on with the answer in another. -/

namespace ObsFuse
open Lib

/-- Where a lookup is: about to ask, with the answer, or returned. While a listing is taken,
the paths that are still to be asked for and what is known of the others. -/
inductive LookupTask where
  | statFile (path : Str)
  | fileAnswer (path : Str) (answer : Except ErrorKind ObjectMeta)
  | statDir (path : Str)
  | dirAnswer (path : Str) (answer : Except ErrorKind ObjectMeta)
  | list (path : Str)
  | listed (path : Str) (rest : List Str) (infos : List ObjectMeta)
  | listFailed (path : Str)
  | returned (answer : FsResult (ℕ × FileAttr))

/-- The path that the lookup will store as absent when it goes on. -/
def LookupTask.denies : LookupTask → Option Str
  | .listed path [] [] | .listFailed path => some path
  | _ => none

inductive Creation where
  | create (mode flags : ℕ)
  | mkdir (mode : ℕ)

inductive CreationTask where
  | pending
  | asked (path : Str)
  | answered (path : Str) (answer : Except ErrorKind Unit)
  | failed
  | done (path : Str)

def Creation.toOp (now : Now) (parent : ℕ) (name : OsStr) : Creation → FsOp
  | .create mode flags => .create now parent name mode flags
  | .mkdir mode => .mkdir now parent name mode

/-- The path that has been created. -/
def CreationTask.created : CreationTask → Option Str
  | .done path => some path
  | _ => none

/-- `ObsClient::list` up to the answer of the storage. -/
def ObsClient.listRequest (cl : ObsClient) (path : Str) :
    Except ErrorKind (List Str) × ObsClient :=
  match cl.fault with
  | some e => (.error e, cl.sent (.list path))
  | none => (cl.backend.list cl.objects path, cl.sent (.list path))

theorem ObsClient.listRequest_sameBucket (cl : ObsClient) (path : Str) :
    cl.SameBucket (cl.listRequest path).2 := by
  unfold listRequest
  split
  · exact cl.sent_sameBucket _
  · exact cl.sent_sameBucket _

namespace ObsFsCore

/-- `do_lookup` up to its first request. -/
def beginLookup (s : ObsFsCore) (now : Now) (parent : ℕ) (name : OsStr) :
    LookupTask × ObsFsCore :=
  match s.inodeMgr.getPath parent with
  | none => (.returned (.err .notFound), s)
  | some parentPath =>
    let path := childPath parentPath name
    let (negative, cache) := s.metadataCache.isNegative now.instant path
    let s := { s with metadataCache := cache }
    if negative then (.returned (.err .notFound), s)
    else
      match s.inodeMgr.getInode path with
      | none => (.statFile path, s)
      | some inode =>
        let (attr, cache) := s.metadataCache.getAttr now.instant inode
        let s := { s with metadataCache := cache }
        match attr with
        | some attr => (.returned (.ok (inode, attr)), s)
        | none => (.statFile path, s)

/-- The storage answers the request that the lookup waits for. -/
def serveLookup (s : ObsFsCore) : LookupTask → LookupTask × ObsFsCore
  | .statFile path =>
    let (answer, cl) := s.obsClient.stat (s.obsPath path)
    (.fileAnswer path answer, { s with obsClient := cl })
  | .statDir path =>
    let (answer, cl) := s.obsClient.stat (dirKey (s.obsPath path))
    (.dirAnswer path answer, { s with obsClient := cl })
  | .list path =>
    match s.obsClient.listRequest (dirKey (s.obsPath path)) with
    | (.ok entries, cl) => (.listed path entries [], { s with obsClient := cl })
    | (.error _, cl) => (.listFailed path, { s with obsClient := cl })
  | .listed path (entry :: rest) infos =>
    match s.obsClient.stat entry with
    | (.ok info, cl) => (.listed path rest (infos ++ [info]), { s with obsClient := cl })
    | (.error _, cl) => (.listFailed path, { s with obsClient := cl })
  | task => (task, s)

/-- The lookup goes on with an answer, up to its next request or its return. -/
def resumeLookup (s : ObsFsCore) (now : Now) : LookupTask → LookupTask × ObsFsCore
  | .fileAnswer path (.ok info) =>
    let (r, s) := s.internInode now path info.isDir info.size
      fun inode => s.config.permission.fromObjectMeta now inode info
    (.returned (.ok r), s)
  | .fileAnswer path (.error _) => (.statDir path, s)
  | .dirAnswer path (.ok info) =>
    let (r, s) := s.internInode now path true 0
      fun inode => s.config.permission.fromObjectMeta now inode info
    (.returned (.ok r), s)
  | .dirAnswer path (.error _) => (.list path, s)
  | .listed path [] (_ :: _) =>
    let (r, s) := s.internInode now path true 0
      fun inode => s.config.permission.newDirectory now inode none
    (.returned (.ok r), s)
  | .listed path [] [] | .listFailed path =>
    (.returned (.err .notFound),
      { s with metadataCache := s.metadataCache.putNegative now.instant path })
  | task => (task, s)

def serveCreation (s : ObsFsCore) (kind : Creation) : CreationTask → CreationTask × ObsFsCore
  | .asked path =>
    let (answer, cl) :=
      match kind with
      | .create .. => s.obsClient.write (s.obsPath path) []
      | .mkdir _ => s.obsClient.createDir (s.obsPath path)
    (.answered path answer, { s with obsClient := cl })
  | task => (task, s)

/-- `do_create` or `do_mkdir` from the answer of its request on. -/
def resumeCreation (s : ObsFsCore) (kind : Creation) (parent : ℕ) (now : Now) :
    CreationTask → CreationTask × ObsFsCore
  | .answered path (.ok _) =>
    match kind with
    | .create mode flags =>
      let ((inode, _), s) := s.internInode now path false 0
        fun inode => s.config.permission.newFile now inode (some mode)
      let (_, handleMgr) := s.handleMgr.openHandle now.instant inode flags false
      (.done path, { s with
        metadataCache := (s.metadataCache.removeNegative path).invalidateDir parent
        handleMgr := handleMgr })
    | .mkdir mode =>
      let (_, s) := s.internInode now path true 0
        fun inode => s.config.permission.newDirectory now inode (some mode)
      (.done path, { s with
        metadataCache := (s.metadataCache.removeNegative path).invalidateDir parent })
  | .answered _ (.error _) => (.failed, s)
  | task => (task, s)

end ObsFsCore

/-- The core, the lookups so far, and the creation. -/
structure NameRace where
  core : ObsFsCore
  lookups : Table ℕ LookupTask
  creation : CreationTask

inductive RaceStep where
  | beginLookup (call : ℕ) (now : Now)
  | serveLookup (call : ℕ)
  | resumeLookup (call : ℕ) (now : Now)
  | beginCreation
  | serveCreation
  | resumeCreation (now : Now)

namespace NameRace

section
variable (kind : Creation) (parent : ℕ) (name : OsStr)

def start (core : ObsFsCore) : NameRace := ⟨core, ∅, .pending⟩

/-- A lookup of the name changes to a task. -/
def put (s : NameRace) (call : ℕ) (r : LookupTask × ObsFsCore) : NameRace :=
  { s with core := r.2, lookups := s.lookups.insert call r.1 }

def step (s : NameRace) : RaceStep → NameRace
  | .beginLookup call now =>
    match s.lookups.lookup call with
    | some _ => s
    | none => s.put call (s.core.beginLookup now parent name)
  | .serveLookup call =>
    match s.lookups.lookup call with
    | some task => s.put call (s.core.serveLookup task)
    | none => s
  | .resumeLookup call now =>
    match s.lookups.lookup call with
    | some task => s.put call (s.core.resumeLookup now task)
    | none => s
  | .beginCreation =>
    match s.creation, s.core.inodeMgr.getPath parent with
    | .pending, some parentPath =>
      { s with creation := .asked (ObsFsCore.childPath parentPath name) }
    | .pending, none => { s with creation := .failed }
    | _, _ => s
  | .serveCreation =>
    let (task, core) := s.core.serveCreation kind s.creation
    { s with core := core, creation := task }
  | .resumeCreation now =>
    let (task, core) := s.core.resumeCreation kind parent now s.creation
    { s with core := core, creation := task }

end

/-- No lookup that has found nothing stores this after the creation has returned. -/
def InTime (s : NameRace) : RaceStep → Prop
  | .resumeLookup call _ =>
    ∀ path ∈ s.creation.created, ∀ task ∈ AList.lookup call s.lookups, task.denies ≠ some path
  | _ => True

instance decidableInTime (s : NameRace) : (a : RaceStep) → Decidable (s.InTime a)
  | .resumeLookup .. => inferInstanceAs (Decidable (∀ path ∈ _, ∀ task ∈ _, _))
  | .beginLookup .. | .serveLookup _ | .beginCreation | .serveCreation | .resumeCreation _ =>
    isTrue trivial

end NameRace

namespace ObsFsCore
variable {s : ObsFsCore}

/-- What a step of a lookup leaves alone, and the path that it stores as absent. -/
structure Looking (s s' : ObsFsCore) (denied : Option Str) : Prop where
  config : s'.config = s.config
  client : s.obsClient.SameBucket s'.obsClient
  negative : ∀ path, AList.lookup path s.metadataCache.negativeCache = none →
    (AList.lookup path s'.metadataCache.negativeCache = none ↔ denied ≠ some path)

theorem Looking.of_negativeCache {s s' : ObsFsCore} (hconfig : s'.config = s.config)
    (hclient : s.obsClient.SameBucket s'.obsClient)
    (hneg : ∀ path, AList.lookup path s.metadataCache.negativeCache = none →
      AList.lookup path s'.metadataCache.negativeCache = none) : Looking s s' none where
  config := hconfig
  client := hclient
  negative path h := iff_of_true (hneg path h) (Option.some_ne_none path).symm

theorem Looking.refl (s : ObsFsCore) : Looking s s none :=
  .of_negativeCache rfl (.refl _) fun _ h => h

theorem beginLookup_looking (s : ObsFsCore) (now : Now) (parent : ℕ) (name : OsStr) :
    Looking s (s.beginLookup now parent name).2 none := by
  have hneg : ∀ path, AList.lookup path s.metadataCache.negativeCache = none → ∀ q,
      AList.lookup path (s.metadataCache.isNegative now.instant q).2.negativeCache = none := by
    intro path hnone q
    rw [Option.eq_none_iff_forall_ne_some]
    intro t ht
    have hold := MetadataCache.isNegative_lookup _ _ ht
    rw [hnone] at hold
    cases hold
  unfold beginLookup
  split
  · exact .refl s
  · dsimp only
    split
    · exact .of_negativeCache rfl (.refl _) fun path h => hneg path h _
    · split
      · exact .of_negativeCache rfl (.refl _) fun path h => hneg path h _
      · split
        · refine .of_negativeCache rfl (.refl _) ?_
          intro path h
          rw [MetadataCache.getAttr_negativeCache]
          exact hneg path h _
        · refine .of_negativeCache rfl (.refl _) ?_
          intro path h
          rw [MetadataCache.getAttr_negativeCache]
          exact hneg path h _

theorem serveLookup_looking (s : ObsFsCore) (task : LookupTask) :
    Looking s (s.serveLookup task).2 none := by
  have hasked : ∀ {cl : ObsClient}, s.obsClient.SameBucket cl →
      Looking s { s with obsClient := cl } none :=
    fun hcl => .of_negativeCache rfl hcl fun _ h => h
  unfold serveLookup
  split
  · exact hasked (s.obsClient.stat_sameBucket _)
  · exact hasked (s.obsClient.stat_sameBucket _)
  · next p =>
    have hlist := s.obsClient.listRequest_sameBucket (dirKey (s.obsPath p))
    split
    · next heq => exact hasked (by rw [heq] at hlist; exact hlist)
    · next heq => exact hasked (by rw [heq] at hlist; exact hlist)
  · next entry _ _ =>
    have hstat := s.obsClient.stat_sameBucket entry
    split
    · next heq => exact hasked (by rw [heq] at hstat; exact hstat)
    · next heq => exact hasked (by rw [heq] at hstat; exact hstat)
  · exact .refl s

theorem internInode_looking (s : ObsFsCore) (now : Now) (path : Str) (isDir : Bool) (size : ℕ)
    (attr : ℕ → FileAttr) : Looking s (s.internInode now path isDir size attr).2 none := by
  refine .of_negativeCache rfl (.refl _) ?_
  intro q h
  simp only [internInode]
  rw [MetadataCache.putAttr_negativeCache]
  exact h

theorem resumeLookup_looking (s : ObsFsCore) (now : Now) (task : LookupTask) :
    Looking s (s.resumeLookup now task).2 task.denies := by
  have hdenied : ∀ p, Looking s
      { s with metadataCache := s.metadataCache.putNegative now.instant p } (some p) := by
    intro p
    refine ⟨rfl, .refl _, ?_⟩
    intro path hnone
    unfold MetadataCache.putNegative
    rw [Table.lookup_insert_if, hnone]
    by_cases heq : path = p
    · simp [heq]
    · simp [heq, Ne.symm heq]
  unfold resumeLookup
  split
  · next p info =>
    have h := s.internInode_looking now p info.isDir info.size
      fun inode => s.config.permission.fromObjectMeta now inode info
    exact h
  · exact .refl s
  · next p info =>
    have h := s.internInode_looking now p true 0
      fun inode => s.config.permission.fromObjectMeta now inode info
    exact h
  · exact .refl s
  · next p _ _ =>
    have h := s.internInode_looking now p true 0
      fun inode => s.config.permission.newDirectory now inode none
    exact h
  · exact hdenied _
  · exact hdenied _
  · next _ _ _ _ _ h₁ h₂ =>
    have hnone : task.denies = none := by
      unfold LookupTask.denies
      split
      · exact absurd rfl (h₁ _)
      · exact absurd rfl (h₂ _)
      · rfl
    rw [hnone]
    exact .refl s

end ObsFsCore

/-- The key of the object that the creation makes. -/
def Creation.key : Creation → Str → Str
  | .create .., obs => obs
  | .mkdir _, obs => ObsClient.dirObject obs

theorem Creation.covers_key (kind : Creation) (obs : Str) :
    ObsFsCore.Covers obs (kind.key obs) := by
  cases kind with
  | create mode flags => exact .inl rfl
  | mkdir mode =>
    show ObsFsCore.Covers obs (if _ then _ else _)
    split
    · exact .inl rfl
    · exact .inr (List.prefix_refl _)

namespace NameRace
variable {kind : Creation} {parent : ℕ} {name : OsStr} {s : NameRace}

/-- The created name is not denied, at any time, and the next lookup finds it. -/
def Found (parent : ℕ) (name : OsStr) (s : NameRace) : Prop :=
  ∀ path ∈ s.creation.created, ∀ now : Now,
    (s.core.metadataCache.isNegative now.instant path).1 = false ∧
      ∀ parentPath ∈ s.core.inodeMgr.getPath parent, path = ObsFsCore.childPath parentPath name →
        (s.core.doLookup now parent name).1.isOk = true

/-- The object is there once its request has been answered. -/
structure Made (kind : Creation) (s : NameRace) : Prop where
  reliable : s.core.obsClient.Reliable
  finds : s.core.obsClient.backend.Finds
  object : ∀ path, s.creation = .answered path (.ok ()) ∨ s.creation = .done path →
    kind.key (s.core.obsPath path) ∈ s.core.obsClient.objects

/-- No lookup has denied the created path. -/
def Clear (s : NameRace) : Prop :=
  ∀ path ∈ s.creation.created, AList.lookup path s.core.metadataCache.negativeCache = none

theorem Made.found_iff (h : s.Made kind) : s.Found parent name ↔ s.Clear := by
  constructor
  · intro hfound path hpath
    rw [Option.eq_none_iff_forall_ne_some]
    intro t ht
    -- at the time at which it is stored, the entry counts
    have hneg := (hfound path hpath ⟨t, 0⟩).1
    rw [← Bool.not_eq_true, MetadataCache.isNegative_iff] at hneg
    refine hneg ⟨t, ht, ?_⟩
    rw [Nat.sub_self]
    exact Nat.zero_le _
  · intro hclear path hpath now
    have hneg : (s.core.metadataCache.isNegative now.instant path).1 = false := by
      rw [← Bool.not_eq_true, MetadataCache.isNegative_iff, hclear path hpath]
      intro hex
      obtain ⟨t, ht, -⟩ := hex
      cases ht
    refine ⟨hneg, ?_⟩
    intro parentPath hparent heq
    have hdone : s.creation = .done path := by
      cases hc : s.creation with
      | done p =>
        rw [hc] at hpath
        rw [Option.some.inj hpath]
      | pending | asked _ | answered _ _ | failed =>
        rw [hc] at hpath
        cases hpath
    have hpresent : ¬s.core.Absent path :=
      fun habsent => habsent _ (h.object path (.inr hdone)) (kind.covers_key _)
    rw [heq] at hneg hpresent
    exact ObsFsCore.doLookup_ok h.reliable h.finds hparent hpresent hneg

theorem Made.put (h : s.Made kind) {r : LookupTask × ObsFsCore} {denied : Option Str}
    (hr : ObsFsCore.Looking s.core r.2 denied) (call : ℕ) : (s.put call r).Made kind := by
  refine ⟨hr.client.reliable h.reliable, ?_, ?_⟩
  · show r.2.obsClient.backend.Finds
    rw [hr.client.backend]
    exact h.finds
  · intro path hpath
    show kind.key (r.2.obsPath path) ∈ r.2.obsClient.objects
    rw [hr.client.objects, ObsFsCore.obsPath_congr hr.config]
    exact h.object path hpath

/-- A step of a lookup keeps the created path clear unless it denies it. -/
theorem Clear.put_iff (h : s.Clear) {r : LookupTask × ObsFsCore} {denied : Option Str}
    (hr : ObsFsCore.Looking s.core r.2 denied) (call : ℕ) :
    (s.put call r).Clear ↔ ∀ path ∈ s.creation.created, denied ≠ some path := by
  apply forall₂_congr
  intro path hpath
  exact hr.negative path (h path hpath)

theorem Made.beginCreation (h : s.Made kind) :
    (s.step kind parent name .beginCreation).Made kind ∧
      (s.Clear → (s.step kind parent name .beginCreation).Clear) := by
  have hother : ∀ task, (∀ path, task ≠ .answered path (.ok ()) ∧ task ≠ .done path) →
      Made kind { s with creation := task } := by
    intro task htask
    refine ⟨h.reliable, h.finds, ?_⟩
    intro path hpath
    rcases hpath with hanswered | hdone
    · exact absurd hanswered (htask path).1
    · exact absurd hdone (htask path).2
  simp only [step]
  split
  · refine ⟨hother _ fun path => ⟨nofun, nofun⟩, ?_⟩
    intro _ path hpath
    cases hpath
  · refine ⟨hother _ fun path => ⟨nofun, nofun⟩, ?_⟩
    intro _ path hpath
    cases hpath
  · exact ⟨h, id⟩

theorem Made.serveCreation (h : s.Made kind) :
    (s.step kind parent name .serveCreation).Made kind ∧
      (s.Clear → (s.step kind parent name .serveCreation).Clear) := by
  obtain ⟨core, lookups, creation⟩ := s
  cases creation with
  | pending | answered _ _ | failed | done _ => exact ⟨h, id⟩
  | asked path =>
    refine ⟨?_, fun _ _ hcreated => by cases hcreated⟩
    have hobject : ∀ {cl : ObsClient}, cl.objects =
        core.obsClient.objects.insert (kind.key (core.obsPath path)) [] →
        kind.key (core.obsPath path) ∈ cl.objects := by
      intro cl heq
      rw [heq, AList.mem_insert]
      exact .inl rfl
    cases kind with
    | create mode flags =>
      simp only [step, ObsFsCore.serveCreation]
      rw [ObsClient.write_stored h.reliable.fault]
      refine ⟨h.reliable.stored _ _, h.finds, ?_⟩
      intro p hp
      rcases hp with heq | heq
      · cases heq
        exact hobject rfl
      · cases heq
    | mkdir mode =>
      simp only [step, ObsFsCore.serveCreation]
      rw [ObsClient.createDir_ok h.reliable.fault]
      refine ⟨h.reliable, h.finds, ?_⟩
      intro p hp
      rcases hp with heq | heq
      · cases heq
        exact hobject rfl
      · cases heq

/-- The creation goes on with its answer: what it leaves alone, and the entry it removes. -/
theorem resumeCreation_answered (core : ObsFsCore) (kind : Creation) (parent : ℕ) (now : Now)
    (path : Str) :
    let r := core.resumeCreation kind parent now (.answered path (.ok ()))
    r.1 = .done path ∧ r.2.config = core.config ∧ r.2.obsClient = core.obsClient ∧
      AList.lookup path r.2.metadataCache.negativeCache = none := by
  cases kind with
  | create mode flags => exact ⟨rfl, rfl, rfl, AList.lookup_erase ..⟩
  | mkdir mode => exact ⟨rfl, rfl, rfl, AList.lookup_erase ..⟩

theorem Made.resumeCreation (h : s.Made kind) (now : Now) :
    (s.step kind parent name (.resumeCreation now)).Made kind ∧
      (s.Clear → (s.step kind parent name (.resumeCreation now)).Clear) := by
  obtain ⟨core, lookups, creation⟩ := s
  cases creation with
  | pending | asked _ | failed | done _ => exact ⟨h, id⟩
  | answered path answer =>
    cases answer with
    | error e =>
      refine ⟨⟨h.reliable, h.finds, ?_⟩, fun _ _ hcreated => by cases hcreated⟩
      intro p hp
      rcases hp with heq | heq
      · cases heq
      · cases heq
    | ok u =>
      obtain ⟨htask, hconfig, hclient, hclear⟩ :=
        resumeCreation_answered core kind parent now path
      unfold step
      dsimp only at htask hconfig hclient hclear ⊢
      generalize core.resumeCreation kind parent now (.answered path (.ok ())) = r
        at htask hconfig hclient hclear ⊢
      obtain ⟨task, core'⟩ := r
      dsimp only at htask hconfig hclient hclear ⊢
      rw [htask]
      have hmade := h.object path (.inl rfl)
      refine ⟨⟨?_, ?_, ?_⟩, ?_⟩
      · rw [hclient]
        exact h.reliable
      · rw [hclient]
        exact h.finds
      · intro p hp
        rcases hp with heq | heq
        · cases heq
        · cases heq
          rw [hclient, ObsFsCore.obsPath_congr hconfig]
          exact hmade
      · intro _ p hp
        cases hp
        exact hclear

/-- A step keeps the account, and denies the created path exactly when it is out of time. -/
theorem Made.step (h : s.Made kind) (a : RaceStep) :
    (s.step kind parent name a).Made kind ∧
      (s.Clear → ((s.step kind parent name a).Clear ↔ s.InTime a)) := by
  have hquiet : ∀ r : LookupTask × ObsFsCore, ObsFsCore.Looking s.core r.2 none → ∀ call,
      (s.put call r).Made kind ∧ (s.Clear → ((s.put call r).Clear ↔ True)) := by
    intro r hr call
    refine ⟨h.put hr call, ?_⟩
    intro hclear
    rw [hclear.put_iff hr call]
    exact iff_of_true (fun path _ => (Option.some_ne_none path).symm) trivial
  cases a with
  | beginLookup call now =>
    simp only [NameRace.step]
    split
    · exact ⟨h, fun hclear => iff_of_true hclear trivial⟩
    · exact hquiet _ (s.core.beginLookup_looking now parent name) call
  | serveLookup call =>
    simp only [NameRace.step]
    split
    · exact hquiet _ (s.core.serveLookup_looking _) call
    · exact ⟨h, fun hclear => iff_of_true hclear trivial⟩
  | resumeLookup call now =>
    simp only [NameRace.step, InTime]
    cases htask : AList.lookup call s.lookups with
    | some task =>
      have hr := s.core.resumeLookup_looking now task
      refine ⟨h.put hr call, ?_⟩
      intro hclear
      rw [hclear.put_iff hr call]
      simp
    | none =>
      refine ⟨h, fun hclear => iff_of_true hclear ?_⟩
      intro path _ task hnone
      cases hnone
  | beginCreation => exact ⟨h.beginCreation.1, fun hc => iff_of_true (h.beginCreation.2 hc) trivial⟩
  | serveCreation => exact ⟨h.serveCreation.1, fun hc => iff_of_true (h.serveCreation.2 hc) trivial⟩
  | resumeCreation now =>
    exact ⟨(h.resumeCreation now).1, fun hc => iff_of_true ((h.resumeCreation now).2 hc) trivial⟩

/-! ### Calls that are not interrupted -/

/-- Steps of the call alone take its lookup from one task to another. -/
def Reaches (kind : Creation) (parent : ℕ) (name : OsStr) (s : NameRace) (call : ℕ)
    (r r' : LookupTask × ObsFsCore) : Prop :=
  ∃ steps, run (step kind parent name) (s.put call r) steps = s.put call r'

variable {call : ℕ} {r r' r'' : LookupTask × ObsFsCore}

theorem Reaches.refl : Reaches kind parent name s call r r := ⟨[], rfl⟩

theorem Reaches.trans (h : Reaches kind parent name s call r r')
    (h' : Reaches kind parent name s call r' r'') : Reaches kind parent name s call r r'' := by
  obtain ⟨steps, hsteps⟩ := h
  obtain ⟨steps', hsteps'⟩ := h'
  exact ⟨steps ++ steps', by rw [run_append, hsteps, hsteps']⟩

theorem put_put (s : NameRace) (call : ℕ) (r r' : LookupTask × ObsFsCore) :
    (s.put call r).put call r' = s.put call r' := by
  unfold put
  rw [AList.insert_insert]

theorem Reaches.serve : Reaches kind parent name s call r (r.2.serveLookup r.1) := by
  refine ⟨[.serveLookup call], ?_⟩
  have hcall : AList.lookup call (s.put call r).lookups = some r.1 := AList.lookup_insert _
  rw [run_cons, run_nil]
  simp only [step]
  rw [hcall]
  exact s.put_put call r _

theorem Reaches.resume (now : Now) :
    Reaches kind parent name s call r (r.2.resumeLookup now r.1) := by
  refine ⟨[.resumeLookup call now], ?_⟩
  have hcall : AList.lookup call (s.put call r).lookups = some r.1 := AList.lookup_insert _
  rw [run_cons, run_nil]
  simp only [step]
  rw [hcall]
  exact s.put_put call r _

theorem Reaches.turn (now : Now) (h : r.2.serveLookup r.1 = r') :
    Reaches kind parent name s call r (r'.2.resumeLookup now r'.1) := by
  rw [← h]
  exact Reaches.serve.trans (.resume now)

theorem reaches_listed (path : Str) (rest : List Str) (infos : List ObjectMeta)
    (core : ObsFsCore) : Reaches kind parent name s call (.listed path rest infos, core)
      (match core.obsClient.statAll rest with
        | (.ok more, cl) => (.listed path [] (infos ++ more), { core with obsClient := cl })
        | (.error _, cl) => (.listFailed path, { core with obsClient := cl })) := by
  induction rest generalizing infos core with
  | nil =>
    simp only [ObsClient.statAll]
    rw [List.append_nil]
    exact .refl
  | cons entry rest ih =>
    have hserve := @Reaches.serve kind parent name s call
      (.listed path (entry :: rest) infos, core)
    unfold ObsFsCore.serveLookup at hserve
    unfold ObsClient.statAll
    dsimp only at hserve
    generalize core.obsClient.stat entry = r at hserve ⊢
    obtain ⟨_ | info, cl⟩ := r
    · exact hserve
    · have hrest := hserve.trans (ih (infos ++ [info]) { core with obsClient := cl })
      dsimp only at hrest ⊢
      generalize cl.statAll rest = r at hrest ⊢
      obtain ⟨_ | more, cl'⟩ := r
      · exact hrest
      · dsimp only at hrest ⊢
        rw [List.append_assoc, List.singleton_append] at hrest
        exact hrest

theorem reaches_list (path : Str) (core : ObsFsCore) :
    Reaches kind parent name s call (.list path, core)
      (match core.obsClient.list (dirKey (core.obsPath path)) with
        | (.ok infos, cl) => (.listed path [] infos, { core with obsClient := cl })
        | (.error _, cl) => (.listFailed path, { core with obsClient := cl })) := by
  have hserve := @Reaches.serve kind parent name s call (.list path, core)
  unfold ObsFsCore.serveLookup ObsClient.listRequest at hserve
  unfold ObsClient.list
  dsimp only at hserve
  cases hfault : core.obsClient.fault with
  | some e =>
    rw [hfault] at hserve
    exact hserve
  | none =>
    rw [hfault] at hserve
    dsimp only at hserve ⊢
    generalize core.obsClient.backend.list core.obsClient.objects (dirKey (core.obsPath path)) = r
      at hserve ⊢
    cases r with
    | error e => exact hserve
    | ok entries => exact hserve.trans (reaches_listed path entries [] _)

theorem reaches_lookupRemote (now : Now) (path : Str) (core : ObsFsCore) :
    Reaches kind parent name s call (.statFile path, core)
      (.returned (core.lookupRemote now path).1, (core.lookupRemote now path).2) := by
  simp only [ObsFsCore.lookupRemote]
  cases hfile : core.obsClient.stat (core.obsPath path) with
  | mk answer cl =>
    have h₁ := @Reaches.turn kind parent name s call (.statFile path, core)
      (.fileAnswer path answer, { core with obsClient := cl }) now
      (by unfold ObsFsCore.serveLookup; dsimp only; rw [hfile])
    cases answer with
    | ok info => exact h₁
    | error e =>
      dsimp only
      refine h₁.trans ?_
      cases hdir : cl.stat (dirKey (core.obsPath path)) with
      | mk answer cl' =>
        have h₂ := @Reaches.turn kind parent name s call
          (.statDir path, { core with obsClient := cl })
          (.dirAnswer path answer, { core with obsClient := cl' }) now
          (by
            simp only [ObsFsCore.serveLookup]
            rw [@ObsFsCore.obsPath_congr core { core with obsClient := cl } rfl, hdir])
        cases answer with
        | ok info => exact h₂
        | error e =>
          dsimp only
          have h₃ := h₂.trans (reaches_list path { core with obsClient := cl' })
          dsimp only at h₃
          rw [@ObsFsCore.obsPath_congr core { core with obsClient := cl' } rfl] at h₃
          generalize cl'.list (dirKey (core.obsPath path)) = r at h₃ ⊢
          obtain ⟨_ | _ | _, cl''⟩ := r
          · exact h₃.trans (.resume now)
          · exact h₃.trans (.resume now)
          · exact h₃.trans (.resume now)

theorem reaches_doLookup (now : Now) (core : ObsFsCore) :
    Reaches kind parent name s call (core.beginLookup now parent name)
      (.returned (core.doLookup now parent name).1, (core.doLookup now parent name).2) := by
  unfold ObsFsCore.beginLookup ObsFsCore.doLookup
  cases core.inodeMgr.getPath parent with
  | none => exact .refl
  | some parentPath =>
    dsimp only
    generalize core.metadataCache.isNegative now.instant (ObsFsCore.childPath parentPath name) = r
    obtain ⟨negative, cache⟩ := r
    cases negative with
    | true => exact .refl
    | false =>
      dsimp only
      simp only [Bool.false_eq_true, if_false]
      cases core.inodeMgr.getInode (ObsFsCore.childPath parentPath name) with
      | none => exact reaches_lookupRemote now _ _
      | some inode =>
        dsimp only
        generalize cache.getAttr now.instant inode = r
        obtain ⟨_ | attr, cache'⟩ := r
        · exact reaches_lookupRemote now _ _
        · exact .refl

theorem uninterrupted_lookup (hfree : AList.lookup call s.lookups = none) (now : Now) :
    ∃ steps, run (step kind parent name) s (.beginLookup call now :: steps) =
      s.put call (.returned (s.core.doLookup now parent name).1,
        (s.core.doLookup now parent name).2) := by
  obtain ⟨steps, hsteps⟩ := @reaches_doLookup kind parent name s call now s.core
  refine ⟨steps, ?_⟩
  rw [run_cons, ← hsteps]
  simp only [step]
  rw [hfree]

/-- A creation that nothing interrupts is the operation it stands for. -/
theorem uninterrupted_creation (hpending : s.creation = .pending) (now : Now) :
    (run (step kind parent name) s [.beginCreation, .serveCreation, .resumeCreation now]).core =
      s.core.step (kind.toOp now parent name) := by
  obtain ⟨core, lookups, creation⟩ := s
  dsimp only at hpending
  subst hpending
  rw [run_cons, run_cons, run_cons, run_nil]
  cases hp : core.inodeMgr.getPath parent with
  | none =>
    have hbegin : step kind parent name ⟨core, lookups, .pending⟩ .beginCreation =
        ⟨core, lookups, .failed⟩ := by
      simp only [step]
      rw [hp]
    rw [hbegin]
    cases kind with
    | create mode flags =>
      show core = (core.doCreate now parent name mode flags).2
      unfold ObsFsCore.doCreate
      rw [hp]
    | mkdir mode =>
      show core = (core.doMkdir now parent name mode).2
      unfold ObsFsCore.doMkdir
      rw [hp]
  | some parentPath =>
    have hbegin : step kind parent name ⟨core, lookups, .pending⟩ .beginCreation =
        ⟨core, lookups, .asked (ObsFsCore.childPath parentPath name)⟩ := by
      simp only [step]
      rw [hp]
    rw [hbegin]
    cases kind with
    | create mode flags =>
      show _ = (core.doCreate now parent name mode flags).2
      unfold ObsFsCore.doCreate step ObsFsCore.serveCreation
      rw [hp]
      dsimp only
      generalize core.obsClient.write _ _ = r
      obtain ⟨_ | _, cl⟩ := r
      · rfl
      · rfl
    | mkdir mode =>
      show _ = (core.doMkdir now parent name mode).2
      unfold ObsFsCore.doMkdir step ObsFsCore.serveCreation
      rw [hp]
      dsimp only
      generalize core.obsClient.createDir _ = r
      obtain ⟨_ | _, cl⟩ := r
      · rfl
      · rfl

end NameRace

/-- From the return of the creation on, its name is found in every state of an interleaving
exactly when every lookup that has found nothing before stores this in time. -/
theorem created_name_found_iff (kind : Creation) (parent : ℕ) (name : OsStr) {core : ObsFsCore}
    (hr : core.obsClient.Reliable) (hf : core.obsClient.backend.Finds) (steps : List RaceStep) :
    (∀ n, (run (NameRace.step kind parent name) (.start core) (steps.take n)).Found parent name) ↔
      Along (NameRace.step kind parent name) NameRace.InTime (.start core) steps := by
  have hstart : (NameRace.start core).Made kind := by
    refine ⟨hr, hf, ?_⟩
    intro path hpath
    rcases hpath with heq | heq
    · cases heq
    · cases heq
  have hclear : (NameRace.start core).Clear := by
    intro path hpath
    cases hpath
  apply @forall_states_iff_along _ _ (NameRace.step kind parent name) NameRace.InTime
    (NameRace.Made kind) (NameRace.Found parent name)
  · intro s a h
    exact (h.step a).1
  · intro s a h hfound
    have hs := @NameRace.Made.step kind parent name s h a
    rw [hs.1.found_iff]
    exact hs.2 (h.found_iff.mp hfound)
  · exact hstart
  · exact hstart.found_iff.mpr hclear

/-- The lookup has found nothing, and stores this while the object is being made. -/
theorem early_denial_is_forgotten :
    (run (NameRace.step (.create 0 0) 1 ['f'.toUInt8]) (.start (.emptyObjects []))
      ([.beginLookup 0 ⟨0, 0⟩, .serveLookup 0, .resumeLookup 0 ⟨0, 0⟩, .beginCreation,
        .serveLookup 0, .resumeLookup 0 ⟨0, 0⟩, .serveLookup 0, .serveCreation,
        .resumeLookup 0 ⟨0, 0⟩, .resumeCreation ⟨0, 0⟩].take 10)).Found 1 ['f'.toUInt8] :=
  (@created_name_found_iff (.create 0 0) 1 ['f'.toUInt8] (.emptyObjects []) (fun _ => rfl)
    Backend.plain_finds _).mpr (by decide) 10

/-- The lookup stores it when the creation has returned: the file is there and denied. -/
theorem late_denial_hides_file :
    let s := run (NameRace.step (.create 0 0) 1 ['f'.toUInt8]) (.start (.emptyObjects []))
      [.beginLookup 0 ⟨0, 0⟩, .serveLookup 0, .resumeLookup 0 ⟨0, 0⟩, .serveLookup 0,
        .resumeLookup 0 ⟨0, 0⟩, .serveLookup 0, .beginCreation, .serveCreation,
        .resumeCreation ⟨0, 0⟩, .resumeLookup 0 ⟨0, 0⟩]
    AList.lookup 0 s.lookups = some (.returned (.err .notFound)) ∧
      s.creation.created = some ['f'] ∧ ['f'] ∈ s.core.obsClient.objects ∧
      (s.core.metadataCache.isNegative 0 ['f']).1 = true ∧
      (s.core.doLookup ⟨0, 0⟩ 1 ['f'.toUInt8]).1 = .err .notFound ∧
      ¬s.Found 1 ['f'.toUInt8] := by
  refine ⟨by rfl, by decide, by decide, by decide, by decide, ?_⟩
  intro h
  have hnot := (h ['f'] (by decide) ⟨0, 0⟩).1
  revert hnot
  decide

end ObsFuse
