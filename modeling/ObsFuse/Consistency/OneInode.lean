import ObsFuse.Consistency.InodeMaps

/-! # One inode for a path

`get_or_create_inode` asks for the path, takes a number, and inserts the path and then the
entry, each in one atomic step of its own. Here is which interleavings of such calls give one
number to a path. -/

namespace ObsFuse
open Lib

/-- Where a call is: it has found no inode, taken a number, inserted the path, or returned. -/
inductive Interning where
  | missed (path : Str) (isDir : Bool) (size : ℕ)
  | numbered (inode : ℕ) (entry : InodeEntry)
  | mapped (inode : ℕ) (entry : InodeEntry)
  | returned (path : Str) (inode : ℕ)
  deriving DecidableEq, Repr

namespace Interning

/-- The number that the call has taken and not yet made an entry for. -/
def number : Interning → Option ℕ
  | .numbered inode _ | .mapped inode _ => some inode
  | _ => none

/-- The call has missed the path and not yet inserted it. -/
def seeks (path : Str) : Interning → Bool
  | .missed p _ _ => p = path
  | .numbered _ entry => entry.path = path
  | _ => false

def isReturned : Interning → Bool
  | .returned _ _ => true
  | _ => false

end Interning

/-- The inode maps and the calls so far. -/
structure SharedInodes where
  mgr : InodeManager
  calls : Table ℕ Interning

/-- The atomic steps of the calls. -/
inductive InternStep where
  | get (call : ℕ) (path : Str) (isDir : Bool) (size : ℕ)
  | fetchAdd (call : ℕ) (now : Now)
  | insertPath (call : ℕ)
  | insertEntry (call : ℕ)

namespace SharedInodes

/-- One step; a call that has no such step to take changes nothing. -/
def step (s : SharedInodes) : InternStep → SharedInodes
  | .get call path isDir size =>
    match s.calls.lookup call with
    | some _ => s
    | none =>
      let normalized := normalizePath path
      match s.mgr.pathToInode.lookup normalized with
      | some inode => { s with calls := s.calls.insert call (.returned normalized inode) }
      | none => { s with calls := s.calls.insert call (.missed normalized isDir size) }
  | .fetchAdd call now =>
    match s.calls.lookup call with
    | some (.missed path isDir size) =>
      let inode := s.mgr.nextInode
      let fixed := s.mgr.permissionConfig.fixed
      let attr :=
        if isDir then FileAttr.directory now.system inode fixed.uid fixed.gid fixed.dirMode
        else FileAttr.file now.system inode size fixed.uid fixed.gid fixed.fileMode
      let entry : InodeEntry := ⟨path, attr, isDir, none, now.instant, 0⟩
      { s with
        mgr := { s.mgr with nextInode := u64 (s.mgr.nextInode + 1) }
        calls := s.calls.insert call (.numbered inode entry) }
    | _ => s
  | .insertPath call =>
    match s.calls.lookup call with
    | some (.numbered inode entry) => { s with
        mgr := { s.mgr with pathToInode := s.mgr.pathToInode.insert entry.path inode }
        calls := s.calls.insert call (.mapped inode entry) }
    | _ => s
  | .insertEntry call =>
    match s.calls.lookup call with
    | some (.mapped inode entry) => { s with
        mgr := { s.mgr with inodeToEntry := s.mgr.inodeToEntry.insert inode entry }
        calls := s.calls.insert call (.returned entry.path inode) }
    | _ => s

theorem uninterrupted_call (m : InodeManager) (calls : Table ℕ Interning) {call : ℕ}
    (hfree : AList.lookup call calls = none) (now : Now) (path : Str) (isDir : Bool) (size : ℕ) :
    let s := run step ⟨m, calls⟩
      [.get call path isDir size, .fetchAdd call now, .insertPath call, .insertEntry call]
    s.mgr = (m.getOrCreateInode now path isDir size).2 ∧ AList.lookup call s.calls =
      some (.returned (normalizePath path) (m.getOrCreateInode now path isDir size).1) := by
  cases hp : AList.lookup (normalizePath path) m.pathToInode with
  | some inode =>
    rw [InodeManager.getOrCreateInode_mapped hp]
    simp only [run_cons, run_nil, step, hfree, hp, AList.lookup_insert, and_self]
  | none =>
    unfold InodeManager.getOrCreateInode
    simp only [run_cons, run_nil, step, hfree, hp, AList.lookup_insert, and_self]

/-- All calls that have returned for the path gave one number, and the entry of that number is
the only one with the path. -/
def Agrees (path : Str) (s : SharedInodes) : Prop :=
  ∃ inode, (∀ call i, AList.lookup call s.calls = some (.returned path i) → i = inode) ∧
    ∀ i, s.mgr.getPath i = some path ↔ i = inode

/-- What a step must not do to the path: miss it while another call is about to insert it. And
no step may take a number that is in use. -/
def OneSeeker (path : Str) (s : SharedInodes) : InternStep → Prop
  | .get call p _ _ =>
    s.calls.lookup call = none → normalizePath p = path → s.mgr.getInode p = none →
      ∀ e ∈ s.calls.entries, e.2.seeks path = false
  | .fetchAdd _ _ =>
    s.mgr.getEntry s.mgr.nextInode = none ∧
      ∀ e ∈ s.calls.entries, e.2.number ≠ some s.mgr.nextInode
  | _ => True

instance decidableOneSeeker (path : Str) (s : SharedInodes) :
    (a : InternStep) → Decidable (OneSeeker path s a)
  | .get .. => inferInstanceAs (Decidable (_ → _ → _ → ∀ e ∈ _, _))
  | .fetchAdd .. => inferInstanceAs (Decidable (_ ∧ ∀ e ∈ _, _))
  | .insertPath _ | .insertEntry _ => isTrue trivial

/-- What is true of a path while one call at most seeks it. -/
structure Single (path : Str) (s : SharedInodes) : Prop where
  fresh : ∀ c call i, AList.lookup c s.calls = some call → call.number = some i →
    s.mgr.getPath i = none
  unique : ∀ c d call call' i, AList.lookup c s.calls = some call →
    AList.lookup d s.calls = some call' → call.number = some i → call'.number = some i → c = d
  seeker : ∀ c d call call', AList.lookup c s.calls = some call →
    AList.lookup d s.calls = some call' → call.seeks path = true → call'.seeks path = true → c = d
  unmapped : ∀ c call, AList.lookup c s.calls = some call → call.seeks path = true →
    AList.lookup path s.mgr.pathToInode = none
  mapped : ∀ c i entry, AList.lookup c s.calls = some (.mapped i entry) → entry.path = path →
    AList.lookup path s.mgr.pathToInode = some i
  returned : ∀ c i, AList.lookup c s.calls = some (.returned path i) →
    AList.lookup path s.mgr.pathToInode = some i
  entry : ∀ i, s.mgr.getPath i = some path → AList.lookup path s.mgr.pathToInode = some i
  owner : ∀ i, AList.lookup path s.mgr.pathToInode = some i → s.mgr.getPath i = some path ∨
    ∃ c entry, AList.lookup c s.calls = some (.mapped i entry) ∧ entry.path = path

namespace Single
variable {path : Str} {s : SharedInodes}

theorem start {m : InodeManager}
    (hm : ∀ i, AList.lookup path m.pathToInode = some i ↔ m.getPath i = some path) :
    Single path ⟨m, ∅⟩ where
  fresh _ _ _ h := by cases h
  unique _ _ _ _ _ h := by cases h
  seeker _ _ _ _ h := by cases h
  unmapped _ _ h := by cases h
  mapped _ _ _ h := by cases h
  returned _ _ h := by cases h
  entry i h := (hm i).mpr h
  owner i h := .inl ((hm i).mp h)

/-- A call comes to another place, and the maps change with it. The number it has then must be
its own, and so must the path if it seeks it; the other calls find what they knew of the path. -/
theorem moved (h : Single path s) {call : ℕ} {c : Interning} {mgr : InodeManager}
    (hnumber : ∀ i, c.number = some i → mgr.getPath i = none ∧
      ∀ d call', d ≠ call → AList.lookup d s.calls = some call' → call'.number ≠ some i)
    (hseeks : c.seeks path = true → AList.lookup path mgr.pathToInode = none ∧
      ∀ d call', d ≠ call → AList.lookup d s.calls = some call' → call'.seeks path = false)
    (hmapped : ∀ i entry, c = .mapped i entry → entry.path = path →
      AList.lookup path mgr.pathToInode = some i)
    (hreturned : ∀ i, c = .returned path i → AList.lookup path mgr.pathToInode = some i)
    (hunused : ∀ d call' i, d ≠ call → AList.lookup d s.calls = some call' →
      call'.number = some i → mgr.getPath i = none)
    (hkept : AList.lookup path mgr.pathToInode = AList.lookup path s.mgr.pathToInode ∨
      AList.lookup path s.mgr.pathToInode = none ∧
        ∀ d call', d ≠ call → AList.lookup d s.calls = some call' → call'.seeks path = false)
    (hentry : ∀ i, mgr.getPath i = some path → AList.lookup path mgr.pathToInode = some i)
    (howner : ∀ i, AList.lookup path mgr.pathToInode = some i → mgr.getPath i = some path ∨
      ∃ d entry, AList.lookup d (s.calls.insert call c) = some (.mapped i entry) ∧
        entry.path = path) :
    Single path ⟨mgr, s.calls.insert call c⟩ := by
  have hknown : ∀ {i}, AList.lookup path s.mgr.pathToInode = some i →
      AList.lookup path mgr.pathToInode = some i := by
    intro i hi
    obtain hsame | hnone := hkept
    · rw [hsame]
      exact hi
    · rw [hnone.1] at hi
      cases hi
  -- each call is the one that has moved, or one of the others
  constructor
  case fresh =>
    intro d call' i hd hi
    obtain ⟨-, rfl⟩ | ⟨hne, hold⟩ := Table.lookup_insert_cases hd
    · exact (hnumber i hi).1
    · exact hunused d call' i hne hold hi
  case unique =>
    intro d e call' call'' i hd he hi hj
    obtain ⟨rfl, rfl⟩ | ⟨hne, hold⟩ := Table.lookup_insert_cases hd
    · obtain ⟨rfl, -⟩ | ⟨hne', hold'⟩ := Table.lookup_insert_cases he
      · rfl
      · exact absurd hj ((hnumber i hi).2 e call'' hne' hold')
    · obtain ⟨rfl, rfl⟩ | ⟨-, hold'⟩ := Table.lookup_insert_cases he
      · exact absurd hi ((hnumber i hj).2 d call' hne hold)
      · exact h.unique d e call' call'' i hold hold' hi hj
  case seeker =>
    intro d e call' call'' hd he hs hs'
    obtain ⟨rfl, rfl⟩ | ⟨hne, hold⟩ := Table.lookup_insert_cases hd
    · obtain ⟨rfl, -⟩ | ⟨hne', hold'⟩ := Table.lookup_insert_cases he
      · rfl
      · exact absurd hs' (Bool.eq_false_iff.mp ((hseeks hs).2 e call'' hne' hold'))
    · obtain ⟨rfl, rfl⟩ | ⟨-, hold'⟩ := Table.lookup_insert_cases he
      · exact absurd hs (Bool.eq_false_iff.mp ((hseeks hs').2 d call' hne hold))
      · exact h.seeker d e call' call'' hold hold' hs hs'
  case unmapped =>
    intro d call' hd hs
    obtain ⟨-, rfl⟩ | ⟨hne, hold⟩ := Table.lookup_insert_cases hd
    · exact (hseeks hs).1
    · obtain hsame | ⟨-, hnone⟩ := hkept
      · exact hsame.trans (h.unmapped d call' hold hs)
      · exact absurd hs (Bool.eq_false_iff.mp (hnone d call' hne hold))
  case mapped =>
    intro d i entry hd hp
    obtain ⟨-, hc⟩ | ⟨-, hold⟩ := Table.lookup_insert_cases hd
    · exact hmapped i entry hc.symm hp
    · exact hknown (h.mapped d i entry hold hp)
  case returned =>
    intro d i hd
    obtain ⟨-, hc⟩ | ⟨-, hold⟩ := Table.lookup_insert_cases hd
    · exact hreturned i hc.symm
    · exact hknown (h.returned d i hold)
  case entry => exact hentry
  case owner => exact howner

/-- An owner of the path among the calls stays one when another call moves. -/
theorem owner_moved (h : Single path s) {call : ℕ} {c : Interning}
    (hcall : ∀ i entry, AList.lookup call s.calls ≠ some (.mapped i entry)) {i : ℕ}
    (hi : AList.lookup path s.mgr.pathToInode = some i) : s.mgr.getPath i = some path ∨
      ∃ d entry, AList.lookup d (s.calls.insert call c) = some (.mapped i entry) ∧
        entry.path = path := by
  obtain hpath | ⟨d, entry, hd, hp⟩ := h.owner i hi
  · exact .inl hpath
  · refine .inr ⟨d, entry, ?_, hp⟩
    rw [Table.lookup_insert_if, if_neg, hd]
    intro heq
    rw [heq] at hd
    exact hcall i entry hd

/-- A call comes in, without a number; it may seek the path if nothing maps or seeks it. -/
theorem add (h : Single path s) {call : ℕ} {c : Interning} (hnumber : c.number = none)
    (hseeks : c.seeks path = true → AList.lookup path s.mgr.pathToInode = none ∧
      ∀ e ∈ s.calls.entries, e.2.seeks path = false)
    (hreturned : ∀ i, c = .returned path i → AList.lookup path s.mgr.pathToInode = some i)
    (hfree : AList.lookup call s.calls = none) :
    Single path { s with calls := s.calls.insert call c } := by
  apply h.moved
  · intro i hi
    rw [hnumber] at hi
    cases hi
  · intro hs
    obtain ⟨hnone, hothers⟩ := hseeks hs
    exact ⟨hnone, fun d call' _ hd => hothers _ (Table.mem_entries_of_lookup _ hd)⟩
  · intro i entry hc
    rw [hc] at hnumber
    cases hnumber
  · exact hreturned
  · intro d call' i _ hd hi
    exact h.fresh d call' i hd hi
  · exact .inl rfl
  · exact h.entry
  · intro i hi
    apply h.owner_moved _ hi
    intro j entry heq
    rw [hfree] at heq
    cases heq

theorem take (h : Single path s) {call : ℕ} {p : Str} {isDir : Bool} {size : ℕ}
    (hc : AList.lookup call s.calls = some (.missed p isDir size)) {entry : InodeEntry}
    (hpath : entry.path = p) (hunused : s.mgr.getPath s.mgr.nextInode = none)
    (hfree : ∀ e ∈ s.calls.entries, e.2.number ≠ some s.mgr.nextInode) {next : ℕ} :
    Single path { s with
      mgr := { s.mgr with nextInode := next }
      calls := s.calls.insert call (.numbered s.mgr.nextInode entry) } := by
  -- the call goes on seeking what it sought
  have hsought : (Interning.numbered s.mgr.nextInode entry).seeks path =
      (Interning.missed p isDir size).seeks path := by
    rw [← hpath]
    rfl
  apply h.moved
  · intro i hi
    cases hi
    exact ⟨hunused, fun d call' _ hd => hfree _ (Table.mem_entries_of_lookup _ hd)⟩
  · intro hs
    rw [hsought] at hs
    refine ⟨h.unmapped call _ hc hs, ?_⟩
    intro d call' hne hd
    rw [Bool.eq_false_iff]
    intro hs'
    exact hne (h.seeker d call call' _ hd hc hs' hs)
  · intro i e heq
    cases heq
  · intro i heq
    cases heq
  · intro d call' i _ hd hi
    exact h.fresh d call' i hd hi
  · exact .inl rfl
  · exact h.entry
  · intro i hi
    apply h.owner_moved _ hi
    intro j e heq
    rw [hc] at heq
    cases heq

/-- A call inserts its path, which nothing else seeks. -/
theorem map (h : Single path s) {call i : ℕ} {entry : InodeEntry}
    (hc : AList.lookup call s.calls = some (.numbered i entry)) :
    Single path { s with
      mgr := { s.mgr with pathToInode := s.mgr.pathToInode.insert entry.path i }
      calls := s.calls.insert call (.mapped i entry) } := by
  have hmap : AList.lookup path (s.mgr.pathToInode.insert entry.path i) =
      if path = entry.path then some i else AList.lookup path s.mgr.pathToInode :=
    Table.lookup_insert_if s.mgr.pathToInode entry.path path i
  have hsought : entry.path = path → (Interning.numbered i entry).seeks path = true :=
    decide_eq_true
  apply h.moved
  · intro j hj
    refine ⟨h.fresh call _ j hc hj, ?_⟩
    intro d call' hne hd hj'
    exact hne (h.unique d call call' _ j hd hc hj' hj)
  · intro hs
    cases hs
  · intro j e heq hp
    cases heq
    dsimp only
    rw [hmap, if_pos hp.symm]
  · intro j heq
    cases heq
  · intro d call' j _ hd hj
    exact h.fresh d call' j hd hj
  · by_cases hp : entry.path = path
    · refine .inr ⟨h.unmapped call _ hc (hsought hp), ?_⟩
      intro d call' hne hd
      rw [Bool.eq_false_iff]
      intro hs
      exact hne (h.seeker d call call' _ hd hc hs (hsought hp))
    · left
      dsimp only
      rw [hmap, if_neg (Ne.symm hp)]
  · intro j hj
    have hold := h.entry j hj
    dsimp only
    rw [hmap]
    split
    · next hp =>
      rw [h.unmapped call _ hc (hsought hp.symm)] at hold
      cases hold
    · exact hold
  · intro j hj
    dsimp only at hj
    rw [hmap] at hj
    split at hj
    · next hp =>
      cases hj
      exact .inr ⟨call, entry, AList.lookup_insert _, hp.symm⟩
    · apply h.owner_moved _ hj
      intro k e heq
      rw [hc] at heq
      cases heq

theorem finish (h : Single path s) {call i : ℕ} {entry : InodeEntry}
    (hc : AList.lookup call s.calls = some (.mapped i entry)) :
    Single path { s with
      mgr := { s.mgr with inodeToEntry := s.mgr.inodeToEntry.insert i entry }
      calls := s.calls.insert call (.returned entry.path i) } := by
  have hgetPath : ∀ j, ({ s.mgr with
      inodeToEntry := s.mgr.inodeToEntry.insert i entry } : InodeManager).getPath j =
        if j = i then some entry.path else s.mgr.getPath j := by
    intro j
    simp only [InodeManager.getPath]
    rw [Table.lookup_insert_if]
    split
    · rfl
    · rfl
  apply h.moved
  · intro j hj
    cases hj
  · intro hs
    cases hs
  · intro j e heq
    cases heq
  · intro j heq
    injection heq with hp hi
    rw [← hi]
    exact h.mapped call i entry hc hp
  · intro d call' j hne hd hj
    rw [hgetPath, if_neg]
    · exact h.fresh d call' j hd hj
    · intro heq
      rw [heq] at hj
      exact hne (h.unique d call call' _ i hd hc hj rfl)
  · exact .inl rfl
  · intro j hj
    rw [hgetPath] at hj
    split at hj
    · next heq =>
      rw [heq]
      exact h.mapped call i entry hc (Option.some.inj hj)
    · exact h.entry j hj
  · intro j hj
    rw [hgetPath]
    obtain hpath | ⟨d, e, hd, hp⟩ := h.owner j hj
    · left
      rw [if_neg]
      · exact hpath
      · intro heq
        rw [heq, h.fresh call _ i hc rfl] at hpath
        cases hpath
    · by_cases heq : d = call
      · rw [heq, hc] at hd
        cases hd
        exact .inl (by rw [if_pos rfl, hp])
      · exact .inr ⟨d, e, by rw [Table.lookup_insert_if, if_neg heq, hd], hp⟩

theorem step (h : Single path s) (a : InternStep) (ha : OneSeeker path s a) :
    Single path (s.step a) := by
  cases a with
  | get call p isDir size =>
    simp only [SharedInodes.step]
    cases hfree : AList.lookup call s.calls with
    | some c => exact h
    | none =>
      dsimp only
      cases hp : AList.lookup (normalizePath p) s.mgr.pathToInode with
      | some inode =>
        refine h.add rfl ?_ ?_ hfree
        · intro hseeks
          cases hseeks
        · intro i heq
          cases heq
          exact hp
      | none =>
        refine h.add rfl ?_ ?_ hfree
        · intro hseeks
          have hpath : normalizePath p = path := by simpa [Interning.seeks] using hseeks
          rw [hpath] at hp
          exact ⟨hp, ha hfree hpath (by rw [InodeManager.getInode, hpath, hp])⟩
        · intro i heq
          cases heq
  | fetchAdd call now =>
    simp only [SharedInodes.step]
    split
    · next p isDir size hc =>
      exact h.take hc rfl ((InodeManager.getPath_eq_none_iff ..).mpr ha.1) ha.2
    · exact h
  | insertPath call =>
    simp only [SharedInodes.step]
    split
    · next i entry hc => exact h.map hc
    · exact h
  | insertEntry call =>
    simp only [SharedInodes.step]
    split
    · next i entry hc => exact h.finish hc
    · exact h

end Single

end SharedInodes

/-- Once all calls have returned, one of them for the path, the path has one number and one
entry, if no step missed it while another call was about to insert it. -/
theorem one_inode_for_path {m : InodeManager} {path : Str}
    (hm : ∀ i, AList.lookup path m.pathToInode = some i ↔ m.getPath i = some path)
    {steps : List InternStep}
    (hsafe : Along SharedInodes.step (SharedInodes.OneSeeker path) ⟨m, ∅⟩ steps)
    (hdone : ∀ e ∈ (run SharedInodes.step ⟨m, ∅⟩ steps).calls.entries, e.2.isReturned = true)
    {call inode : ℕ} (hcall : AList.lookup call (run SharedInodes.step ⟨m, ∅⟩ steps).calls =
      some (.returned path inode)) :
    (run SharedInodes.step ⟨m, ∅⟩ steps).Agrees path := by
  have hsingle := @run_invariant _ _ SharedInodes.step (SharedInodes.OneSeeker path)
    (SharedInodes.Single path) (fun _ a h ha => h.step a ha) _ steps (.start hm) hsafe
  have hinode := hsingle.returned call inode hcall
  refine ⟨inode, ?_, ?_⟩
  · intro other i hother
    have hi := hsingle.returned other i hother
    rw [hinode] at hi
    exact (Option.some.inj hi).symm
  · intro i
    constructor
    · intro hi
      have hback := hsingle.entry i hi
      rw [hinode] at hback
      exact (Option.some.inj hback).symm
    · intro hi
      rcases hsingle.owner inode hinode with hpath | ⟨c, entry, hc, -⟩
      · rw [hi]
        exact hpath
      · have hret := hdone _ (Table.mem_entries_of_lookup _ hc)
        cases hret

/-- A second call finds the path that the first has inserted, before its entry is there. -/
theorem second_call_finds_path :
    (run SharedInodes.step ⟨.new ⟨0, 0⟩ (.default 0 0), ∅⟩
      [.get 0 ['a'] false 0, .fetchAdd 0 ⟨1, 1⟩, .insertPath 0, .get 1 ['/', 'a'] false 5,
        .insertEntry 0]).Agrees ['a'] :=
  @one_inode_for_path (.new ⟨0, 0⟩ (.default 0 0)) ['a']
    (InodeManager.new_inverse ⟨0, 0⟩ (.default 0 0) ['a'])
    [.get 0 ['a'] false 0, .fetchAdd 0 ⟨1, 1⟩, .insertPath 0, .get 1 ['/', 'a'] false 5,
      .insertEntry 0] (by decide) (by decide) 0 2 (by decide)

/-- Two calls miss the path before either inserts it: each gets a number of its own. -/
theorem two_inodes_for_path :
    let s := run SharedInodes.step ⟨.new ⟨0, 0⟩ (.default 0 0), ∅⟩
      [.get 0 ['a'] false 0, .get 1 ['a'] false 0, .fetchAdd 0 ⟨1, 1⟩, .fetchAdd 1 ⟨1, 1⟩,
        .insertPath 0, .insertPath 1, .insertEntry 0, .insertEntry 1]
    AList.lookup 0 s.calls = some (.returned ['a'] 2) ∧
      AList.lookup 1 s.calls = some (.returned ['a'] 3) ∧ s.mgr.getPath 2 = some ['a'] ∧
      s.mgr.getPath 3 = some ['a'] ∧ ¬s.Agrees ['a'] := by
  refine ⟨by decide, by decide, by decide, by decide, ?_⟩
  intro h
  obtain ⟨inode, hcalls, -⟩ := h
  have hfirst := hcalls 0 2 (by decide)
  have hsecond := hcalls 1 3 (by decide)
  omega

end ObsFuse
