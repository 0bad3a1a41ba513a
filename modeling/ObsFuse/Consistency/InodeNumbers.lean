import ObsFuse.Consistency.OneInode

/-! # Inode numbers are not reused

The kernel is told generation 0 for every inode, so a number must stand for one file only.
Numbers come from a counter that only creations move. Here creations are taken step by step,
the other operations of the inode manager fall between their steps. -/

namespace ObsFuse
open Lib

inductive InodeStep where
  | intern (step : InternStep)
  | remove (inode : ℕ)
  | removeByPath (path : Str)
  | rename (now : Now) (oldPath newPath : Str)
  | updateSize (now : Now) (inode size : ℕ)
  | updateMtime (now : Now) (inode : ℕ) (mtime : SystemTime)
  | setChildren (now : Now) (inode : ℕ) (children : List ℕ)
  | invalidate (now : Now) (inode : ℕ)

namespace InodeManager

/-- No entry or path of `m'` has a number that `m` does not have, and the counter stands. -/
structure NoNewNumbers (m m' : InodeManager) : Prop where
  next : m'.nextInode = m.nextInode
  entry : ∀ i entry', AList.lookup i m'.inodeToEntry = some entry' →
    ∃ entry, AList.lookup i m.inodeToEntry = some entry ∧ entry'.attr.ino = entry.attr.ino
  mapped : ∀ path i, AList.lookup path m'.pathToInode = some i →
    ∃ q, AList.lookup q m.pathToInode = some i

theorem NoNewNumbers.refl (m : InodeManager) : NoNewNumbers m m :=
  ⟨rfl, fun _ entry h => ⟨entry, h, rfl⟩, fun path _ h => ⟨path, h⟩⟩

theorem noNewNumbers_modify (m : InodeManager) (inode : ℕ) {f : InodeEntry → InodeEntry}
    (hf : ∀ entry, (f entry).attr.ino = entry.attr.ino) :
    NoNewNumbers m { m with inodeToEntry := m.inodeToEntry.modify inode f } := by
  refine ⟨rfl, ?_, fun path _ h => ⟨path, h⟩⟩
  intro i entry' h
  dsimp only at h
  rw [Table.lookup_modify] at h
  split at h
  · next hi =>
    obtain ⟨entry, hentry, rfl⟩ := Option.map_eq_some_iff.mp h
    rw [hi]
    exact ⟨entry, hentry, hf entry⟩
  · exact ⟨entry', h, rfl⟩

theorem noNewNumbers_remove (m : InodeManager) (inode : ℕ) :
    NoNewNumbers m (m.remove inode) := by
  unfold InodeManager.remove
  cases m.inodeToEntry.lookup inode with
  | none => exact .refl m
  | some gone =>
    refine ⟨rfl, ?_, ?_⟩
    · exact fun i entry h => ⟨entry, Table.lookup_of_erase h, rfl⟩
    · exact fun path i h => ⟨path, Table.lookup_of_erase h⟩

theorem noNewNumbers_removeByPath (m : InodeManager) (path : Str) :
    NoNewNumbers m (m.removeByPath path) := by
  unfold InodeManager.removeByPath
  cases m.pathToInode.lookup (normalizePath path) with
  | none => exact .refl m
  | some inode =>
    refine ⟨rfl, ?_, ?_⟩
    · exact fun i entry h => ⟨entry, Table.lookup_of_erase h, rfl⟩
    · exact fun q i h => ⟨q, Table.lookup_of_erase h⟩

theorem noNewNumbers_rename (m : InodeManager) (now : Now) (oldPath newPath : Str) :
    NoNewNumbers m (m.rename now oldPath newPath) := by
  cases hold : AList.lookup (normalizePath oldPath) m.pathToInode with
  | none =>
    rw [rename_unmapped hold]
    exact .refl m
  | some inode =>
    have hentry := (m.noNewNumbers_modify inode (f := fun entry =>
      { entry with path := normalizePath newPath, cachedAt := now.instant }) fun _ => rfl).entry
    refine ⟨?_, ?_, ?_⟩
    · simp only [InodeManager.rename]
      rw [hold]
    · simp only [InodeManager.rename]
      rw [hold]
      exact hentry
    · intro path i h
      rw [lookup_rename hold] at h
      split at h
      · exact ⟨normalizePath oldPath, by rw [hold, h]⟩
      · split at h
        · cases h
        · exact ⟨path, h⟩

end InodeManager

namespace Interning

/-- The number and the entry that the call is about to insert. -/
def made : Interning → Option (ℕ × InodeEntry)
  | .numbered inode entry | .mapped inode entry => some (inode, entry)
  | _ => none

theorem number_of_made {call : Interning} {i : ℕ} {entry : InodeEntry}
    (h : call.made = some (i, entry)) : call.number = some i := by
  cases call with
  | numbered | mapped =>
    cases h
    rfl
  | missed | returned => cases h

end Interning

namespace SharedInodes
variable {s : SharedInodes}

def apply (s : SharedInodes) : InodeStep → SharedInodes
  | .intern step => s.step step
  | .remove inode => { s with mgr := s.mgr.remove inode }
  | .removeByPath path => { s with mgr := s.mgr.removeByPath path }
  | .rename now oldPath newPath => { s with mgr := s.mgr.rename now oldPath newPath }
  | .updateSize now inode size => { s with mgr := s.mgr.updateSize now inode size }
  | .updateMtime now inode mtime => { s with mgr := s.mgr.updateMtime now inode mtime }
  | .setChildren now inode children => { s with mgr := s.mgr.setChildren now inode children }
  | .invalidate now inode => { s with mgr := s.mgr.invalidate now inode }

/-- A step that is not one of a creation changes the manager, and makes no inode. -/
theorem apply_cases (s : SharedInodes) (a : InodeStep) :
    (∃ b, a = .intern b) ∨
      ∃ mgr, InodeManager.NoNewNumbers s.mgr mgr ∧ s.apply a = { s with mgr := mgr } := by
  cases a with
  | intern b => exact .inl ⟨b, rfl⟩
  | remove inode => exact .inr ⟨_, s.mgr.noNewNumbers_remove inode, rfl⟩
  | removeByPath path => exact .inr ⟨_, s.mgr.noNewNumbers_removeByPath path, rfl⟩
  | rename now oldPath newPath =>
    exact .inr ⟨_, s.mgr.noNewNumbers_rename now oldPath newPath, rfl⟩
  | updateSize _ inode _ | updateMtime _ inode _ | setChildren _ inode _ | invalidate _ inode =>
    refine .inr ⟨_, ?_, rfl⟩
    exact s.mgr.noNewNumbers_modify inode fun _ => rfl

/-- The step does not move the counter past the largest `u64`. -/
def NoWrap (s : SharedInodes) : InodeStep → Prop
  | .intern (.fetchAdd _ _) => s.mgr.nextInode + 1 < 2 ^ 64
  | _ => True

instance decidableNoWrap (s : SharedInodes) : (a : InodeStep) → Decidable (s.NoWrap a)
  | .intern (.fetchAdd _ _) => inferInstanceAs (Decidable (_ < _))
  | .intern (.get ..) | .intern (.insertPath _) | .intern (.insertEntry _) | .remove _
  | .removeByPath _ | .rename .. | .updateSize .. | .updateMtime .. | .setChildren ..
  | .invalidate .. => isTrue trivial

/-- The step is the return of a creation, and this is its number. -/
def creates (s : SharedInodes) : InodeStep → Option ℕ
  | .intern (.insertEntry call) =>
    match s.calls.lookup call with
    | some (.mapped inode _) => some inode
    | _ => none
  | _ => none

/-- All numbers come from below the counter, no two calls have taken the same one, and an entry
has the number it is found under. -/
structure Numbered (s : SharedInodes) : Prop where
  next : rootInode < s.mgr.nextInode
  entry : ∀ i entry, AList.lookup i s.mgr.inodeToEntry = some entry →
    rootInode ≤ i ∧ i < s.mgr.nextInode ∧ entry.attr.ino = i
  mapped : ∀ path i, AList.lookup path s.mgr.pathToInode = some i →
    rootInode ≤ i ∧ i < s.mgr.nextInode
  taken : ∀ c call i, AList.lookup c s.calls = some call → call.number = some i →
    rootInode ≤ i ∧ i < s.mgr.nextInode ∧ AList.lookup i s.mgr.inodeToEntry = none
  made : ∀ c call i entry, AList.lookup c s.calls = some call → call.made = some (i, entry) →
    entry.attr.ino = i
  unique : ∀ c d call call' i, AList.lookup c s.calls = some call →
    AList.lookup d s.calls = some call' → call.number = some i → call'.number = some i → c = d

/-- The number has been given out, and no call is about to make an entry for it. -/
def Spent (s : SharedInodes) (i : ℕ) : Prop :=
  i < s.mgr.nextInode ∧ ∀ c call, AList.lookup c s.calls = some call → call.number ≠ some i

namespace Numbered

theorem start (now : Now) (config : PermissionConfig) : Numbered ⟨.new now config, ∅⟩ where
  next := Nat.lt_succ_self _
  entry i entry h := by
    simp only [InodeManager.new, Table.lookup_insert_if, AList.lookup_empty] at h
    split at h
    · next hi =>
      cases h
      rw [hi]
      exact ⟨le_rfl, Nat.lt_succ_self _, rfl⟩
    · cases h
  mapped path i h := by
    simp only [InodeManager.new, Table.lookup_insert_if, AList.lookup_empty] at h
    split at h
    · cases h
      exact ⟨le_rfl, Nat.lt_succ_self _⟩
    · cases h
  taken _ _ _ h := by cases h
  made _ _ _ _ h := by cases h
  unique _ _ _ _ _ h := by cases h

theorem changed (h : s.Numbered) {mgr : InodeManager}
    (hmgr : InodeManager.NoNewNumbers s.mgr mgr) : Numbered { s with mgr := mgr } where
  next := by
    dsimp only
    rw [hmgr.next]
    exact h.next
  entry i entry hi := by
    obtain ⟨old, hold, hino⟩ := hmgr.entry i entry hi
    dsimp only
    rw [hmgr.next, hino]
    exact h.entry i old hold
  mapped path i hi := by
    obtain ⟨q, hq⟩ := hmgr.mapped path i hi
    dsimp only
    rw [hmgr.next]
    exact h.mapped q i hq
  taken c call i hc hi := by
    obtain ⟨hlow, hhigh, hnone⟩ := h.taken c call i hc hi
    dsimp only
    rw [hmgr.next]
    refine ⟨hlow, hhigh, ?_⟩
    rw [Option.eq_none_iff_forall_ne_some]
    intro entry hentry
    obtain ⟨old, hold, -⟩ := hmgr.entry i entry hentry
    rw [hnone] at hold
    cases hold
  made := h.made
  unique := h.unique

/-- A call comes to a place at which it has no number, or the one it had. -/
theorem moved (h : s.Numbered) {call : ℕ} {c : Interning} {mgr : InodeManager}
    (hmgr : mgr.nextInode = s.mgr.nextInode)
    (hentry : ∀ i entry, AList.lookup i mgr.inodeToEntry = some entry →
      AList.lookup i s.mgr.inodeToEntry = some entry ∨
        entry.attr.ino = i ∧ ∃ old, AList.lookup call s.calls = some old ∧ old.number = some i)
    (hmapped : ∀ path i, AList.lookup path mgr.pathToInode = some i →
      AList.lookup path s.mgr.pathToInode = some i ∨
        ∃ old, AList.lookup call s.calls = some old ∧ old.number = some i)
    (hnumber : ∀ i, c.number = some i →
      AList.lookup i mgr.inodeToEntry = none ∧
        ∃ old, AList.lookup call s.calls = some old ∧ old.number = some i)
    (hmade : ∀ i entry, c.made = some (i, entry) → entry.attr.ino = i) :
    Numbered ⟨mgr, s.calls.insert call c⟩ := by
  -- each call is the one that has moved, or one of the others
  constructor
  case next =>
    dsimp only
    rw [hmgr]
    exact h.next
  case entry =>
    intro i entry hi
    dsimp only
    rw [hmgr]
    rcases hentry i entry hi with hold | ⟨hino, old, hold, hnum⟩
    · exact h.entry i entry hold
    · obtain ⟨hlow, hhigh, -⟩ := h.taken call old i hold hnum
      exact ⟨hlow, hhigh, hino⟩
  case mapped =>
    intro path i hi
    dsimp only
    rw [hmgr]
    rcases hmapped path i hi with hold | ⟨old, hold, hnum⟩
    · exact h.mapped path i hold
    · obtain ⟨hlow, hhigh, -⟩ := h.taken call old i hold hnum
      exact ⟨hlow, hhigh⟩
  case taken =>
    intro d call' i hd hi
    dsimp only
    rw [hmgr]
    obtain ⟨-, rfl⟩ | ⟨hne, hother⟩ := Table.lookup_insert_cases hd
    · obtain ⟨hnone, old, hold, hnum⟩ := hnumber i hi
      obtain ⟨hlow, hhigh, -⟩ := h.taken call old i hold hnum
      exact ⟨hlow, hhigh, hnone⟩
    · obtain ⟨hlow, hhigh, hnone⟩ := h.taken d call' i hother hi
      refine ⟨hlow, hhigh, ?_⟩
      rw [Option.eq_none_iff_forall_ne_some]
      intro entry hmade
      rcases hentry i entry hmade with hold | ⟨-, old, hold, hnum⟩
      · rw [hnone] at hold
        cases hold
      · exact hne (h.unique d call call' old i hother hold hi hnum)
  case made =>
    intro d call' i entry hd hi
    obtain ⟨-, rfl⟩ | ⟨-, hother⟩ := Table.lookup_insert_cases hd
    · exact hmade i entry hi
    · exact h.made d call' i entry hother hi
  case unique =>
    intro d e call' call'' i hd he hi hj
    obtain ⟨rfl, rfl⟩ | ⟨-, hother⟩ := Table.lookup_insert_cases hd
    · obtain ⟨rfl, -⟩ | ⟨-, hother'⟩ := Table.lookup_insert_cases he
      · rfl
      · obtain ⟨-, old, hold, hnum⟩ := hnumber i hi
        exact h.unique d e old call'' i hold hother' hnum hj
    · obtain ⟨rfl, rfl⟩ | ⟨-, hother'⟩ := Table.lookup_insert_cases he
      · obtain ⟨-, old, hold, hnum⟩ := hnumber i hj
        exact h.unique d e call' old i hother hold hi hnum
      · exact h.unique d e call' call'' i hother hother' hi hj

theorem take (h : s.Numbered) {call : ℕ} {entry : InodeEntry}
    (hino : entry.attr.ino = s.mgr.nextInode) :
    Numbered { s with
      mgr := { s.mgr with nextInode := s.mgr.nextInode + 1 }
      calls := s.calls.insert call (.numbered s.mgr.nextInode entry) } := by
  have hless : ∀ {i}, i < s.mgr.nextInode → i < s.mgr.nextInode + 1 := Nat.lt_succ_of_lt
  constructor
  case next => exact hless h.next
  case entry =>
    intro i e hi
    obtain ⟨hlow, hhigh, he⟩ := h.entry i e hi
    exact ⟨hlow, hless hhigh, he⟩
  case mapped =>
    intro path i hi
    obtain ⟨hlow, hhigh⟩ := h.mapped path i hi
    exact ⟨hlow, hless hhigh⟩
  case taken =>
    intro d call' i hd hi
    obtain ⟨-, rfl⟩ | ⟨-, hother⟩ := Table.lookup_insert_cases hd
    · cases hi
      refine ⟨h.next.le, Nat.lt_succ_self _, ?_⟩
      rw [Option.eq_none_iff_forall_ne_some]
      intro e he
      exact absurd (h.entry _ e he).2.1 (Nat.lt_irrefl _)
    · obtain ⟨hlow, hhigh, hnone⟩ := h.taken d call' i hother hi
      exact ⟨hlow, hless hhigh, hnone⟩
  case made =>
    intro d call' i e hd hi
    obtain ⟨-, rfl⟩ | ⟨-, hother⟩ := Table.lookup_insert_cases hd
    · cases hi
      exact hino
    · exact h.made d call' i e hother hi
  case unique =>
    intro d e call' call'' i hd he hi hj
    obtain ⟨rfl, rfl⟩ | ⟨-, hother⟩ := Table.lookup_insert_cases hd
    · obtain ⟨rfl, -⟩ | ⟨-, hother'⟩ := Table.lookup_insert_cases he
      · rfl
      · cases hi
        exact absurd (h.taken e call'' _ hother' hj).2.1 (Nat.lt_irrefl _)
    · obtain ⟨rfl, rfl⟩ | ⟨-, hother'⟩ := Table.lookup_insert_cases he
      · cases hj
        exact absurd (h.taken d call' _ hother hi).2.1 (Nat.lt_irrefl _)
      · exact h.unique d e call' call'' i hother hother' hi hj

theorem begin (h : s.Numbered) (call : ℕ) {c : Interning} (hnumber : c.number = none) :
    Numbered { s with calls := s.calls.insert call c } := by
  apply h.moved rfl
  · exact fun _ _ hi => .inl hi
  · exact fun _ _ hi => .inl hi
  · intro i hi
    rw [hnumber] at hi
    cases hi
  · intro i entry hi
    rw [Interning.number_of_made hi] at hnumber
    cases hnumber

theorem step (h : s.Numbered) {a : InodeStep} (ha : s.NoWrap a) : (s.apply a).Numbered := by
  rcases s.apply_cases a with ⟨b, rfl⟩ | ⟨mgr, hmgr, hb⟩
  · simp only [apply]
    cases b with
    | get call path isDir size =>
      simp only [SharedInodes.step]
      cases s.calls.lookup call with
      | some c => exact h
      | none =>
        dsimp only
        cases s.mgr.pathToInode.lookup (normalizePath path) with
        | some inode => exact h.begin call rfl
        | none => exact h.begin call rfl
    | fetchAdd call now =>
      simp only [SharedInodes.step]
      split
      · have hnext : u64 (s.mgr.nextInode + 1) = s.mgr.nextInode + 1 := u64_eq ha
        rw [hnext]
        apply h.take
        dsimp only
        split
        · rfl
        · rfl
      · exact h
    | insertPath call =>
      simp only [SharedInodes.step]
      split
      · next inode entry hc =>
        refine h.moved rfl ?_ ?_ ?_ ?_
        · exact fun _ _ hi => .inl hi
        · intro path i hi
          rcases Table.lookup_insert_cases hi with ⟨-, rfl⟩ | ⟨-, hold⟩
          · exact .inr ⟨_, hc, rfl⟩
          · exact .inl hold
        · intro i hi
          cases hi
          exact ⟨(h.taken call _ _ hc rfl).2.2, _, hc, rfl⟩
        · intro i e he
          cases he
          exact h.made call _ _ _ hc rfl
      · exact h
    | insertEntry call =>
      simp only [SharedInodes.step]
      split
      · next inode entry hc =>
        refine h.moved rfl ?_ ?_ ?_ ?_
        · intro i e hi
          rcases Table.lookup_insert_cases hi with ⟨rfl, rfl⟩ | ⟨-, hold⟩
          · exact .inr ⟨h.made call _ _ _ hc rfl, _, hc, rfl⟩
          · exact .inl hold
        · exact fun _ _ hi => .inl hi
        · intro i hi
          cases hi
        · intro i e he
          cases he
      · exact h
  · rw [hb]
    exact h.changed hmgr

end Numbered

theorem Numbered.spent_of_entry (h : s.Numbered) {i : ℕ} {entry : InodeEntry}
    (hi : AList.lookup i s.mgr.inodeToEntry = some entry) : s.Spent i := by
  refine ⟨(h.entry i entry hi).2.1, ?_⟩
  intro c call hc hnumber
  rw [(h.taken c call i hc hnumber).2.2] at hi
  cases hi

theorem mapped_of_creates {a : InodeStep} {i : ℕ} (h : s.creates a = some i) :
    ∃ call entry, a = .intern (.insertEntry call) ∧
      AList.lookup call s.calls = some (.mapped i entry) := by
  unfold creates at h
  split at h
  · next call =>
    split at h
    · next inode entry hc =>
      cases h
      exact ⟨call, entry, rfl, hc⟩
    · cases h
  · cases h

theorem not_spent_of_creates {a : InodeStep} {i : ℕ} (h : s.creates a = some i) : ¬s.Spent i := by
  obtain ⟨call, entry, -, hc⟩ := mapped_of_creates h
  intro hspent
  exact hspent.2 call _ hc rfl

theorem Numbered.spent_of_creates (h : s.Numbered) {a : InodeStep} {i : ℕ}
    (ha : s.creates a = some i) : (s.apply a).Spent i := by
  obtain ⟨call, entry, rfl, hc⟩ := mapped_of_creates ha
  simp only [apply, SharedInodes.step]
  rw [hc]
  refine ⟨(h.taken call _ i hc rfl).2.1, ?_⟩
  intro d call' hd hnumber
  rcases Table.lookup_insert_cases hd with ⟨-, rfl⟩ | ⟨hne, hother⟩
  · cases hnumber
  · exact hne (h.unique d call call' _ i hother hc hnumber rfl)

/-- A call takes another place with no number, or with one of those above. -/
theorem Spent.moved {i : ℕ} (h : s.Spent i) {call : ℕ} {c : Interning} {mgr : InodeManager}
    (hnext : s.mgr.nextInode ≤ mgr.nextInode) (hc : c.number ≠ some i) :
    Spent ⟨mgr, s.calls.insert call c⟩ i := by
  refine ⟨h.1.trans_le hnext, ?_⟩
  intro d call' hd
  rcases Table.lookup_insert_cases hd with ⟨-, rfl⟩ | ⟨-, hother⟩
  · exact hc
  · exact h.2 d call' hother

theorem Spent.step {i : ℕ} (h : s.Spent i) {a : InodeStep} (ha : s.NoWrap a) :
    (s.apply a).Spent i := by
  rcases s.apply_cases a with ⟨b, rfl⟩ | ⟨mgr, hmgr, hb⟩
  · simp only [apply]
    cases b with
    | get call path isDir size =>
      simp only [SharedInodes.step]
      cases s.calls.lookup call with
      | some c => exact h
      | none =>
        dsimp only
        cases s.mgr.pathToInode.lookup (normalizePath path) with
        | some inode => exact h.moved le_rfl (Option.some_ne_none i).symm
        | none => exact h.moved le_rfl (Option.some_ne_none i).symm
    | fetchAdd call now =>
      simp only [SharedInodes.step]
      split
      · have hnext : u64 (s.mgr.nextInode + 1) = s.mgr.nextInode + 1 := u64_eq ha
        rw [hnext]
        refine h.moved (Nat.le_succ _) ?_
        intro heq
        exact absurd (Option.some.inj heq) h.1.ne'
      · exact h
    | insertPath call =>
      simp only [SharedInodes.step]
      split
      · next inode entry hc => exact h.moved le_rfl fun heq => h.2 call _ hc heq
      · exact h
    | insertEntry call =>
      simp only [SharedInodes.step]
      split
      · exact h.moved le_rfl (Option.some_ne_none i).symm
      · exact h
  · rw [hb]
    exact ⟨hmgr.next.symm ▸ h.1, h.2⟩

def after (now : Now) (config : PermissionConfig) (steps : List InodeStep) (n : ℕ) :
    SharedInodes :=
  run apply ⟨.new now config, ∅⟩ (steps.take n)

/-- The number that a creation returns in step `n`. -/
def creation (now : Now) (config : PermissionConfig) (steps : List InodeStep) (n : ℕ) :
    Option ℕ :=
  steps[n]?.bind (after now config steps n).creates

end SharedInodes

/-- Every number in the maps comes from below the counter, entries carry the number they are
found under, no two creations return one number, and none returns a number that has had an
entry, whether or not the entry has been removed since. -/
theorem inode_numbers_not_reused (now : Now) (config : PermissionConfig) (steps : List InodeStep)
    (hwrap : Along SharedInodes.apply SharedInodes.NoWrap ⟨.new now config, ∅⟩ steps) :
    let state := SharedInodes.after now config steps
    let creation := SharedInodes.creation now config steps
    (∀ n i entry, (state n).mgr.getEntry i = some entry →
      rootInode ≤ i ∧ i < (state n).mgr.nextInode ∧ entry.attr.ino = i) ∧
    (∀ n path i, AList.lookup path (state n).mgr.pathToInode = some i →
      rootInode ≤ i ∧ i < (state n).mgr.nextInode) ∧
    (∀ m n i, creation m = some i → creation n = some i → m = n) ∧
    ∀ m n i, m ≤ n → (state m).mgr.getEntry i ≠ none → creation n ≠ some i := by
  intro state creation
  have hnumbered : ∀ n, (state n).Numbered := fun n =>
    states_invariant (fun s a h ha => h.step ha) (.start now config) hwrap n
  have hspent : ∀ {m n i}, m ≤ n → (state m).Spent i → (state n).Spent i := by
    intro m n i hmn hm
    exact @states_kept_from _ _ SharedInodes.apply SharedInodes.NoWrap (·.Spent i)
      (fun s a h ha => h.step ha) _ steps hwrap m n hmn hm
  -- a creation takes a number that is not given out, and gives it out
  have hbefore : ∀ {n i}, creation n = some i → ¬(state n).Spent i := by
    intro n i hn
    obtain ⟨a, -, ha⟩ := Option.bind_eq_some_iff.mp hn
    exact SharedInodes.not_spent_of_creates ha
  have hafter : ∀ {n i}, creation n = some i → (state (n + 1)).Spent i := by
    intro n i hn
    obtain ⟨a, hstep, ha⟩ := Option.bind_eq_some_iff.mp hn
    show (run SharedInodes.apply _ (steps.take (n + 1))).Spent i
    rw [run_take_succ hstep]
    exact (hnumbered n).spent_of_creates ha
  refine ⟨?_, ?_, ?_, ?_⟩
  · exact fun n i entry hi => (hnumbered n).entry i entry hi
  · exact fun n path i hi => (hnumbered n).mapped path i hi
  · intro m n i hm hn
    rcases Nat.lt_trichotomy m n with hlt | heq | hlt
    · exact absurd (hspent hlt (hafter hm)) (hbefore hn)
    · exact heq
    · exact absurd (hspent hlt (hafter hn)) (hbefore hm)
  · intro m n i hmn hentry hn
    obtain ⟨entry, hi⟩ := Option.ne_none_iff_exists'.mp hentry
    exact hbefore hn (hspent hmn ((hnumbered m).spent_of_entry hi))

/-- Two calls create a path at once and each gets a number. One is removed as an inode, the other
by its path after a rename; a third creation of the path gets a third number. -/
theorem removed_number_not_reused :
    let steps : List InodeStep :=
      [.intern (.get 0 ['a'] false 0), .intern (.get 1 ['a'] false 0),
        .intern (.fetchAdd 0 ⟨1, 1⟩), .intern (.fetchAdd 1 ⟨1, 1⟩), .intern (.insertPath 0),
        .intern (.insertPath 1), .intern (.insertEntry 1), .intern (.insertEntry 0),
        .rename ⟨2, 2⟩ ['a'] ['b'], .remove 2, .removeByPath ['b'],
        .intern (.get 2 ['a'] true 0), .intern (.fetchAdd 2 ⟨3, 3⟩), .intern (.insertPath 2),
        .intern (.insertEntry 2)]
    let state := SharedInodes.after ⟨0, 0⟩ (.default 0 0) steps
    (state 8).mgr.getEntry 3 ≠ none ∧ (state 11).mgr.getEntry 3 = none ∧
      SharedInodes.creation ⟨0, 0⟩ (.default 0 0) steps 14 = some 4 ∧
      SharedInodes.creation ⟨0, 0⟩ (.default 0 0) steps 14 ≠ some 3 := by
  refine ⟨by decide, by decide, by decide, ?_⟩
  refine (inode_numbers_not_reused ⟨0, 0⟩ (.default 0 0) _ ?_).2.2.2 8 14 3 (by decide) ?_
  · decide
  · decide

end ObsFuse
