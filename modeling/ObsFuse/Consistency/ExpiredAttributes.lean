import ObsFuse.Consistency.AttrBound
import ObsFuse.Fs.LookupPath

/-! # Attributes that have expired

The cache keeps an expired entry until a `get_attr` looks at it. A run is watched with, for
each inode, the time at which its entry was last stored or updated, and whether more than
`attr_ttl` had passed since then at some moment after the last `put_attr`. -/

namespace ObsFuse
open Lib

inductive MetadataCall where
  | attr (call : AttrCall)
  | getDir (now : Instant) (inode : ℕ)
  | putDir (now : Instant) (inode : ℕ) (children : List ℕ) (complete : Bool)
  | invalidateDir (inode : ℕ)
  | isNegative (now : Instant) (path : Str)
  | putNegative (now : Instant) (path : Str)
  | removeNegative (path : Str)
  | invalidate (inode : ℕ)
  | invalidateParent (parentInode : ℕ)
  | clear

namespace MetadataCall

/-- The reading of the clock that the operation takes, if it takes one. -/
def readsClock : MetadataCall → Option Instant
  | .attr (.put now _ _) | .attr (.get now _) | .attr (.update now _ _) => some now
  | .getDir now _ | .putDir now _ _ _ | .isNegative now _ | .putNegative now _ => some now
  | _ => none

def puts : MetadataCall → ℕ → Bool
  | .attr (.put _ inode _), i => i = inode
  | _, _ => false

end MetadataCall

namespace MetadataCache

def call (c : MetadataCache) : MetadataCall → MetadataCache
  | .attr call => c.step call
  | .getDir now inode => (c.getDir now inode).2
  | .putDir now inode children complete => c.putDir now inode children complete
  | .invalidateDir inode => c.invalidateDir inode
  | .isNegative now path => (c.isNegative now path).2
  | .putNegative now path => c.putNegative now path
  | .removeNegative path => c.removeNegative path
  | .invalidate inode => c.invalidate inode
  | .invalidateParent inode => c.invalidateParent inode
  | .clear => c.clear

/-- When the call stores or updates the entry of the inode, if it does. -/
def stamps (c : MetadataCache) : MetadataCall → ℕ → Option Instant
  | .attr (.put now inode _), i => if i = inode then some now else none
  | .attr (.update now inode _), i => if i = inode ∧ i ∈ c.attrCache then some now else none
  | _, _ => none

end MetadataCache

structure WatchedCache where
  cache : MetadataCache
  clock : Instant
  touched : ℕ → Option Instant
  lapsed : ℕ → Bool

namespace WatchedCache

def new (config : MetadataCacheConfig) (order : IterOrder (ℕ × Instant)) : WatchedCache where
  cache := .new config order
  clock := 0
  touched := fun _ => none
  lapsed := fun _ => false

/-- At `now`, the attributes of the inode have expired. -/
def Expired (w : WatchedCache) (now : Instant) (inode : ℕ) : Prop :=
  w.lapsed inode = true ∨ ∃ t ∈ w.touched inode, w.cache.config.attrTtl < now - t

instance (w : WatchedCache) (now : Instant) (inode : ℕ) : Decidable (w.Expired now inode) :=
  inferInstanceAs (Decidable (_ ∨ _))

def step (w : WatchedCache) (call : MetadataCall) : WatchedCache where
  cache := w.cache.call call
  clock := call.readsClock.getD w.clock
  touched := fun inode => (w.cache.stamps call inode).or (w.touched inode)
  lapsed := fun inode =>
    match w.cache.stamps call inode with
    | some now => !call.puts inode && decide (w.Expired now inode)
    | none => w.lapsed inode

/-- Expired attributes stay expired: no later `get_attr` returns them. -/
def StaysExpired (w : WatchedCache) : Prop :=
  ∀ now inode, w.clock ≤ now → w.Expired now inode → (w.cache.getAttr now inode).1 = none

def OnTime (w : WatchedCache) (call : MetadataCall) : Prop :=
  ∀ now ∈ call.readsClock, w.clock ≤ now

/-- An update finds the inode's entry, if there is one, not yet expired. -/
def UpdatesFresh (w : WatchedCache) : MetadataCall → Prop
  | .attr (.update now inode _) =>
    ∀ cached ∈ AList.lookup inode w.cache.attrCache,
      cached.isExpired now w.cache.config.attrTtl = false
  | _ => True

/-- The entries carry the time at which they were last stored or updated. -/
def Dated (w : WatchedCache) : Prop :=
  ∀ inode, ∀ cached ∈ AList.lookup inode w.cache.attrCache,
    w.touched inode = some cached.cachedAt

end WatchedCache

theorem CachedAttr.isExpired_mono {cached : CachedAttr} {now later : Instant} {ttl : ℕ}
    (hle : now ≤ later) (h : cached.isExpired now ttl = true) :
    cached.isExpired later ttl = true := by
  simp only [isExpired, decide_eq_true_eq] at h ⊢
  exact Nat.lt_of_lt_of_le h (Nat.sub_le_sub_right hle _)

theorem CachedAttr.not_isExpired_at {cached : CachedAttr} (ttl : ℕ) :
    cached.isExpired cached.cachedAt ttl = false := by
  simp only [isExpired, decide_eq_false_iff_not]
  omega

namespace MetadataCache
variable {c : MetadataCache}

theorem getAttr_none_iff {now : Instant} {inode : ℕ} :
    (c.getAttr now inode).1 = none ↔
      ∀ cached ∈ AList.lookup inode c.attrCache, cached.isExpired now c.config.attrTtl = true := by
  unfold getAttr
  cases hc : AList.lookup inode c.attrCache with
  | none => simp
  | some cached =>
    cases he : cached.isExpired now c.config.attrTtl with
    | false => simp [he]
    | true => simp [he]

theorem call_config (c : MetadataCache) (call : MetadataCall) :
    (c.call call).config = c.config := by
  cases call with
  | attr call =>
    cases call with
    | put now inode attr => exact putAttr_config now inode attr
    | get now inode => exact getAttr_config now inode
    | update _ _ _ | invalidate _ => rfl
  | getDir now inode =>
    simp only [MetadataCache.call, getDir]
    split
    · split
      · rfl
      · rfl
    · rfl
  | isNegative now path => exact isNegative_config now path
  | _ => rfl

/-- What one call does to the entries: it stamps an inode's entry or leaves it, or removes it. -/
theorem lookup_call {call : MetadataCall} {i : ℕ} {cached : CachedAttr}
    (h : AList.lookup i (c.call call).attrCache = some cached) :
    c.stamps call i = some cached.cachedAt ∨
      c.stamps call i = none ∧ AList.lookup i c.attrCache = some cached := by
  cases call with
  | attr call =>
    cases call with
    | put now inode attr =>
      simp only [MetadataCache.call, step, putAttr] at h
      rcases Table.lookup_insert_cases h with ⟨hi, rfl⟩ | ⟨hi, hold⟩
      · exact .inl (if_pos hi)
      · refine .inr ⟨if_neg hi, ?_⟩
        split at hold
        · exact lookup_evictOldestAttrs hold
        · exact hold
    | get now inode => exact .inr ⟨rfl, lookup_getAttr h⟩
    | update now inode f =>
      simp only [MetadataCache.call, step, updateAttr, Table.lookup_modify] at h
      by_cases hi : i = inode
      · rw [if_pos hi, ← hi] at h
        obtain ⟨old, hold, rfl⟩ := Option.map_eq_some_iff.mp h
        have hin : i ∈ c.attrCache := AList.lookup_isSome.mp (by rw [hold]; rfl)
        exact .inl (if_pos ⟨hi, hin⟩)
      · rw [if_neg hi] at h
        exact .inr ⟨if_neg fun hboth => hi hboth.1, h⟩
    | invalidate inode => exact .inr ⟨rfl, Table.lookup_of_erase h⟩
  | getDir now inode =>
    refine .inr ⟨rfl, ?_⟩
    simp only [MetadataCache.call, getDir] at h
    split at h
    · split at h
      · exact h
      · exact h
    · exact h
  | isNegative now path =>
    refine .inr ⟨rfl, ?_⟩
    rw [← isNegative_attrCache now path]
    exact h
  | invalidate inode => exact .inr ⟨rfl, Table.lookup_of_erase h⟩
  | clear => cases h
  | _ => exact .inr ⟨rfl, h⟩

theorem stamps_eq_some {call : MetadataCall} {i : ℕ} {now : Instant}
    (h : c.stamps call i = some now) :
    call.readsClock = some now ∧ (call.puts i = true ∨ ∃ f, call = .attr (.update now i f)) := by
  unfold stamps at h
  split at h
  · split at h
    · next hi =>
      cases h
      exact ⟨rfl, .inl (decide_eq_true hi)⟩
    · cases h
  · split at h
    · next f hi =>
      cases h
      rw [hi.1]
      exact ⟨rfl, .inr ⟨f, rfl⟩⟩
    · cases h
  · cases h

end MetadataCache

namespace WatchedCache
variable {w : WatchedCache}

theorem Dated.step (h : w.Dated) (call : MetadataCall) : (w.step call).Dated := by
  intro inode cached hcached
  show (w.cache.stamps call inode).or (w.touched inode) = some cached.cachedAt
  rcases MetadataCache.lookup_call hcached with hstamp | ⟨hnone, hold⟩
  · rw [hstamp]
    rfl
  · rw [hnone]
    exact h inode cached hold

/-- Where the entries are dated, only an inode that had lapsed before could be served. -/
theorem staysExpired_iff (h : w.Dated) :
    w.StaysExpired ↔
      ∀ inode, w.lapsed inode = true → ∀ cached ∈ AList.lookup inode w.cache.attrCache,
        cached.isExpired w.clock w.cache.config.attrTtl = true := by
  constructor
  · intro hstays inode hlapsed
    exact MetadataCache.getAttr_none_iff.mp (hstays w.clock inode (Nat.le_refl _) (.inl hlapsed))
  · intro hlapsed now inode hnow hexpired
    rw [MetadataCache.getAttr_none_iff]
    intro cached hcached
    rcases hexpired with hl | ⟨t, ht, hlt⟩
    · exact CachedAttr.isExpired_mono hnow (hlapsed inode hl cached hcached)
    · rw [h inode cached hcached] at ht
      cases ht
      exact decide_eq_true hlt

theorem expired_iff (h : w.Dated) (hstays : w.StaysExpired) {now : Instant} {inode : ℕ}
    {cached : CachedAttr} (hnow : w.clock ≤ now)
    (hcached : AList.lookup inode w.cache.attrCache = some cached) :
    w.Expired now inode ↔ cached.isExpired now w.cache.config.attrTtl = true := by
  constructor
  · intro hexpired
    have hnone := hstays now inode hnow hexpired
    exact MetadataCache.getAttr_none_iff.mp hnone cached hcached
  · intro hexpired
    exact .inr ⟨cached.cachedAt, h inode cached hcached, of_decide_eq_true hexpired⟩

/-- An update of an expired entry gives it the time of the update, and it is served again. -/
theorem StaysExpired.fresh_of_update (h : w.Dated) (hstays : w.StaysExpired) {now : Instant}
    {inode : ℕ} {f : FileAttr → FileAttr} (hnow : w.clock ≤ now)
    (hafter : (w.step (.attr (.update now inode f))).StaysExpired) {cached : CachedAttr}
    (hcached : AList.lookup inode w.cache.attrCache = some cached) :
    cached.isExpired now w.cache.config.attrTtl = false := by
  by_contra hne
  have hexpired : w.Expired now inode :=
    (expired_iff h hstays hnow hcached).mpr (Bool.not_eq_false _ ▸ hne)
  have hin : inode ∈ w.cache.attrCache := AList.lookup_isSome.mp (by rw [hcached]; rfl)
  have hstamp : w.cache.stamps (.attr (.update now inode f)) inode = some now :=
    if_pos ⟨rfl, hin⟩
  have hl : (w.step (.attr (.update now inode f))).lapsed inode = true := by
    simp only [step, hstamp, MetadataCall.puts, Bool.not_false, Bool.true_and,
      decide_eq_true hexpired]
  have hentry : AList.lookup inode (w.step (.attr (.update now inode f))).cache.attrCache =
      some ⟨f cached.attr, now⟩ := by
    simp only [step, MetadataCache.call, MetadataCache.step, MetadataCache.updateAttr,
      Table.lookup_modify, if_true]
    rw [hcached, Option.map_some]
  have hserved := (staysExpired_iff (h.step _)).mp hafter inode hl ⟨f cached.attr, now⟩ hentry
  have hfresh := @CachedAttr.not_isExpired_at ⟨f cached.attr, now⟩ w.cache.config.attrTtl
  rw [show (w.step (.attr (.update now inode f))).clock = now from rfl] at hserved
  exact absurd hserved (Bool.not_eq_true _ ▸ hfresh)

theorem clock_le_step {call : MetadataCall} (htime : w.OnTime call) :
    w.clock ≤ (w.step call).clock := by
  show w.clock ≤ call.readsClock.getD w.clock
  cases hclock : call.readsClock with
  | none => exact Nat.le_refl _
  | some now => exact htime now hclock

/-- A call stamps no entry of an inode that stays lapsed, unless it updates an expired one. -/
theorem StaysExpired.not_stamped (h : w.Dated) (hstays : w.StaysExpired) {call : MetadataCall}
    (htime : w.OnTime call) (hfresh : w.UpdatesFresh call) {inode : ℕ} {cached : CachedAttr}
    (hl : (w.step call).lapsed inode = true)
    (hcached : AList.lookup inode (w.step call).cache.attrCache = some cached) :
    w.cache.stamps call inode ≠ some cached.cachedAt := by
  intro hstamp
  obtain ⟨hreads, hput | ⟨f, rfl⟩⟩ := MetadataCache.stamps_eq_some hstamp
  · simp only [step, hstamp, hput, Bool.not_true, Bool.false_and] at hl
    cases hl
  · have hexpired : w.Expired cached.cachedAt inode := by
      simpa [step, hstamp, MetadataCall.puts] using hl
    have hnow := htime cached.cachedAt hreads
    cases hold : AList.lookup inode w.cache.attrCache with
    | none =>
      have hafter : AList.lookup inode (w.cache.updateAttr cached.cachedAt inode f).attrCache =
          some cached := hcached
      rw [MetadataCache.updateAttr, Table.lookup_modify, if_pos rfl, hold] at hafter
      cases hafter
    | some old =>
      have hold' := (expired_iff h hstays hnow hold).mp hexpired
      rw [hfresh old hold] at hold'
      cases hold'

theorem StaysExpired.step (h : w.Dated) (hstays : w.StaysExpired) {call : MetadataCall}
    (htime : w.OnTime call) (hfresh : w.UpdatesFresh call) : (w.step call).StaysExpired := by
  rw [staysExpired_iff (h.step call)]
  intro inode hl cached hcached
  rw [show (w.step call).cache.config = w.cache.config from w.cache.call_config call]
  rcases MetadataCache.lookup_call hcached with hstamp | ⟨hnone, hold⟩
  · exact absurd hstamp (hstays.not_stamped h htime hfresh hl hcached)
  · have hl' : w.lapsed inode = true := by
      simpa only [WatchedCache.step, hnone] using hl
    exact CachedAttr.isExpired_mono (clock_le_step htime)
      ((staysExpired_iff h).mp hstays inode hl' cached hold)

theorem StaysExpired.step_iff (h : w.Dated) (hstays : w.StaysExpired) {call : MetadataCall}
    (htime : w.OnTime call) : (w.step call).StaysExpired ↔ w.UpdatesFresh call := by
  constructor
  · intro hafter
    unfold UpdatesFresh
    split
    · next now inode f =>
      intro cached hcached
      exact hstays.fresh_of_update h (htime now rfl) hafter hcached
    · trivial
  · exact hstays.step h htime

end WatchedCache

/-- In every run of the cache on a clock that does not run backwards, expired attributes stay
expired in every state exactly when every update finds its entry not yet expired. -/
theorem attributes_stay_expired_iff (config : MetadataCacheConfig)
    (order : IterOrder (ℕ × Instant)) (calls : List MetadataCall)
    (htime : Along WatchedCache.step WatchedCache.OnTime (.new config order) calls) :
    (∀ n, (run WatchedCache.step (.new config order) (calls.take n)).StaysExpired) ↔
      Along WatchedCache.step WatchedCache.UpdatesFresh (.new config order) calls := by
  refine forall_states_iff_along_of WatchedCache.StaysExpired (fun w call h _ => h.step call)
    (fun w call h hside hstays => hstays.step_iff h hside) htime ?_ ?_
  · intro inode cached hcached
    cases hcached
  · intro now inode _ _
    rfl

/-- Stored at 0 under a time to live of 3 and updated at 5, the attributes are served at 6. -/
theorem expired_attributes_revived :
    let attr := FileAttr.file 0 2 0 0 0 0o644
    let calls : List MetadataCall := [.attr (.put 0 2 attr), .attr (.update 5 2 id)]
    let w := run WatchedCache.step (.new ⟨3, 5, 1, 1000⟩ .storage) calls
    Along WatchedCache.step WatchedCache.OnTime (.new ⟨3, 5, 1, 1000⟩ .storage) calls ∧
      w.Expired 6 2 ∧ (w.cache.getAttr 6 2).1 = some attr ∧ ¬w.StaysExpired := by
  intro attr calls w
  have hexpired : w.Expired 6 2 := by decide
  have hserved : (w.cache.getAttr 6 2).1 = some attr := by decide
  refine ⟨⟨?_, ?_, trivial⟩, hexpired, hserved, ?_⟩
  · rintro now ⟨⟩
    decide
  · rintro now ⟨⟩
    decide
  · intro hstays
    have hnone := hstays 6 2 (by decide) hexpired
    rw [hserved] at hnone
    cases hnone

/-- An update within the time to live extends it; after it, nothing is served. -/
theorem attributes_stay_expired_after_update :
    let calls : List MetadataCall :=
      [.attr (.put 0 2 (.file 0 2 0 0 0 0o644)), .attr (.update 2 2 id)]
    (run WatchedCache.step (.new ⟨3, 5, 1, 1000⟩ .storage) calls).StaysExpired := by
  intro calls
  refine (attributes_stay_expired_iff ⟨3, 5, 1, 1000⟩ .storage calls ?_).mpr ?_ 2
  · refine ⟨?_, ?_, trivial⟩
    · rintro now ⟨⟩
      decide
    · rintro now ⟨⟩
      decide
  · refine ⟨trivial, ?_, trivial⟩
    rintro cached ⟨⟩
    decide

end ObsFuse
