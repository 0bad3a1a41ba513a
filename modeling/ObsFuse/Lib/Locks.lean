import ObsFuse.Lib.Runs
import Mathlib.Data.Finset.Basic
import Mathlib.Logic.Function.Basic
import Mathlib.Logic.Relation

/-! # Threads over locks

Each thread is at a point of a program; its next move takes a lock, gives one back, or acts on
the shared data. A schedule names the thread that moves and what it is given to read. A thread
whose lock is taken does not move. -/

namespace ObsFuse.Lib

/-- What a thread does at a point of its program. -/
inductive Move (σ ι Lock Pc : Type*) where
  | acquire (l : Lock) (next : Pc)
  | release (l : Lock) (next : Pc)
  | act (f : ι → σ → σ × Pc)

/-- The move of a thread that holds the locks `held` takes it to a point where it holds what
`holds` tells. -/
def Move.Disciplined {σ ι Lock Pc : Type*} [DecidableEq Lock] (holds : Pc → Finset Lock)
    (held : Finset Lock) : Move σ ι Lock Pc → Prop
  | .acquire l next => holds next = insert l held
  | .release l next => l ∈ held ∧ holds next = held.erase l
  | .act f => ∀ i x, holds (f i x).2 = held

def Move.Leads {σ ι Lock Pc : Type*} (Q : Pc → Prop) : Move σ ι Lock Pc → Prop
  | .acquire _ next => Q next
  | .release _ next => Q next
  | .act f => ∀ i x, Q (f i x).2

theorem Move.Leads.imp {σ ι Lock Pc : Type*} {Q R : Pc → Prop} (h : ∀ pc, Q pc → R pc)
    {move : Move σ ι Lock Pc} (hmove : move.Leads Q) : move.Leads R := by
  cases move with
  | acquire l next => exact h next hmove
  | release l next => exact h next hmove
  | act f => exact fun i x => h _ (hmove i x)

structure Threads (σ Lock Pc : Type*) where
  shared : σ
  holder : Lock → Option ℕ
  pc : ℕ → Pc

namespace Threads
variable {σ ι Lock Pc : Type*}

def start (shared : σ) (idle : Pc) : Threads σ Lock Pc := ⟨shared, fun _ => none, fun _ => idle⟩

def step [DecidableEq Lock] (program : Pc → Move σ ι Lock Pc) (s : Threads σ Lock Pc)
    (event : ℕ × ι) : Threads σ Lock Pc :=
  match program (s.pc event.1) with
  | .acquire l next =>
    if s.holder l = none then
      { s with
        holder := Function.update s.holder l (some event.1)
        pc := Function.update s.pc event.1 next }
    else s
  | .release l next =>
    { s with
      holder := Function.update s.holder l none
      pc := Function.update s.pc event.1 next }
  | .act f =>
    let (shared, next) := f event.2 s.shared
    { s with shared := shared, pc := Function.update s.pc event.1 next }

def WaitsFor (program : Pc → Move σ ι Lock Pc) (s : Threads σ Lock Pc) (t u : ℕ) : Prop :=
  ∃ l next, program (s.pc t) = .acquire l next ∧ s.holder l = some u

def CircularWait (program : Pc → Move σ ι Lock Pc) (s : Threads σ Lock Pc) : Prop :=
  ∃ t, Relation.TransGen (WaitsFor program s) t t

/-- The holder of each lock is the one thread that is at a point where it holds it. -/
def Owned (holds : Pc → Finset Lock) (s : Threads σ Lock Pc) : Prop :=
  ∀ l t, s.holder l = some t ↔ l ∈ holds (s.pc t)

variable {program : Pc → Move σ ι Lock Pc} {holds : Pc → Finset Lock} {s : Threads σ Lock Pc}

theorem step_pc_of_ne [DecidableEq Lock] {t u : ℕ} (h : u ≠ t) (i : ι) :
    (s.step program (t, i)).pc u = s.pc u := by
  simp only [step]
  cases program (s.pc t) with
  | acquire l next =>
    dsimp only
    split
    · exact Function.update_of_ne h _ _
    · rfl
  | release l next => exact Function.update_of_ne h _ _
  | act f => exact Function.update_of_ne h _ _

theorem step_pc_act [DecidableEq Lock] {t : ℕ} {f : ι → σ → σ × Pc}
    (h : program (s.pc t) = .act f) (i : ι) :
    (s.step program (t, i)).pc t = (f i s.shared).2 := by
  simp only [step, h, Function.update_self]

/-- A thread that moves stays where it is, as its lock is taken, or goes on. -/
theorem step_pc_of_leads [DecidableEq Lock] {Q : Pc → Prop} {t : ℕ}
    (h : (program (s.pc t)).Leads Q) (i : ι) :
    (s.step program (t, i)).pc t = s.pc t ∨ Q ((s.step program (t, i)).pc t) := by
  simp only [step]
  cases hmove : program (s.pc t) with
  | acquire l next =>
    rw [hmove] at h
    dsimp only
    split
    · right
      simp only [Function.update_self]
      exact h
    · exact .inl rfl
  | release l next =>
    rw [hmove] at h
    right
    simp only [Function.update_self]
    exact h
  | act f =>
    rw [hmove] at h
    right
    simp only [Function.update_self]
    exact h i s.shared

theorem Owned.start {idle : Pc} (h : holds idle = ∅) (shared : σ) :
    Owned holds (Threads.start shared idle) := by
  intro l t
  simp only [Threads.start, h, Finset.notMem_empty, reduceCtorEq]

theorem Owned.unique (hs : Owned holds s) {l : Lock} {t u : ℕ} (ht : l ∈ holds (s.pc t))
    (hu : l ∈ holds (s.pc u)) : t = u := by
  rw [← hs l t] at ht
  rw [← hs l u] at hu
  exact Option.some.inj (ht.symm.trans hu)

theorem Owned.step [DecidableEq Lock] (hd : ∀ pc, (program pc).Disciplined holds (holds pc))
    (hs : Owned holds s) (event : ℕ × ι) : Owned holds (s.step program event) := by
  obtain ⟨t, i⟩ := event
  intro l u
  have hold := hs l u
  have hmoved := hd (s.pc t)
  simp only [Threads.step]
  cases hmove : program (s.pc t) with
  | acquire m next =>
    have hnext : holds next = insert m (holds (s.pc t)) := by rwa [hmove] at hmoved
    by_cases hfree : s.holder m = none
    · simp only [if_pos hfree]
      by_cases hu : u = t
      · rw [hu] at hold ⊢
        rw [Function.update_self, hnext, Finset.mem_insert]
        by_cases hl : l = m
        · rw [hl, Function.update_self]
          exact ⟨fun _ => .inl rfl, fun _ => rfl⟩
        · rw [Function.update_of_ne hl, hold]
          exact ⟨.inr, fun h => h.resolve_left hl⟩
      · rw [Function.update_of_ne hu, ← hold]
        by_cases hl : l = m
        · rw [hl, Function.update_self, hfree]
          exact ⟨fun h => absurd (Option.some.inj h).symm hu,
            fun h => absurd h.symm (Option.some_ne_none u)⟩
        · rw [Function.update_of_ne hl]
    · simp only [if_neg hfree]
      exact hold
  | release m next =>
    rw [hmove] at hmoved
    obtain ⟨hheld, hnext⟩ := hmoved
    rw [← hs m t] at hheld
    dsimp only
    by_cases hu : u = t
    · rw [hu] at hold ⊢
      rw [Function.update_self, hnext, Finset.mem_erase]
      by_cases hl : l = m
      · rw [hl, Function.update_self]
        exact ⟨fun h => absurd h.symm (Option.some_ne_none t), fun h => absurd rfl h.1⟩
      · rw [Function.update_of_ne hl, hold]
        exact ⟨fun h => ⟨hl, h⟩, And.right⟩
    · rw [Function.update_of_ne hu, ← hold]
      by_cases hl : l = m
      · rw [hl, Function.update_self, hheld]
        exact ⟨fun h => absurd h.symm (Option.some_ne_none u),
          fun h => absurd (Option.some.inj h).symm hu⟩
      · rw [Function.update_of_ne hl]
  | act f =>
    have hnext : ∀ i x, holds (f i x).2 = holds (s.pc t) := by rwa [hmove] at hmoved
    dsimp only
    by_cases hu : u = t
    · rw [hu] at hold ⊢
      rw [Function.update_self, hnext]
      exact hold
    · rw [Function.update_of_ne hu]
      exact hold

/-- A thread asks for a lock not above one it holds. -/
def OutOfOrder (program : Pc → Move σ ι Lock Pc) (holds : Pc → Finset Lock) (rank : Lock → ℕ)
    (pc : Pc) : Prop :=
  ∃ l m next, program pc = .acquire m next ∧ l ∈ holds pc ∧ rank m ≤ rank l

theorem rank_lt_of_waits {rank : Lock → ℕ} (hs : Owned holds s)
    (hord : ∀ t, ¬OutOfOrder program holds rank (s.pc t)) {t u : ℕ}
    (h : Relation.TransGen (WaitsFor program s) t u) {m : Lock} {next : Pc}
    (hm : program (s.pc u) = .acquire m next) :
    ∃ l next', program (s.pc t) = .acquire l next' ∧ rank l < rank m := by
  have hone : ∀ {v w : ℕ}, WaitsFor program s v w → ∀ {m : Lock} {next : Pc},
      program (s.pc w) = .acquire m next →
        ∃ l next', program (s.pc v) = .acquire l next' ∧ rank l < rank m := by
    rintro v w ⟨l, next', hl, hheld⟩ m next hm
    refine ⟨l, next', hl, ?_⟩
    by_contra hle
    exact hord w ⟨l, m, next, hm, (hs l w).mp hheld, Nat.le_of_not_lt hle⟩
  induction h generalizing m next with
  | single hw => exact hone hw hm
  | tail _ hw ih =>
    obtain ⟨l, next', hl, hlt⟩ := hone hw hm
    obtain ⟨k, next'', hk, hlt'⟩ := ih hl
    exact ⟨k, next'', hk, hlt'.trans hlt⟩

/-- Whatever order the locks are given, some thread in a circular wait breaks it. -/
theorem CircularWait.outOfOrder (rank : Lock → ℕ) (hs : Owned holds s)
    (h : CircularWait program s) : ∃ t, OutOfOrder program holds rank (s.pc t) := by
  by_contra hno
  have hord : ∀ t, ¬OutOfOrder program holds rank (s.pc t) := fun t ht => hno ⟨t, ht⟩
  obtain ⟨t, hcycle⟩ := h
  obtain ⟨u, ⟨l, next, hl, hheld⟩, -⟩ := Relation.TransGen.head'_iff.mp hcycle
  obtain ⟨k, next', hk, hlt⟩ := rank_lt_of_waits hs hord hcycle hl
  rw [hl] at hk
  cases hk
  exact absurd hlt (Nat.lt_irrefl _)

theorem circularWait_of_two {t u : ℕ} (htu : WaitsFor program s t u)
    (hut : WaitsFor program s u t) : CircularWait program s := ⟨t, .tail (.single htu) hut⟩

end Threads

end ObsFuse.Lib
