import ObsFuse.Lib.Runs

/-! # Machines that share a part of their states

Each party runs a machine of its own. When one takes a step, the others get a notice of what it
shows then. What a party goes through in a run of all of them is a run of its own machine, where
the steps of the others are notices. -/

namespace ObsFuse.Lib

structure Sharing (σ α τ : Type*) where
  step : σ → α → σ
  shown : σ → τ
  notice : τ → α

namespace Sharing
variable {ι σ α τ : Type*} [DecidableEq ι] (m : Sharing σ α τ)

/-- One party takes a step, and the others are told. -/
def act (s : ι → σ) (e : ι × α) : ι → σ :=
  let t := m.step (s e.1) e.2
  fun j => if j = e.1 then t else m.step (s j) (m.notice (m.shown t))

/-- The run as one party sees it. -/
def view (i : ι) : (ι → σ) → List (ι × α) → List α
  | _, [] => []
  | s, e :: es =>
    (if i = e.1 then e.2 else m.notice (m.shown (m.step (s e.1) e.2))) :: view i (m.act s e) es

variable {m} {s : ι → σ}

theorem act_self (e : ι × α) : m.act s e e.1 = m.step (s e.1) e.2 := if_pos rfl

theorem act_other (e : ι × α) {j : ι} (h : j ≠ e.1) :
    m.act s e j = m.step (s j) (m.notice (m.shown (m.step (s e.1) e.2))) := if_neg h

/-- What a party goes through is a run of its own machine. -/
theorem run_act (i : ι) (es : List (ι × α)) :
    run m.act s es i = run m.step (s i) (m.view i s es) := by
  induction es generalizing s with
  | nil => rfl
  | cons e es ih =>
    rw [run_cons, ih, view, run_cons]
    congr 1
    by_cases h : i = e.1
    · rw [if_pos h, h, act_self]
    · rw [if_neg h, act_other e h]

/-- A party sees its own steps and notices. -/
theorem mem_view {i : ι} {es : List (ι × α)} {a : α} (h : a ∈ m.view i s es) :
    (i, a) ∈ es ∨ ∃ t, a = m.notice t := by
  induction es generalizing s with
  | nil => cases h
  | cons e es ih =>
    rcases List.mem_cons.mp h with hhead | htail
    · by_cases hi : i = e.1
      · rw [if_pos hi] at hhead
        left
        rw [hhead, hi]
        exact List.mem_cons_self ..
      · rw [if_neg hi] at hhead
        exact .inr ⟨_, hhead⟩
    · exact (ih htail).imp_left (List.mem_cons_of_mem e)

/-- Where notices are believed, all parties show the same after a step. -/
theorem shown_act (h : ∀ s t, m.shown (m.step s (m.notice t)) = t) (e : ι × α) (j : ι) :
    m.shown (m.act s e j) = m.shown (m.step (s e.1) e.2) := by
  by_cases hj : j = e.1
  · rw [hj, act_self]
  · rw [act_other e hj, h]

/-- Allowed steps of any party keep what each of them keeps and what notices of it keep. -/
theorem run_act_invariant {Inv : σ → Prop} {ok : σ → α → Prop}
    (hstep : ∀ s a, Inv s → ok s a → Inv (m.step s a))
    (hnotice : ∀ s t, Inv s → Inv t → Inv (m.step s (m.notice (m.shown t))))
    (hs : ∀ i, Inv (s i)) {es : List (ι × α)} (hok : Along m.act (fun s e => ok (s e.1) e.2) s es)
    (i : ι) : Inv (run m.act s es i) := by
  have hact : ∀ (s : ι → σ) e, (∀ i, Inv (s i)) → ok (s e.1) e.2 → ∀ i, Inv (m.act s e i) := by
    intro s e hs he j
    have hown := hstep (s e.1) e.2 (hs e.1) he
    by_cases hj : j = e.1
    · rw [hj, act_self]
      exact hown
    · rw [act_other e hj]
      exact hnotice (s j) _ (hs j) hown
  exact run_invariant hact hs hok i

end Sharing

end ObsFuse.Lib
