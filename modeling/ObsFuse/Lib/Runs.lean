import Mathlib.Data.List.Basic

/-! # Runs of a deterministic labelled machine

A machine is a step function from a state and a label to a state. A run takes a
list of labels in order. `Along` says that a condition holds of every label in
the state in which it is taken; the rules below turn what one step preserves
into what a whole run preserves. -/

namespace ObsFuse.Lib

variable {σ α : Type*}

def run (step : σ → α → σ) (s : σ) (as : List α) : σ := as.foldl step s

@[simp] theorem run_nil (step : σ → α → σ) (s : σ) : run step s [] = s := rfl

@[simp] theorem run_cons (step : σ → α → σ) (s : σ) (a : α) (as : List α) :
    run step s (a :: as) = run step (step s a) as := rfl

theorem run_append (step : σ → α → σ) (s : σ) (as bs : List α) :
    run step s (as ++ bs) = run step (run step s as) bs := List.foldl_append

/-- `ok` holds of each label of the list in the state in which it is taken. -/
def Along (step : σ → α → σ) (ok : σ → α → Prop) : σ → List α → Prop
  | _, [] => True
  | s, a :: as => ok s a ∧ Along step ok (step s a) as

@[simp] theorem along_nil (step : σ → α → σ) (ok : σ → α → Prop) (s : σ) :
    Along step ok s [] := trivial

@[simp] theorem along_cons (step : σ → α → σ) (ok : σ → α → Prop) (s : σ) (a : α)
    (as : List α) :
    Along step ok s (a :: as) ↔ ok s a ∧ Along step ok (step s a) as := Iff.rfl

theorem along_true (step : σ → α → σ) (s : σ) (as : List α) :
    Along step (fun _ _ => True) s as := by
  induction as generalizing s with
  | nil => trivial
  | cons a as ih => exact ⟨trivial, ih (step s a)⟩

instance decidableAlong (step : σ → α → σ) (ok : σ → α → Prop) [∀ s a, Decidable (ok s a)] :
    (s : σ) → (as : List α) → Decidable (Along step ok s as)
  | _, [] => isTrue trivial
  | s, a :: as =>
    have := decidableAlong step ok (step s a) as
    inferInstanceAs (Decidable (ok s a ∧ Along step ok (step s a) as))

theorem along_append {step : σ → α → σ} {ok : σ → α → Prop} {s : σ} {as bs : List α} :
    Along step ok s (as ++ bs) ↔ Along step ok s as ∧ Along step ok (run step s as) bs := by
  induction as generalizing s with
  | nil => simp
  | cons a as ih => simp [ih, and_assoc]

/-- Invariant rule: what every allowed step keeps, every allowed run keeps. -/
theorem run_invariant {step : σ → α → σ} {ok : σ → α → Prop} {Inv : σ → Prop}
    (hstep : ∀ s a, Inv s → ok s a → Inv (step s a)) {s : σ} {as : List α}
    (hs : Inv s) (hok : Along step ok s as) : Inv (run step s as) := by
  induction as generalizing s with
  | nil => exact hs
  | cons a as ih => exact ih (hstep s a hs hok.1) hok.2

theorem run_kept {step : σ → α → σ} {Inv : σ → Prop} (hstep : ∀ s a, Inv s → Inv (step s a))
    {s : σ} (hs : Inv s) (as : List α) : Inv (run step s as) := by
  induction as generalizing s with
  | nil => exact hs
  | cons a as ih => exact ih (hstep s a hs)

/-- Invariant rule where the allowed labels do not depend on the state. -/
theorem run_invariant_of_forall {step : σ → α → σ} {ok : α → Prop} {Inv : σ → Prop}
    (hstep : ∀ s a, Inv s → ok a → Inv (step s a)) {s : σ} {as : List α}
    (hs : Inv s) (hok : ∀ a ∈ as, ok a) : Inv (run step s as) := by
  induction as generalizing s with
  | nil => exact hs
  | cons a as ih =>
    have hhead := hstep s a hs (hok a (List.mem_cons_self ..))
    exact ih hhead fun b hb => hok b (List.mem_cons_of_mem _ hb)

theorem states_invariant {step : σ → α → σ} {ok : σ → α → Prop} {Inv : σ → Prop}
    (hstep : ∀ s a, Inv s → ok s a → Inv (step s a)) {s : σ} {as : List α}
    (hs : Inv s) (hok : Along step ok s as) (n : ℕ) : Inv (run step s (as.take n)) := by
  rw [← List.take_append_drop n as, along_append] at hok
  exact run_invariant hstep hs hok.1

theorem run_take_succ {step : σ → α → σ} {s : σ} {as : List α} {n : ℕ} {a : α}
    (h : as[n]? = some a) : run step s (as.take (n + 1)) = step (run step s (as.take n)) a := by
  rw [List.take_add_one, h, run_append]
  rfl

theorem along_getElem? {step : σ → α → σ} {ok : σ → α → Prop} {s : σ} {as : List α} {n : ℕ}
    {a : α} (hok : Along step ok s as) (h : as[n]? = some a) :
    ok (run step s (as.take n)) a := by
  induction as generalizing s n with
  | nil => cases h
  | cons b as ih =>
    cases n with
    | zero =>
      cases h
      exact hok.1
    | succ n => exact ih hok.2 h

/-- What every allowed step keeps, holds from the state in which it is first found on. -/
theorem states_kept_from {step : σ → α → σ} {ok : σ → α → Prop} {P : σ → Prop}
    (hstep : ∀ s a, P s → ok s a → P (step s a)) {s : σ} {as : List α}
    (hok : Along step ok s as) {m n : ℕ} (hmn : m ≤ n) (hm : P (run step s (as.take m))) :
    P (run step s (as.take n)) := by
  induction hmn with
  | refl => exact hm
  | @step n _ ih =>
    cases ha : as[n]? with
    | none =>
      have hlen : as.length ≤ n := List.getElem?_eq_none_iff.mp ha
      rw [List.take_of_length_le (Nat.le_succ_of_le hlen), ← List.take_of_length_le hlen]
      exact ih
    | some a =>
      rw [run_take_succ ha]
      exact hstep _ a ih (along_getElem? hok ha)

theorem along_of_invariant {step : σ → α → σ} {ok : σ → α → Prop} {Inv : σ → Prop}
    (hstep : ∀ s a, Inv s → Inv (step s a)) (hok : ∀ s a, Inv s → ok s a) {s : σ}
    {as : List α} (hs : Inv s) : Along step ok s as := by
  induction as generalizing s with
  | nil => trivial
  | cons a as ih => exact ⟨hok s a hs, ih (hstep s a hs)⟩

/-- Two step conditions that agree under an invariant agree along runs, if the steps that
meet them keep it. -/
theorem along_iff_of_kept {step : σ → α → σ} {p q : σ → α → Prop} {Inv : σ → Prop}
    (hstep : ∀ s a, Inv s → p s a → Inv (step s a)) (hpq : ∀ s a, Inv s → (p s a ↔ q s a))
    {s : σ} {as : List α} (hs : Inv s) : Along step p s as ↔ Along step q s as := by
  induction as generalizing s with
  | nil => exact Iff.rfl
  | cons a as ih =>
    rw [along_cons, along_cons, ← hpq s a hs]
    apply and_congr_right
    intro hp
    exact ih (hstep s a hs hp)

theorem along_iff_of_invariant {step : σ → α → σ} {p q : σ → α → Prop} {Inv : σ → Prop}
    (hstep : ∀ s a, Inv s → Inv (step s a)) (hpq : ∀ s a, Inv s → (p s a ↔ q s a))
    {s : σ} {as : List α} (hs : Inv s) : Along step p s as ↔ Along step q s as :=
  along_iff_of_kept (fun s a hs _ => hstep s a hs) hpq hs

theorem along_congr {step : σ → α → σ} {p q : σ → α → Prop} (h : ∀ s a, p s a ↔ q s a) {s : σ}
    {as : List α} : Along step p s as ↔ Along step q s as := by
  induction as generalizing s with
  | nil => exact Iff.rfl
  | cons a as ih => rw [along_cons, along_cons, h s a, ih]

/-- In a run whose steps all meet `side`, a property holds in every state exactly when every
step meets the condition, if an invariant that implies the property is kept under the condition,
and a step from it that breaks the condition breaks the property. -/
theorem forall_states_iff_along_through {step : σ → α → σ} {side ok : σ → α → Prop}
    {Inv : σ → Prop} (P : σ → Prop) (hP : ∀ s, Inv s → P s)
    (hkeep : ∀ s a, Inv s → side s a → ok s a → Inv (step s a))
    (hbreak : ∀ s a, Inv s → side s a → P (step s a) → ok s a) {s : σ} {as : List α}
    (hside : Along step side s as) (hs : Inv s) :
    (∀ n, P (run step s (as.take n))) ↔ Along step ok s as := by
  induction as generalizing s with
  | nil => simp [hP s hs]
  | cons a as ih =>
    obtain ⟨ha, has⟩ := hside
    rw [along_cons]
    constructor
    · intro h
      have hok : ok s a := hbreak s a hs ha (by simpa using h 1)
      refine ⟨hok, (ih has (hkeep s a hs ha hok)).mp fun n => ?_⟩
      simpa using h (n + 1)
    · intro hc n
      obtain ⟨hok, hrest⟩ := hc
      cases n with
      | zero => simpa using hP s hs
      | succ n => simpa using (ih has (hkeep s a hs ha hok)).mpr hrest n

/-- The same, if, where the property holds, a step keeps it exactly under the condition. -/
theorem forall_states_iff_along_of {step : σ → α → σ} {side ok : σ → α → Prop} {Inv : σ → Prop}
    (P : σ → Prop)
    (hinv : ∀ s a, Inv s → side s a → Inv (step s a))
    (hstep : ∀ s a, Inv s → side s a → P s → (P (step s a) ↔ ok s a)) {s : σ} {as : List α}
    (hside : Along step side s as) (hs : Inv s) (hP : P s) :
    (∀ n, P (run step s (as.take n))) ↔ Along step ok s as :=
  @forall_states_iff_along_through _ _ step side ok (fun s => Inv s ∧ P s) P (fun _ h => h.2)
    (fun s a h ha hok => ⟨hinv s a h.1 ha, (hstep s a h.1 ha h.2).mpr hok⟩)
    (fun s a h ha => (hstep s a h.1 ha h.2).mp) s as hside ⟨hs, hP⟩

theorem forall_states_iff_along {step : σ → α → σ} {ok : σ → α → Prop} {Inv : σ → Prop}
    (P : σ → Prop)
    (hinv : ∀ s a, Inv s → Inv (step s a))
    (hstep : ∀ s a, Inv s → P s → (P (step s a) ↔ ok s a)) {s : σ} {as : List α}
    (hs : Inv s) (hP : P s) :
    (∀ n, P (run step s (as.take n))) ↔ Along step ok s as :=
  @forall_states_iff_along_of _ _ step (fun _ _ => True) ok Inv P (fun s a h _ => hinv s a h)
    (fun s a h _ => hstep s a h) s as (along_true step s as) hs hP

end ObsFuse.Lib
