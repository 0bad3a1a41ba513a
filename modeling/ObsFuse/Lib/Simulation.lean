import ObsFuse.Lib.Runs
import Mathlib.Data.List.Induction

/-! # One machine over another

A machine may carry out each of its steps as a run of a second machine. Then it keeps what the
steps of the second one keep. The last rule says where in a run something comes from. -/

namespace ObsFuse.Lib

variable {σ α : Type*}

/-- Some run with labels of the kind `ok` leads from the one state to the other. -/
def ReachesBy (step : σ → α → σ) (ok : α → Prop) (s s' : σ) : Prop :=
  ∃ as : List α, (∀ a ∈ as, ok a) ∧ s' = run step s as

namespace ReachesBy
variable {step : σ → α → σ} {ok : α → Prop} {s s' s'' : σ}

theorem refl (s : σ) : ReachesBy step ok s s := ⟨[], nofun, rfl⟩

theorem single {a : α} (h : ok a) : ReachesBy step ok s (step s a) := by
  refine ⟨[a], ?_, rfl⟩
  intro b hb
  rw [List.mem_singleton.mp hb]
  exact h

theorem trans (h : ReachesBy step ok s s') (h' : ReachesBy step ok s' s'') :
    ReachesBy step ok s s'' := by
  obtain ⟨as, has, rfl⟩ := h
  obtain ⟨bs, hbs, rfl⟩ := h'
  refine ⟨as ++ bs, ?_, (run_append ..).symm⟩
  intro a ha
  rcases List.mem_append.mp ha with hleft | hright
  · exact has a hleft
  · exact hbs a hright

/-- What the allowed steps keep, the state that they reach has. -/
theorem kept (h : ReachesBy step ok s s') {Inv : σ → Prop}
    (hstep : ∀ s a, Inv s → ok a → Inv (step s a)) (hs : Inv s) : Inv s' := by
  obtain ⟨as, has, rfl⟩ := h
  exact run_invariant_of_forall hstep hs has

end ReachesBy

/-! ### Where things come from -/

/-- What holds at the end of a run held at its start, or comes from one of its steps. -/
theorem run_origin {step : σ → α → σ} {Inv Q : σ → Prop} {P : σ → α → Prop}
    (hinv : ∀ s a, Inv s → Inv (step s a)) (hstep : ∀ s a, Inv s → Q (step s a) → Q s ∨ P s a)
    {s : σ} (hs : Inv s) {as : List α} (h : Q (run step s as)) :
    Q s ∨ ∃ n a, as[n]? = some a ∧ P (run step s (as.take n)) a := by
  induction as using List.reverseRecOn with
  | nil => exact .inl h
  | append_singleton as a ih =>
    rw [run_append] at h
    have hlast := hstep (run step s as) a (Lib.run_kept hinv hs as) h
    rcases hlast with hbefore | hnow
    · rcases ih hbefore with hstart | ⟨n, b, hb, hP⟩
      · exact .inl hstart
      · have hlt : n < as.length := (List.getElem?_eq_some_iff.mp hb).1
        refine .inr ⟨n, b, ?_, ?_⟩
        · rw [List.getElem?_append_left hlt]
          exact hb
        · rw [List.take_append_of_le_length (Nat.le_of_lt hlt)]
          exact hP
    · refine .inr ⟨as.length, a, List.getElem?_concat_length, ?_⟩
      rw [List.take_left]
      exact hnow

end ObsFuse.Lib
