import ObsFuse.Lib.Runs

/-! # Two runs seen by one party

A party sees a part of the state. Where the labels it owns act on what it sees alone and all
others leave that as it is, what it sees of a run is what it sees of a run of its own labels. -/

namespace ObsFuse.Lib

variable {σ α : Type*}

/-- The two conditions on single steps, under an invariant of the machine. `Same` says that
the party sees no difference. -/
structure Unwinds (step : σ → α → σ) (Inv : σ → Prop) (Same : σ → σ → Prop) (own : α → Prop) :
    Prop where
  keeps : ∀ s a, Inv s → Inv (step s a)
  owned : ∀ s t a, Inv s → Inv t → Same s t → own a → Same (step s a) (step t a)
  foreign : ∀ s t a, Inv s → Inv t → Same s t → ¬own a → Same (step s a) t

namespace Unwinds
variable {step : σ → α → σ} {Inv : σ → Prop} {Same : σ → σ → Prop} {own : α → Prop}
  [DecidablePred own]

theorem run_filter (h : Unwinds step Inv Same own) {s t : σ} (hs : Inv s) (ht : Inv t)
    (hst : Same s t) (as : List α) :
    Same (run step s as) (run step t (as.filter own)) := by
  induction as generalizing s t with
  | nil => exact hst
  | cons a as ih =>
    rw [List.filter_cons, run_cons]
    by_cases ha : own a
    · rw [if_pos (decide_eq_true ha), run_cons]
      exact ih (h.keeps s a hs) (h.keeps t a ht) (h.owned s t a hs ht hst ha)
    · rw [if_neg (by simpa using ha)]
      exact ih (h.keeps s a hs) ht (h.foreign s t a hs ht hst ha)

end Unwinds

end ObsFuse.Lib
