import Mathlib.Order.Basic

/-! # Loops that may be left early

`while test { … }` whose body says whether the loop goes on. `Loop` relates the state
before the loop to how it ends; it bounds no number of rounds, so that to have an end is
to terminate. `While` is the loop that ends by its test alone, and whose body need not end. -/

namespace ObsFuse.Lib

variable {σ : Type*}

/-- From the state, the loop ends as said: by its test (`true`) or from its body. -/
inductive Loop (test : σ → Prop) (body : σ → Bool × σ) : σ → Bool × σ → Prop where
  | done {s : σ} : ¬test s → Loop test body s (true, s)
  | left {s s' : σ} : test s → body s = (false, s') → Loop test body s (false, s')
  | round {s s' : σ} {r : Bool × σ} :
    test s → body s = (true, s') → Loop test body s' r → Loop test body s r

namespace Loop
variable {test : σ → Prop} {body : σ → Bool × σ} {s : σ} {r r' : Bool × σ}

theorem unique (h : Loop test body s r) (h' : Loop test body s r') : r = r' := by
  induction h with
  | done htest =>
    cases h' with
    | done _ => rfl
    | left ht _ => exact absurd ht htest
    | round ht _ _ => exact absurd ht htest
  | left htest hbody =>
    cases h' with
    | done ht => exact absurd htest ht
    | left _ hb =>
      rw [hbody] at hb
      exact hb
    | round _ hb _ =>
      rw [hbody] at hb
      cases hb
  | round htest hbody _ ih =>
    cases h' with
    | done ht => exact absurd htest ht
    | left _ hb =>
      rw [hbody] at hb
      cases hb
    | round _ hb hrest =>
      rw [hbody] at hb
      cases hb
      exact ih hrest

/-- Invariant rule: what the body keeps while the test holds, the loop keeps. -/
theorem invariant {Inv : σ → Prop} (hbody : ∀ s, Inv s → test s → Inv (body s).2)
    (h : Loop test body s r) (hs : Inv s) : Inv r.2 := by
  induction h with
  | done _ => exact hs
  | @left s s' htest hb =>
    have hnext := hbody s hs htest
    rw [hb] at hnext
    exact hnext
  | @round s s' r htest hb _ ih =>
    have hnext := hbody s hs htest
    rw [hb] at hnext
    exact ih hnext

theorem not_test (h : Loop test body s r) (hr : r.1 = true) : ¬test r.2 := by
  induction h with
  | done htest => exact htest
  | left _ _ => cases hr
  | round _ _ _ ih => exact ih hr

theorem left_in_round (h : Loop test body s r) (hr : r.1 = false) :
    ∃ s', test s' ∧ body s' = r := by
  induction h with
  | done _ => cases hr
  | @left s s' htest hb => exact ⟨s, htest, hb⟩
  | round _ _ _ ih => exact ih hr

/-- Where the body never leaves the loop, it ends by its test. -/
theorem ends_by_test {Inv : σ → Prop} (hkeep : ∀ s, Inv s → test s → Inv (body s).2)
    (hon : ∀ s, Inv s → test s → (body s).1 = true) (h : Loop test body s r) (hs : Inv s) :
    r.1 = true := by
  induction h with
  | done _ => rfl
  | @left s s' htest hb =>
    have hgo := hon s hs htest
    rw [hb] at hgo
    exact hgo
  | @round s s' r htest hb _ ih =>
    have hnext := hkeep s hs htest
    rw [hb] at hnext
    exact ih hnext

end Loop

/-- From the first state, the loop enters its body in the second one. -/
inductive Enters (test : σ → Prop) (body : σ → Bool × σ) : σ → σ → Prop where
  | now {s : σ} : test s → Enters test body s s
  | later {s s' t : σ} :
    test s → body s = (true, s') → Enters test body s' t → Enters test body s t

namespace Enters
variable {test : σ → Prop} {body : σ → Bool × σ} {s t : σ} {r : Bool × σ}

theorem test_holds (h : Enters test body s t) : test t := by
  induction h with
  | now htest => exact htest
  | later _ _ _ ih => exact ih

theorem invariant {Inv : σ → Prop} (hbody : ∀ s, Inv s → test s → Inv (body s).2)
    (h : Enters test body s t) (hs : Inv s) : Inv t := by
  induction h with
  | now _ => exact hs
  | @later s s' t htest hb _ ih =>
    have hnext := hbody s hs htest
    rw [hb] at hnext
    exact ih hnext

/-- The loop passes through the states in which it enters its body. -/
theorem loop (h : Enters test body s t) (hloop : Loop test body s r) : Loop test body t r := by
  induction h with
  | now _ => exact hloop
  | later htest hb _ ih =>
    cases hloop with
    | done ht => exact absurd htest ht
    | left _ hb' =>
      rw [hb] at hb'
      cases hb'
    | round _ hb' hrest =>
      rw [hb] at hb'
      cases hb'
      exact ih hrest

end Enters

/-- The loop for at most `n` rounds. -/
def loopFor (test : σ → Prop) [DecidablePred test] (body : σ → Bool × σ) : ℕ → σ → Bool × σ
  | 0, s => (false, s)
  | n + 1, s =>
    if test s then
      match body s with
      | (true, s') => loopFor test body n s'
      | (false, s') => (false, s')
    else (true, s)

/-- A loop each of whose rounds makes a number smaller ends within that number of rounds. -/
theorem loop_loopFor {test : σ → Prop} [DecidablePred test] {body : σ → Bool × σ} (size : σ → ℕ)
    (hsize : ∀ s s', test s → body s = (true, s') → size s' < size s) {n : ℕ} {s : σ}
    (hn : size s < n) : Loop test body s (loopFor test body n s) := by
  induction n generalizing s with
  | zero => omega
  | succ n ih =>
    unfold loopFor
    by_cases htest : test s
    · rw [if_pos htest]
      have hrec := hsize s
      cases hb : body s with
      | mk on s' =>
        cases on with
        | false => exact .left htest hb
        | true =>
          have hlt := hrec s' htest hb
          exact .round htest hb (ih (by omega))
    · rw [if_neg htest]
      exact .done htest

/-- From the first state, `while test { body }` ends in the second one. -/
inductive While (test : σ → Prop) (body : σ → σ → Prop) : σ → σ → Prop where
  | done {s : σ} : ¬test s → While test body s s
  | round {s s' t : σ} : test s → body s s' → While test body s' t → While test body s t

namespace While
variable {test : σ → Prop} {body : σ → σ → Prop} {s t t' : σ}

theorem unique (hbody : ∀ s t t', body s t → body s t' → t = t') (h : While test body s t)
    (h' : While test body s t') : t = t' := by
  induction h with
  | done htest =>
    cases h' with
    | done _ => rfl
    | round ht _ _ => exact absurd ht htest
  | round htest hb _ ih =>
    cases h' with
    | done ht => exact absurd htest ht
    | round _ hb' hrest =>
      obtain rfl := hbody _ _ _ hb hb'
      exact ih hrest

/-- Non-termination rule: what the body keeps and makes the test true is never left. -/
theorem never (Inv : σ → Prop) (htest : ∀ s, Inv s → test s)
    (hbody : ∀ s s', Inv s → body s s' → Inv s') (hs : Inv s) : ¬While test body s t := by
  intro h
  induction h with
  | done hfalse => exact hfalse (htest _ hs)
  | round _ hb _ ih => exact ih (hbody _ _ hs hb)

/-- Termination rule: every round ends and makes a number smaller. -/
theorem ends (Inv : σ → Prop) (size : σ → ℕ)
    (hround : ∀ s, Inv s → test s → ∃ s', body s s' ∧ Inv s' ∧ size s' < size s) (hs : Inv s) :
    ∃ t, While test body s t := by
  induction hn : size s using Nat.strongRecOn generalizing s with
  | ind n ih =>
    by_cases htest : test s
    · obtain ⟨s', hb, hs', hlt⟩ := hround s hs htest
      rw [hn] at hlt
      obtain ⟨t, hrest⟩ := ih (size s') hlt hs' rfl
      exact ⟨t, .round htest hb hrest⟩
    · exact ⟨s, .done htest⟩

end While

end ObsFuse.Lib
