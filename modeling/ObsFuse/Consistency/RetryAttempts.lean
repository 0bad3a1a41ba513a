import ObsFuse.Storage.Retry
import Mathlib.Data.Nat.Find
import Mathlib.Order.Bounds.Defs

/-! # The attempts that a retried operation gets

The first attempt is not a retry: with a limit of `n` the operation is called at most `n + 1`
times. -/

namespace ObsFuse
open Lib

variable {F T E : Type*} [IsRetryable E]

/-- The `k`-th outcome ends the attempts: a result, an error that is not retryable, or the last
one permitted. -/
def EndsAttempts (maxRetries : ℕ) (outcomes : ℕ → Except E T) (k : ℕ) : Prop :=
  1 ≤ k ∧ ((∃ result, outcomes k = .ok result) ∨
    (∃ e, outcomes k = .error e ∧ isRetryable e = false) ∨ k = maxRetries + 1)

theorem exists_least_ending (maxRetries : ℕ) (outcomes : ℕ → Except E T) :
    ∃ k, IsLeast { k | EndsAttempts maxRetries outcomes k } k := by
  classical
  have hlast : ∃ k, EndsAttempts maxRetries outcomes k :=
    ⟨maxRetries + 1, Nat.le_add_left 1 maxRetries, .inr (.inr rfl)⟩
  exact ⟨Nat.find hlast, Nat.find_spec hlast, fun j hj => Nat.find_min' hlast hj⟩

/-- The calls of a loop that has not ended are its attempts. -/
structure RetryState.Counts (s : RetryState T E) (n : ℕ) : Prop where
  calls : s.calls = n
  attempt : s.attempt = n

section Rounds
variable (backoff : Backoff F) {config : RetryConfig F} {outcomes : ℕ → Except E T}
  {s : RetryState T E} {n : ℕ}

theorem retryRound_again (hmax : config.maxRetries < 2 ^ 32 - 1) (hs : s.Counts n)
    (hn : n ≤ config.maxRetries)
    (hgo : ¬EndsAttempts config.maxRetries outcomes (n + 1)) :
    ∃ s', retryRound backoff config outcomes s = (true, s') ∧ s'.Counts (n + 1) := by
  have hlt : u32 (n + 1) = n + 1 := Nat.mod_eq_of_lt (by omega)
  simp only [retryRound, hs.calls, hs.attempt, hlt]
  cases ho : outcomes (n + 1) with
  | ok result => exact absurd ⟨Nat.le_add_left 1 n, .inl ⟨result, ho⟩⟩ hgo
  | error e =>
    have hretry : isRetryable e = true := by
      by_contra hne
      rw [Bool.not_eq_true] at hne
      exact hgo ⟨Nat.le_add_left 1 n, .inr (.inl ⟨e, ho, hne⟩)⟩
    have hlast : n + 1 ≠ config.maxRetries + 1 := fun h => hgo ⟨by omega, .inr (.inr h)⟩
    have hon : ¬(config.maxRetries < n + 1 ∨ (!isRetryable e) = true) := by
      rw [hretry]
      rintro (h | h)
      · omega
      · cases h
    dsimp only
    rw [if_neg hon]
    exact ⟨_, rfl, rfl, rfl⟩

theorem retryRound_last (hmax : config.maxRetries < 2 ^ 32 - 1) (hs : s.Counts n)
    (hn : n ≤ config.maxRetries)
    (hend : EndsAttempts config.maxRetries outcomes (n + 1)) :
    ∃ s', retryRound backoff config outcomes s = (false, s') ∧ s'.calls = n + 1 ∧
      s'.returned = some (outcomes (n + 1)) := by
  have hlt : u32 (n + 1) = n + 1 := Nat.mod_eq_of_lt (by omega)
  simp only [retryRound, hs.calls, hs.attempt, hlt]
  cases ho : outcomes (n + 1) with
  | ok result => exact ⟨_, rfl, rfl, rfl⟩
  | error e =>
    have hoff : config.maxRetries < n + 1 ∨ (!isRetryable e) = true := by
      obtain ⟨-, ⟨result, hok⟩ | ⟨e', he, hne⟩ | hlast⟩ := hend
      · rw [ho] at hok
        cases hok
      · rw [ho] at he
        cases he
        exact .inr (by rw [hne]; rfl)
      · exact .inl (by omega)
    dsimp only
    rw [if_pos hoff]
    exact ⟨_, rfl, rfl, rfl⟩

/-- From the round after `n` calls the loop runs to the least outcome that ends it. -/
theorem retry_loop_ends (hmax : config.maxRetries < 2 ^ 32 - 1) {k : ℕ}
    (hk : IsLeast { k | EndsAttempts config.maxRetries outcomes k } k) (m : ℕ) (hs : s.Counts n)
    (hm : n + m + 1 = k) :
    ∃ s', Loop (fun _ => True) (retryRound backoff config outcomes) s (false, s') ∧
      s'.calls = k ∧ s'.returned = some (outcomes k) := by
  have hle : k ≤ config.maxRetries + 1 :=
    hk.2 ⟨Nat.le_add_left 1 _, .inr (.inr rfl)⟩
  induction m generalizing s n with
  | zero =>
    obtain rfl : n + 1 = k := by omega
    obtain ⟨s', hround, hcalls, hret⟩ := retryRound_last backoff hmax hs (by omega) hk.1
    exact ⟨s', .left trivial hround, hcalls, hret⟩
  | succ m ih =>
    have hgo : ¬EndsAttempts config.maxRetries outcomes (n + 1) := by
      intro hend
      have hleast := hk.2 hend
      omega
    obtain ⟨s₁, hround, hs₁⟩ := retryRound_again backoff hmax hs (by omega) hgo
    obtain ⟨s', hrest, hend⟩ := ih hs₁ (by omega)
    exact ⟨s', .round trivial hround hrest, hend⟩

theorem retryWithBackoff_iff (hmax : config.maxRetries < 2 ^ 32 - 1) {k : ℕ}
    (hk : IsLeast { k | EndsAttempts config.maxRetries outcomes k } k) (calls : ℕ)
    (r : Except E T) :
    RetryWithBackoff backoff config outcomes calls r ↔ calls = k ∧ r = outcomes k := by
  have hpos : 1 ≤ k := hk.1.1
  have hstart : (RetryState.start config : RetryState T E).Counts 0 := ⟨rfl, rfl⟩
  obtain ⟨s, hloop, hcalls, hret⟩ := retry_loop_ends backoff hmax hk (k - 1) hstart (by omega)
  constructor
  · rintro ⟨s', hloop', rfl, hret'⟩
    obtain rfl : s = s' := congrArg Prod.snd (hloop.unique hloop')
    rw [hret] at hret'
    exact ⟨hcalls, (Option.some.inj hret').symm⟩
  · rintro ⟨rfl, rfl⟩
    exact ⟨s, hloop, hcalls, hret⟩

end Rounds

/-- A retried operation is called exactly up to the least outcome that ends its attempts, and
that outcome is returned. -/
theorem retry_makes_permitted_attempts (backoff : Backoff F) (config : RetryConfig F)
    (hmax : config.maxRetries < 2 ^ 32 - 1) (outcomes : ℕ → Except E T) :
    ∃ k, IsLeast { k | EndsAttempts config.maxRetries outcomes k } k ∧
      (∀ calls r, RetryWithBackoff backoff config outcomes calls r ↔
        calls = k ∧ r = outcomes k) ∧
      ∀ delay calls r, RetrySimple backoff config.maxRetries delay outcomes calls r ↔
        calls = k ∧ r = outcomes k := by
  obtain ⟨k, hk⟩ := exists_least_ending config.maxRetries outcomes
  refine ⟨k, hk, fun calls r => retryWithBackoff_iff backoff hmax hk calls r, ?_⟩
  intro delay calls r
  exact @retryWithBackoff_iff _ _ _ _ backoff
    ⟨config.maxRetries, delay, delay, backoff.one⟩ outcomes hmax _ hk calls r

/-- An operation that is always rate limited, under a limit of three retries. -/
theorem rate_limited_operation_retried :
    let backoff : Backoff ℕ :=
      ⟨1, fun delay multiplier maxDelay => min (delay * multiplier) maxDelay⟩
    let outcomes : ℕ → Except ErrorKind Unit := fun _ => .error .rateLimited
    ∃ k, IsLeast { k | EndsAttempts 3 outcomes k } k ∧
      (∀ calls r, RetryWithBackoff backoff ⟨3, 100, 10000, 2⟩ outcomes calls r ↔
        calls = k ∧ r = outcomes k) ∧
      ∀ delay calls r, RetrySimple backoff 3 delay outcomes calls r ↔
        calls = k ∧ r = outcomes k := by
  intro backoff outcomes
  exact retry_makes_permitted_attempts backoff ⟨3, 100, 10000, 2⟩ (by decide) outcomes

end ObsFuse
