import ObsFuse.Lib.Loops
import ObsFuse.Storage.Obs

/-! # Retries (src/storage/retry.rs)

The operation is given by its outcomes: the `n`-th call of it, counted from one, has outcome
`outcomes n`. The floating-point computation of the next delay is a parameter. -/

namespace ObsFuse
open Lib

class IsRetryable (E : Type*) where
  isRetryable : E → Bool

export IsRetryable (isRetryable)

instance : IsRetryable ErrorKind where
  isRetryable
    | .rateLimited | .unexpected => true
    | _ => false

/-- The type of the backoff multiplier, and the delay that follows a delay. -/
structure Backoff (F : Type*) where
  one : F
  next : (delay : ℕ) → (multiplier : F) → (maxDelay : ℕ) → ℕ

structure RetryConfig (F : Type*) where
  maxRetries : ℕ
  initialDelay : ℕ
  maxDelay : ℕ
  backoffMultiplier : F

/-- The variables of the loop, with the calls made, the delays slept and what is returned. -/
structure RetryState (T E : Type*) where
  attempt : ℕ
  delay : ℕ
  calls : ℕ
  slept : List ℕ
  returned : Option (Except E T)

variable {F T E : Type*} [IsRetryable E]

def RetryState.start (config : RetryConfig F) : RetryState T E where
  attempt := 0
  delay := config.initialDelay
  calls := 0
  slept := []
  returned := none

/-- One round of the loop of `retry_with_backoff`. -/
def retryRound (backoff : Backoff F) (config : RetryConfig F) (outcomes : ℕ → Except E T)
    (s : RetryState T E) : Bool × RetryState T E :=
  let s := { s with calls := s.calls + 1 }
  match outcomes s.calls with
  | .ok result => (false, { s with returned := some (.ok result) })
  | .error e =>
    let s := { s with attempt := u32 (s.attempt + 1) }
    if config.maxRetries < s.attempt ∨ !isRetryable e then
      (false, { s with returned := some (.error e) })
    else
      (true, { s with
        slept := s.slept ++ [s.delay]
        delay := backoff.next s.delay config.backoffMultiplier config.maxDelay })

/-- `retry_with_backoff` returns `r` after `calls` calls of the operation. -/
def RetryWithBackoff (backoff : Backoff F) (config : RetryConfig F) (outcomes : ℕ → Except E T)
    (calls : ℕ) (r : Except E T) : Prop :=
  ∃ s, Loop (fun _ => True) (retryRound backoff config outcomes) (.start config) (false, s) ∧
    s.calls = calls ∧ s.returned = some r

def RetrySimple (backoff : Backoff F) (maxRetries delay : ℕ) (outcomes : ℕ → Except E T)
    (calls : ℕ) (r : Except E T) : Prop :=
  RetryWithBackoff backoff ⟨maxRetries, delay, delay, backoff.one⟩ outcomes calls r

end ObsFuse
