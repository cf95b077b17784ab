import EngineCatalog.Effect
import EngineCatalog.Settings.Basic

/-!
# Retrying

`Retry.run` makes attempts until one succeeds or fails for good, or until there are no more. An
attempt may take no longer than the policy allows. Between two attempts there is a delay, which
doubles from one to the next up to a longest one, with up to a tenth of it added at random.

An attempt fails for good with an error of which trying again does not help. An error that something
is not there is none of these: it may be there the next time.
-/

namespace EngineCatalog.Retry

variable {α : Type}

/-- Trying again may help. -/
def mayHelp (error : Error) : Bool :=
  error.isRetryable || error.isNotFound

/-- What an attempt comes to: an outcome that ends the retrying, or the error of an attempt that is
followed by another one. No outcome means that the attempt took too long. -/
def judge (policy : BackoffPolicy) : Option (Outcome α) → Except Error (Outcome α)
  | some (.ok result) => .ok (.ok result)
  | some (.error error) => if mayHelp error then .error error else .ok (.error error)
  | none => .error (.retryTimeout policy.timeout)

/-- The delay that follows another one. -/
def nextDelay (policy : BackoffPolicy) (delay : Nat) : Nat :=
  min (delay * 2) policy.maxMillis

/-- The most that is added to a delay. -/
def spread (delay : Nat) : Nat := delay / 10

/-- Waits for a delay with what is added to it. -/
def pause (delay : Nat) : Program effects Unit :=
  .ask (σ := effects) (Effect.choose (spread delay)) fun (more : Nat) =>
    .ask (σ := effects) (Effect.sleep (delay + more)) fun _ => .done ()

/-- One attempt. -/
def attemptOnce (policy : BackoffPolicy) (attempt : Program effects (Outcome α)) :
    Program effects (Except Error (Outcome α)) :=
  .ask (σ := effects) Effect.now fun (moment : Nat) =>
    Program.bind (Work.within (moment + policy.timeoutMillis) false attempt) fun outcome =>
      .done (judge policy outcome)

/-- So many more attempts, with the delay after the first of them, and the error of the last
attempt before. -/
def loop (policy : BackoffPolicy) (attempt : Program effects (Outcome α)) :
    Nat → Nat → Error → Program effects (Outcome α)
  | 0, _, last => .done (.error last)
  | more + 1, delay, _ =>
    (attemptOnce policy attempt).bind fun
      | .ok outcome => .done outcome
      | .error error =>
        if more = 0 then .done (.error error)
        else (pause delay).bind fun _ => loop policy attempt more (nextDelay policy delay) error

/-- The error where no attempt is allowed. -/
def noAttempt : Error := .retryFailed "Task failed after max retries"

/-- Makes attempts until one succeeds or fails for good. -/
def run (policy : BackoffPolicy) (work : Work α) : Work α :=
  ExceptT.mk (loop policy work.run policy.attempts policy.baseMillis noAttempt)

end EngineCatalog.Retry
