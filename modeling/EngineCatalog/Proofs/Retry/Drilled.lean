import EngineCatalog.Proofs.Concurrency.Drill
import EngineCatalog.Proofs.Retry.Attempts

/-!
# Retrying in drills

In a drill an attempt is over before its deadline, so it fails only by a call that fails. Main
statement: where every attempt does the whole of something or a part of it, and goes on from any
part as from the beginning, retrying does the whole, or it fails with a part done; and if no call
fails for good, it does the whole exactly if one of the attempts is spared (`Drill.ends_run`).

* `attempts` — so many attempts, whatever they come to.
* `Drill.SparesAttempt` — no call of the attempt after so many others fails.
-/

namespace EngineCatalog

variable {α : Type} {policy : BackoffPolicy} {work : Work α}

/-- So many attempts with the pauses behind them, whatever they come to; the delay behind the first
one has this number. -/
def Retry.attempts (policy : BackoffPolicy) (work : Work α) (first : Nat) :
    Nat → Program effects Unit
  | 0 => .done ()
  | more + 1 => work.run.bind fun _ => (pause (delay policy first)).bind fun _ =>
      attempts policy work (first + 1) more

namespace Drill

open Retry (attempts attemptOnce delay judge loop mayHelp pause)

variable {drill : Drill} {s t : Stand} {outcome : Outcome α}

/-- No call fails in the attempt that comes after so many others. -/
def SparesAttempt (drill : Drill) (policy : BackoffPolicy) (work : Work α) (first k : Nat)
    (s : Stand) : Prop :=
  ∃ before outcome after,
    Program.run (σ := effects) drill.answer (attempts policy work first k) s = some ((), before) ∧
      drill.Ends before work outcome after ∧ drill.Spares before.calls after.calls

/-- Calls that fail can do so because of something that passes. -/
def IsTransient (drill : Drill) : Prop :=
  ∀ n error, drill.fails n = some error → error.isRetryable = true

/-- How things stand after a pause. -/
def paused (drill : Drill) (millis : Nat) (stand : Stand) : Stand :=
  { stand with
    clock := stand.clock + (millis + min (drill.chosen stand.choices) (millis / 10))
    choices := stand.choices + 1 }

theorem run_pause (drill : Drill) (millis : Nat) (s : Stand) :
    Program.run (σ := effects) drill.answer (pause millis) s
      = some ((), drill.paused millis s) := rfl

/-- An attempt is over before its deadline. -/
theorem run_attemptOnce (h : drill.Does work.run s outcome t) :
    Program.run (σ := effects) drill.answer (attemptOnce policy work.run) s
      = some (judge policy (some outcome), t) := by
  rw [attemptOnce, Program.run]
  change Program.run (σ := effects) drill.answer
    ((Work.within (s.clock + policy.timeoutMillis) false work.run).bind _) s = _
  rw [Program.run_bind, h.within false (Nat.le_add_right _ _)]
  rfl

/-! ## Spared attempts -/

theorem sparesAttempt_zero_iff {first : Nat} (h : drill.Does work.run s outcome t) :
    drill.SparesAttempt policy work first 0 s ↔ drill.Spares s.calls t.calls := by
  constructor
  · rintro ⟨before, other, after, hbefore, hafter, hspares⟩
    obtain ⟨-, rfl⟩ := Prod.mk.inj (Option.some.inj hbefore)
    obtain ⟨-, rfl⟩ := Prod.mk.inj (Option.some.inj (h.run.symm.trans hafter))
    exact hspares
  · intro hspares
    exact ⟨s, outcome, t, rfl, h.run, hspares⟩

/-- A later attempt is one of those after the first one. -/
theorem sparesAttempt_succ_iff {first k : Nat} (h : drill.Does work.run s outcome t) :
    drill.SparesAttempt policy work first (k + 1) s
      ↔ drill.SparesAttempt policy work (first + 1) k (drill.paused (delay policy first) t) := by
  have hrun : Program.run (σ := effects) drill.answer (attempts policy work first (k + 1)) s
      = Program.run (σ := effects) drill.answer (attempts policy work (first + 1) k)
          (drill.paused (delay policy first) t) := by
    rw [attempts, Program.run_bind, h.run]
    change Program.run (σ := effects) drill.answer ((pause (delay policy first)).bind _) t = _
    rw [Program.run_bind, run_pause]
    rfl
  rw [SparesAttempt, SparesAttempt, hrun]

/-! ## Loops -/

/-- Attempts that go on from any part lead to the whole, or to an error and a part. -/
theorem run_loop {result : α} {part whole : Shared → Prop}
    (htries : ∀ a, part a → ∃ b, whole b ∧ drill.Tries a work result b part)
    {left first : Nat} (last : Error) {s : Stand} (hs : part s.shared) :
    ∃ outcome t, Program.run (σ := effects) drill.answer
        (loop policy work.run left (delay policy first) last) s = some (outcome, t) ∧
      (outcome = .ok result ∧ whole t.shared ∧
          (∃ k, k < left ∧ drill.SparesAttempt policy work first k s) ∨
        (∃ error, outcome = .error error) ∧ part t.shared ∧
          (drill.IsTransient → ∀ k, k < left → ¬ drill.SparesAttempt policy work first k s)) := by
  induction left generalizing first last s with
  | zero => exact ⟨_, _, rfl, .inr ⟨⟨last, rfl⟩, hs, fun _ k hk => absurd hk (Nat.not_lt_zero k)⟩⟩
  | succ left ih =>
    obtain ⟨b, hb, hone⟩ := htries s.shared hs
    obtain ⟨outcome, t, hdoes, -, hcases⟩ := hone s rfl
    have hnext : Retry.nextDelay policy (delay policy first) = delay policy (first + 1) := by
      rw [Retry.nextDelay, delay, Nat.mul_comm]
    rw [loop, Program.run_bind, run_attemptOnce hdoes]
    rcases hcases with ⟨rfl, hspares, rfl⟩ | ⟨error, rfl, hhits, hpart⟩
    · exact ⟨.ok result, t, rfl, .inl ⟨rfl, hb, 0, Nat.succ_pos left,
        (sparesAttempt_zero_iff hdoes).mpr hspares⟩⟩
    · have hzero : ¬ drill.SparesAttempt policy work first 0 s := fun hspared =>
        hhits.not_spares ((sparesAttempt_zero_iff hdoes).mp hspared)
      by_cases hmay : mayHelp error = true
      · have hjudge : judge policy (some (.error error : Outcome α)) = .error error := if_pos hmay
        rw [hjudge]
        change ∃ outcome u, Program.run (σ := effects) drill.answer
          (if left = 0 then _ else _) t = some (outcome, u) ∧ _
        by_cases hleft : left = 0
        · rw [if_pos hleft]
          refine ⟨.error error, t, rfl, .inr ⟨⟨error, rfl⟩, hpart, fun _ k hk => ?_⟩⟩
          obtain rfl : k = 0 := by omega
          exact hzero
        · rw [if_neg hleft, hnext, Program.run_bind, run_pause]
          obtain ⟨final, u, hrun, hlater⟩ :=
            @ih (first + 1) error (drill.paused (delay policy first) t) hpart
          refine ⟨final, u, hrun, ?_⟩
          rcases hlater with ⟨hok, hwhole, k, hk, hspared⟩ | ⟨herror, hsome, hnone⟩
          · exact .inl ⟨hok, hwhole, k + 1, Nat.succ_lt_succ hk,
              (sparesAttempt_succ_iff hdoes).mpr hspared⟩
          · refine .inr ⟨herror, hsome, fun htransient k hk => ?_⟩
            cases k with
            | zero => exact hzero
            | succ k =>
              rw [sparesAttempt_succ_iff hdoes]
              exact hnone htransient k (Nat.lt_of_succ_lt_succ hk)
      · have hjudge : judge policy (some (.error error : Outcome α)) = .ok (.error error) :=
          if_neg hmay
        rw [hjudge]
        refine ⟨.error error, t, rfl, .inr ⟨⟨error, rfl⟩, hpart, fun htransient => ?_⟩⟩
        -- an error of a call that fails for now is one that may pass
        obtain ⟨n, -, -, hfails⟩ := hhits
        exact absurd (by rw [mayHelp, htransient n error hfails, Bool.true_or]) hmay

/-- Retrying leads to the whole exactly if an attempt is spared, where no call fails for good. -/
theorem ends_run (policy : BackoffPolicy) {result : α} {part whole : Shared → Prop}
    (htries : ∀ a, part a → ∃ b, whole b ∧ drill.Tries a work result b part) {s : Stand}
    (hs : part s.shared) :
    ∃ outcome t, drill.Ends s (Retry.run policy work) outcome t ∧
      (outcome = .ok result → whole t.shared) ∧
      (outcome = .ok result ∨ part t.shared) ∧
      (drill.IsTransient → (outcome = .ok result ↔
        ∃ k, k < policy.attempts ∧ drill.SparesAttempt policy work 0 k s)) := by
  obtain ⟨outcome, t, hrun, hcases⟩ :=
    @run_loop α policy work drill result part whole htries policy.attempts 0 Retry.noAttempt s hs
  refine ⟨outcome, t, hrun, ?_⟩
  rcases hcases with ⟨rfl, hwhole, hspared⟩ | ⟨⟨error, rfl⟩, hpart, hnone⟩
  · exact ⟨fun _ => hwhole, .inl rfl, fun _ => ⟨fun _ => hspared, fun _ => rfl⟩⟩
  · refine ⟨nofun, .inr hpart, fun htransient => ⟨nofun, ?_⟩⟩
    rintro ⟨k, hk, hspared⟩
    exact absurd hspared (hnone htransient k hk)

end Drill

end EngineCatalog
