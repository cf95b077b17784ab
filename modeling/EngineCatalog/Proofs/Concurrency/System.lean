import EngineCatalog.Effect
import EngineCatalog.KeyValue.Store
import EngineCatalog.Secret.Vault
import Mathlib.Data.List.Basic
import Mathlib.Logic.Relation

/-!
# Jobs over shared stores

Several programs run side by side over one store, one backend of secrets and one lock. Each call is
answered in one step, and the steps of different jobs follow one another in any order. Nothing is
assumed of the clock: a moment that a program waits for may be reached at any step.

* `Answers` — what may be answered to an effect, and what is shared then. If calls are faulty, each
  may fail, and a call that fails leaves everything as it was.
* `System.Step` — one step: a job is answered, or something comes of a removal that was started.
* `Runs` — how one job goes on by itself, as a program of any result; such runs are put together
  with `Runs.bind` and become runs of the system with `Runs.reaches`.
-/

namespace EngineCatalog

open KeyValue (Store)
open Secret (Removal Vault)

/-! ## Failing calls -/

/-- The answer to a call that fails. -/
def KeyValue.Call.failure (error : Error) : (call : KeyValue.Call) → call.Answer
  | .read _ _ => (.error error : Outcome KeyValue.Listing)
  | .await _ _ _ _ => (.error error : Outcome KeyValue.Listing)
  | .put _ _ => (.error error : Outcome Unit)
  | .delete _ _ => (.error error : Outcome Unit)
  | .transact _ => (.error error : Outcome Unit)
  | .readMany _ => (.error error : Outcome (List KeyValue.Entry))

/-- A call may fail with any error, but that nothing is found is what a read answers and no failure
of it. -/
def KeyValue.Call.mayFail (error : Error) : KeyValue.Call → Prop
  | .read _ _ => error.isNotFound = false
  | _ => True

/-- The answer to a call that fails. -/
def Secret.Call.failure (error : Error) : (call : Secret.Call) → call.Answer
  | .list _ => (.error error : Outcome (Dict Secret.Data))
  | .read _ => (.error error : Outcome (Option Secret.Data))
  | .create _ _ _ => (.error error : Outcome Unit)
  | .add _ _ _ => (.error error : Outcome Secret.Data)
  | .update _ _ => (.error error : Outcome Secret.Data)
  | .remove _ _ => (.error error : Outcome Secret.Data)

/-! ## What is shared -/

/-- A removal that was started. -/
structure Started where
  /-- the secret -/
  secret : String
  /-- what is removed -/
  keys : Names
  /-- what has come of it, if that is known -/
  removal : Option Removal

/-- What jobs share. -/
structure Shared where
  /-- the key-value store -/
  store : Store
  /-- the secrets -/
  vault : Vault
  /-- the job that holds the lock -/
  holder : Option Nat
  /-- the removals that were started, by their tickets -/
  started : List Started
  /-- the audit records -/
  records : List Audit.Record

namespace Shared

/-- What has come of some removals so far. -/
def removalsOf (shared : Shared) (tickets : List Nat) : List (Option Removal) :=
  tickets.map fun ticket => (shared.started[ticket]?).bind Started.removal

/-- Something comes of a removal. -/
def settle (shared : Shared) (ticket : Nat) (started : Started) (removal : Removal)
    (vault : Vault) : Shared :=
  { shared with
    vault := vault
    started := shared.started.set ticket { started with removal := some removal } }

end Shared

/-- What may be answered to an effect that a job asks for, and what is shared then. -/
def Answers (faulty : Bool) (job : Nat) :
    (effect : Effect) → Shared → effect.Answer → Shared → Prop
  | .store call, before, answer, after =>
    (answer = (before.store.answer call).1 ∧
        after = { before with store := (before.store.answer call).2 })
      ∨ (faulty = true ∧ after = before ∧
        ∃ error, call.mayFail error ∧ answer = call.failure error)
  | .secrets call, before, answer, after =>
    (answer = (before.vault.answer call).1 ∧
        after = { before with vault := (before.vault.answer call).2 })
      ∨ (faulty = true ∧ after = before ∧ ∃ error, answer = call.failure error)
  | .startRemoval name keys, before, answer, after =>
    (answer = .ok before.started.length ∧
        after = { before with started := before.started ++ [⟨name, keys, none⟩] })
      ∨ (faulty = true ∧ after = before ∧ ∃ error, answer = .error error)
  | .awaitRemovals tickets moment, before, answer, after =>
    after = before ∧ answer = before.removalsOf tickets ∧
      (moment.isSome = true ∨ ∀ removal ∈ before.removalsOf tickets, removal.isSome = true)
  | .lock, before, _, after => before.holder = none ∧ after = { before with holder := some job }
  | .unlock, before, _, after => after = { before with holder := none }
  | .record record, before, _, after =>
    after = { before with records := before.records ++ [record] }
  | .now, before, _, after => after = before
  | .sleep _, before, _, after => after = before
  | .choose bound, before, answer, after => after = before ∧ Nat.le answer bound
  | .until _ effect, before, answer, after =>
    match (answer : Option effect.Answer) with
    | some answer => Answers faulty job effect before answer after
    | none => after = before

/-- What may come of a removal, and what the secrets are then. -/
def Comes (faulty : Bool) (started : Started) (before : Vault) (removal : Removal)
    (after : Vault) : Prop :=
  (removal, after) = before.finish started.secret started.keys
    ∨ (faulty = true ∧ after = before ∧ ∀ rest, removal ≠ .done rest)

/-! ## Systems -/

/-- Jobs with what they share. -/
structure System where
  /-- what they share -/
  shared : Shared
  /-- what is left of each job -/
  jobs : List (Program effects Unit)

namespace System

/-- One step of a system. -/
inductive Step (faulty : Bool) (system : System) : System → Prop where
  /-- a job is answered and goes on -/
  | answered {job : Nat} {effect : Effect} {next : effect.Answer → Program effects Unit}
    {answer : effect.Answer} {after : Shared}
    (hjob : system.jobs[job]? = some (.ask (σ := effects) effect next))
    (hanswers : Answers faulty job effect system.shared answer after) :
    Step faulty system ⟨after, system.jobs.set job (next answer)⟩
  /-- something comes of a removal -/
  | removed {ticket : Nat} {started : Started} {removal : Removal} {vault : Vault}
    (hstarted : system.shared.started[ticket]? = some started)
    (hpending : started.removal = none)
    (hcomes : Comes faulty started system.shared.vault removal vault) :
    Step faulty system ⟨system.shared.settle ticket started removal vault, system.jobs⟩

/-- After a job was answered, the others are where they were. -/
theorem of_set_job {jobs : List (Program effects Unit)} {job other : Nat}
    {later program : Program effects Unit} (h : (jobs.set job later)[other]? = some program) :
    other = job ∧ program = later ∨ other ≠ job ∧ jobs[other]? = some program := by
  by_cases heq : other = job
  · subst heq
    rw [List.getElem?_set_self'] at h
    obtain ⟨_, -, hlater⟩ := Option.map_eq_some_iff.mp h
    exact .inl ⟨rfl, hlater.symm⟩
  · rw [List.getElem?_set_ne (Ne.symm heq)] at h
    exact .inr ⟨heq, h⟩

/-- What a system can come to. -/
abbrev Reaches (faulty : Bool) : System → System → Prop :=
  Relation.ReflTransGen (Step faulty)

end System

/-! ## One job by itself -/

/-- The program of a job goes on, and nothing else happens. -/
inductive Runs (faulty : Bool) (job : Nat) {α : Type} :
    Program effects α → Shared → Program effects α → Shared → Prop where
  /-- so far it has not gone on -/
  | refl (program : Program effects α) (shared : Shared) :
    Runs faulty job program shared program shared
  /-- it is answered, and goes on -/
  | step (effect : Effect) (answer : effect.Answer)
    {next : effect.Answer → Program effects α} {program : Program effects α}
    {before between after : Shared}
    (hanswers : Answers faulty job effect before answer between)
    (hruns : Runs faulty job (next answer) between program after) :
    Runs faulty job (.ask (σ := effects) effect next) before program after

namespace Runs

variable {faulty : Bool} {job : Nat} {α β : Type} {p q r : Program effects α} {s t u : Shared}

theorem trans (hpq : Runs faulty job p s q t) (hqr : Runs faulty job q t r u) :
    Runs faulty job p s r u := by
  induction hpq with
  | refl => exact hqr
  | step effect answer hanswers _ ih => exact .step effect answer hanswers (ih hqr)

/-- What a program does, it does with whatever follows it. -/
theorem bind (h : Runs faulty job p s q t) (f : α → Program effects β) :
    Runs faulty job (p.bind f) s (q.bind f) t := by
  induction h with
  | refl => exact .refl _ _
  | step effect answer hanswers _ ih => exact .step effect answer hanswers ih

/-- A program that is done hands over to what follows it. -/
theorem bind_done {result : α} {f : α → Program effects β} {q : Program effects β}
    (h : Runs faulty job p s (.done result) t) (hf : Runs faulty job (f result) t q u) :
    Runs faulty job (p.bind f) s q u :=
  (h.bind f).trans hf

theorem within_ask (moment : Nat) (held : Bool) (effect : Effect)
    (next : effect.Answer → Program effects α) :
    Work.within moment held (.ask (σ := effects) effect next)
      = .ask (σ := effects) (Effect.until moment effect) fun
        | some answer => Work.within moment (effect.holdsAfter held) (next answer)
        | none =>
          if held then .ask (σ := effects) Effect.unlock fun _ => .done none
          else .done none := by
  rw [Work.within.eq_def]
  rfl

/-- What a program does, it can do in time. -/
theorem within (h : Runs faulty job p s q t) (moment : Nat) (held : Bool) :
    ∃ held', Runs faulty job (Work.within moment held p) s (Work.within moment held' q) t := by
  induction h generalizing held with
  | refl program shared => exact ⟨held, .refl _ _⟩
  | step effect answer hanswers _ ih =>
    rename_i next program before between after _
    obtain ⟨held', hruns⟩ := ih (effect.holdsAfter held)
    have hanswers' : Answers faulty job (.until moment effect) before (some answer) between :=
      hanswers
    rw [within_ask]
    exact ⟨held', .step (.until moment effect) (some answer) hanswers' hruns⟩

/-- What a job does by itself, it does within the system. -/
theorem reaches {program : Program effects Unit} {jobs : List (Program effects Unit)}
    {p : Program effects Unit} (h : Runs faulty job p s program t) (hjob : jobs[job]? = some p) :
    System.Reaches faulty ⟨s, jobs⟩ ⟨t, jobs.set job program⟩ := by
  induction h generalizing jobs with
  | refl program shared =>
    obtain ⟨hlt, heq⟩ := List.getElem?_eq_some_iff.mp hjob
    have hset : jobs.set job program = jobs := by
      rw [← heq, List.set_getElem_self hlt]
    rw [hset]
  | step effect answer hanswers _ ih =>
    rename_i next program before between after _
    have hlt : job < jobs.length := (List.getElem?_eq_some_iff.mp hjob).1
    have hstep : System.Step faulty ⟨before, jobs⟩ ⟨between, jobs.set job (next answer)⟩ :=
      .answered hjob hanswers
    have hnext : (jobs.set job (next answer))[job]? = some (next answer) :=
      List.getElem?_set_self hlt
    have hrest := ih hnext
    rw [List.set_set] at hrest
    exact .head hstep hrest

end Runs

end EngineCatalog
