import EngineCatalog.Proofs.Program.Discipline
import EngineCatalog.Proofs.Variable.Batch

/-!
# Tasks under the lock

All tasks on secured variables have one shape: they take the lock, make their calls, release the lock
and leave their records (`Task.isUnderLock`). What one comes to depends only on what is shared when it
is begun (`Task.deterministic`), and so does what several come to, one after the other
(`Serial.unique`).

* `Calls` — an operation makes calls, and leaves the lock and the records alone.
* `underLock` — calls with the lock held, and the records that are left for them afterwards.
-/

namespace EngineCatalog

open Secret (Data)

/-! ## Calls -/

/-- The effect is a call, or concerns removals where there may be some. -/
def Effect.isCall (removes : Bool) : Effect → Bool
  | .store _ => true
  | .secrets _ => true
  | .startRemoval _ _ => removes
  | .awaitRemovals _ _ => removes
  | .now => removes
  | _ => false

/-- The discipline of asking for nothing but some of the effects. -/
def Effect.only (allowed : Effect → Bool) : Discipline effects Unit :=
  ⟨fun _ effect => allowed effect = true, fun _ _ _ => ()⟩

/-- The operation asks for nothing but calls. -/
def Calls (removes : Bool) {α : Type} (work : Work α) : Prop :=
  work.run.Obeys (Effect.only (Effect.isCall removes)) () fun _ _ => True

namespace Calls

variable {removes : Bool} {α β : Type} {work : Work α}

theorem pure (result : α) : Calls removes (Pure.pure result) := trivial

theorem fail (error : Error) : Calls removes (.fail error : Work α) := trivial

theorem ofOutcome (outcome : Outcome α) : Calls removes (.ofOutcome outcome) := trivial

theorem bind {f : α → Work β} (h : Calls removes work) (hf : ∀ result, Calls removes (f result)) :
    Calls removes (work >>= f) := by
  refine Program.Obeys.bind (Program.Obeys.mono h fun outcome _ _ => ?_)
  cases outcome with
  | ok result => exact hf result
  | error error => exact trivial

theorem ite {condition : Prop} [Decidable condition] {other : Work α} (h : Calls removes work)
    (hother : Calls removes other) : Calls removes (if condition then work else other) := by
  split
  · exact h
  · exact hother

theorem secrets (call : Secret.Call) (outcome : call.Answer → Outcome α) :
    Calls removes (Work.secrets call outcome) :=
  ⟨rfl, fun _ => trivial⟩

theorem ofStore (operation : Operation KeyValue.keyValue α) :
    Calls removes (Work.ofStore operation) := by
  have hlift : ∀ program : Program KeyValue.keyValue (Outcome α),
      (Program.lift (σ := KeyValue.keyValue) (τ := effects) Effect.store (fun _ answer => answer)
        program).Obeys (Effect.only (Effect.isCall removes)) () fun _ _ => True := by
    intro program
    induction program with
    | done outcome => exact trivial
    | ask call next ih => exact ⟨rfl, fun answer => ih answer⟩
    | overflow => exact trivial
  exact hlift operation.run

theorem data (secret : String) (strict : Bool) : Calls removes (Keeper.data secret strict) := by
  refine Calls.bind (Calls.secrets _ _) fun found => ?_
  cases found with
  | some data => exact Calls.pure data
  | none => exact Calls.ite (Calls.fail _) (Calls.pure _)

theorem checkCollision {coordinator : Coordinator} (current : Data) (added : Dict String) :
    Calls removes (coordinator.checkCollision current added) := by
  refine Calls.bind (Calls.ofStore _) fun common => ?_
  cases Coordinator.collision? common current added with
  | some name => exact Calls.fail _
  | none => exact Calls.pure ()

/-- Removals are started one after the other. -/
theorem issue (all : Dict Data) (issued : Coordinator.Issued) (targets : List (String × Names)) :
    Calls true (Coordinator.issue all issued targets) := by
  induction targets generalizing issued with
  | nil => exact Calls.pure issued
  | cons target more ih =>
    obtain ⟨secret, names⟩ := target
    rw [Coordinator.issue]
    refine Calls.ite ?_ (ih _)
    refine Calls.bind ⟨rfl, fun answer => ?_⟩ fun started => ?_
    · cases answer <;> exact trivial
    · cases started with
      | ok pending => exact ih _
      | error error => exact ih _

theorem deadline {coordinator : Coordinator} : Calls true coordinator.deadline := by
  rw [Coordinator.deadline]
  split
  · exact Calls.pure _
  · exact Calls.bind ⟨rfl, fun _ => trivial⟩ fun _ => Calls.pure _

end Calls

/-! ## The shape of tasks -/

section

variable {α β : Type}

/-- Records are left one after the other, and then the outcome is given back. -/
def leave : List Audit.Record → Outcome α → Program effects (Outcome α)
  | [], outcome => .done outcome
  | record :: more, outcome => .ask (σ := effects) (Effect.record record) fun _ => leave more outcome

/-- The lock is released, and then records are left. -/
def release (last : List Audit.Record × Outcome α) : Program effects (Outcome α) :=
  .ask (σ := effects) Effect.unlock fun _ => leave last.1 last.2

/-- The lock is taken; with the lock held it is found out which records are to be left, and what is
to be given back. -/
def underLock (critical : Program effects (List Audit.Record × Outcome α)) :
    Program effects (Outcome α) :=
  .ask (σ := effects) Effect.lock fun _ => critical.bind release

theorem leave_bind (records : List Audit.Record) (outcome : Outcome α) (f : Outcome α → Outcome β) :
    (leave records outcome).bind (fun outcome => .done (f outcome)) = leave records (f outcome) := by
  induction records with
  | nil => rfl
  | cons record more ih =>
    rw [leave, leave, Program.bind_ask]
    simp only [ih]

/-- Records are left by an operation, and what follows leaves nothing. -/
theorem run_recordAll_bind (records : List Audit.Record) {f : Unit → Work α} {outcome : Outcome α}
    (hf : (f ()).run = .done outcome) :
    (Coordinator.recordAll records >>= f).run = leave records outcome := by
  induction records with
  | nil => exact hf
  | cons record more ih =>
    have hstep : (Coordinator.recordAll (record :: more) >>= f).run
        = .ask (σ := effects) (Effect.record record) fun _ =>
          (Coordinator.recordAll more >>= f).run := rfl
    rw [hstep, ih, leave]

/-- The program is done, or it has the shape of a task under the lock. -/
inductive IsUnderLock (removes : Bool) : Program effects (Outcome α) → Prop where
  /-- it is done -/
  | done (outcome : Outcome α) : IsUnderLock removes (.done outcome)
  /-- it takes the lock -/
  | locked {critical : Program effects (List Audit.Record × Outcome α)}
    (hcalls : critical.Obeys (Effect.only (Effect.isCall removes)) () fun _ _ => True) :
    IsUnderLock removes (underLock critical)

namespace IsUnderLock

variable {removes : Bool}

theorem eq_done_or {program : Program effects (Outcome α)} (h : IsUnderLock removes program) :
    (∃ outcome, program = .done outcome) ∨
      ∃ critical : Program effects (List Audit.Record × Outcome α), program = underLock critical ∧
        critical.Obeys (Effect.only (Effect.isCall true)) () fun _ _ => True := by
  cases h with
  | done outcome => exact .inl ⟨outcome, rfl⟩
  | locked hcalls =>
    refine .inr ⟨_, rfl, Program.Obeys.relax hcalls (fun _ effect hcall => ?_) rfl⟩
    cases effect <;> first | rfl | cases hcall

theorem locked_bind {work : Work β} {f : β → Work α} (hcalls : Calls removes work)
    (hf : ∀ result, ∃ records reply, (f result).run = leave records reply) :
    IsUnderLock removes (Work.locked work >>= f).run := by
  choose records reply hf using hf
  have hshape : (Work.locked work >>= f).run = underLock (work.run.bind fun outcome =>
      .done (outcome.toOption.elim [] records, outcome.bind reply)) := by
    refine congrArg (Program.ask (σ := effects) Effect.lock) (funext fun _ => ?_)
    refine (Program.bind_assoc _ _ _).trans (Eq.trans ?_ (Program.bind_assoc _ _ _).symm)
    refine congrArg (Program.bind work.run) (funext fun outcome => ?_)
    cases outcome with
    | ok result =>
      exact congrArg (Program.ask (σ := effects) Effect.unlock) (funext fun _ => hf result)
    | error error => rfl
  rw [hshape]
  exact .locked (Program.Obeys.bind (Program.Obeys.mono hcalls fun _ _ _ => trivial))

theorem map {program : Program effects (Outcome β)} (h : IsUnderLock removes program)
    (f : β → α) : IsUnderLock removes (program.bind fun outcome => .done (outcome.map f)) := by
  cases h with
  | done outcome => exact .done _
  | @locked critical hcalls =>
    have hshape : (underLock critical).bind (fun outcome => .done (outcome.map f))
        = underLock (critical.bind fun last => .done (last.1, last.2.map f)) := by
      refine congrArg (Program.ask (σ := effects) Effect.lock) (funext fun _ => ?_)
      refine (Program.bind_assoc _ _ _).trans (Eq.trans ?_ (Program.bind_assoc _ _ _).symm)
      refine congrArg (Program.bind critical) (funext fun last => ?_)
      exact congrArg (Program.ask (σ := effects) Effect.unlock)
        (funext fun _ => leave_bind last.1 last.2 _)
    rw [hshape]
    exact .locked (Program.Obeys.bind (Program.Obeys.mono hcalls fun _ _ _ => trivial))

theorem map_run {work : Work β} (h : IsUnderLock removes work.run) (f : β → α) :
    IsUnderLock removes (f <$> work).run := by
  rw [Work.run_map]
  exact h.map f

end IsUnderLock

end

namespace Task

/-- The task is about secured variables. -/
def IsSecured : Task → Prop
  | .common => False
  | .addCommon _ _ => False
  | .addCommons _ _ => False
  | .deleteCommons _ => False
  | .restore _ => False
  | _ => True

/-- The task starts removals that come by themselves. -/
def removes : Task → Bool
  | .deleteFromSecrets _ => true
  | _ => false

variable {coordinator : Coordinator}

theorem isUnderLock_addVariables (secret : String) (values : Dict String) (imported : Bool) :
    IsUnderLock false (coordinator.addVariables secret values imported).run := by
  rw [Coordinator.addVariables]
  split
  · exact .done _
  · refine IsUnderLock.locked_bind ?_ fun current => ⟨_, _, run_recordAll_bind _ rfl⟩
    refine Calls.bind (Calls.data _ true) fun current => ?_
    have hadd : Calls false (do
        Operation.ofOutcome (Coordinator.checkEach (Variable.checkNotBlank .secured) values.keys)
        let _ ← Keeper.add (coordinator.keeper.resolve secret) values current.isEmpty
        return current) :=
      Calls.bind (Calls.ofOutcome _) fun _ => Calls.bind (Calls.secrets _ _) fun _ => Calls.pure _
    exact Calls.ite (Calls.bind (Calls.checkCollision _ _) fun _ => hadd) hadd

theorem isUnderLock_updateVariables (secret : String) (values : Dict (Option String)) :
    IsUnderLock false (coordinator.updateVariables secret values).run := by
  refine IsUnderLock.locked_bind ?_ fun current => ⟨_, _, run_recordAll_bind _ rfl⟩
  refine Calls.bind (Calls.data _ true) fun current => ?_
  refine Calls.bind (Calls.ofOutcome _) fun _ => ?_
  exact Calls.bind (Calls.secrets _ _) fun _ => Calls.pure _

theorem isUnderLock_deleteVariables (secret : String) (names : Names) (logged : Bool) :
    IsUnderLock false (coordinator.deleteVariables secret names logged).run := by
  rw [Coordinator.deleteVariables]
  split
  · exact .done _
  · refine IsUnderLock.locked_bind ?_ fun current => ?_
    · refine Calls.bind (Calls.data _ true) fun current => ?_
      exact Calls.bind (Calls.secrets _ _) fun _ => Calls.pure _
    · split
      · rw [← bind_pure (Coordinator.recordAll _)]
        exact ⟨_, _, run_recordAll_bind _ rfl⟩
      · exact ⟨[], .ok (), rfl⟩

theorem isUnderLock_locked {α : Type} {removes : Bool} {work : Work α} (h : Calls removes work) :
    IsUnderLock removes (Work.locked work).run := by
  rw [← bind_pure (Work.locked work)]
  exact IsUnderLock.locked_bind h fun result => ⟨[], .ok result, rfl⟩

theorem isUnderLock_names (secret : String) (strict : Bool) :
    IsUnderLock false (coordinator.names secret strict).run :=
  isUnderLock_locked (Calls.bind (Calls.data _ strict) fun _ => Calls.pure _)

theorem isUnderLock_deleteFromSecrets (requested : Dict Names) :
    IsUnderLock true (coordinator.deleteFromSecrets requested).run := by
  rw [Coordinator.deleteFromSecrets]
  split
  · exact .done _
  · refine IsUnderLock.locked_bind ?_ fun result => ?_
    · refine Calls.bind (Calls.secrets _ _) fun all => ?_
      refine Calls.bind (Calls.issue all _ _) fun issued => ?_
      refine Calls.bind Calls.deadline fun bound => ?_
      exact Calls.bind ⟨rfl, fun _ => trivial⟩ fun _ => Calls.pure _
    · obtain ⟨before, failures⟩ := result
      let batch := Coordinator.targets coordinator.keeper requested
      let errors := failures.entries.map fun entry => SecretFailure.mk entry.1 entry.2
      refine ⟨_, if errors.length = batch.size then .error (.allSecretsFailed errors)
        else .ok errors, run_recordAll_bind _ ?_⟩
      dsimp only
      split <;> rfl

/-- **All tasks on secured variables have one shape.** -/
theorem isUnderLock (coordinator : Coordinator) {task : Task} (h : task.IsSecured) :
    IsUnderLock task.removes (task.work coordinator).run := by
  cases task with
  | allNames =>
    exact (isUnderLock_locked
      (Calls.bind (Calls.secrets _ _) fun _ => Calls.pure _)).map_run _
  | names secret strict => exact (isUnderLock_names _ _).map_run _
  | defaultNames strict => exact (isUnderLock_names _ _).map_run _
  | add secret values imported => exact (isUnderLock_addVariables _ _ _).map_run _
  | addDefaults values => exact (isUnderLock_addVariables _ _ _).map_run _
  | importVariables values => exact (isUnderLock_addVariables _ _ _).map_run _
  | update secret values => exact (isUnderLock_updateVariables _ _).map_run _
  | updateDefault name value =>
    have hname := (@isUnderLock_updateVariables coordinator coordinator.keeper.defaultName
      (Dict.ofList [(name, value)])).map_run fun _ => name
    rw [← bind_pure_comp] at hname
    exact hname.map_run _
  | delete secret names logged => exact (isUnderLock_deleteVariables _ _ _).map_run _
  | deleteDefaults names => exact (isUnderLock_deleteVariables _ _ _).map_run _
  | deleteFromSecrets requested => exact (isUnderLock_deleteFromSecrets _).map_run _
  | common => exact h.elim
  | addCommon name value => exact h.elim
  | addCommons values imported => exact h.elim
  | deleteCommons names => exact h.elim
  | restore values => exact h.elim

end Task

/-! ## What tasks come to -/

/-- The effect is answered in one way, by what is shared, and starts nothing. -/
def Effect.isSteady : Effect → Bool
  | .store _ => true
  | .secrets _ => true
  | .lock => true
  | .unlock => true
  | .record _ => true
  | _ => false

theorem AnswersAlone.deterministic {effect : Effect} (hsteady : effect.isSteady = true)
    {first second : effect.Answer} {s t u : Shared} (hfirst : AnswersAlone false effect s first t)
    (hsecond : AnswersAlone false effect s second u) :
    first = second ∧ t = u ∧ t.started = s.started := by
  cases effect with
  | store call =>
    obtain ⟨rfl, rfl⟩ | ⟨hfaulty, -⟩ := hfirst
    · obtain ⟨rfl, rfl⟩ | ⟨hfaulty, -⟩ := hsecond
      · exact ⟨rfl, rfl, rfl⟩
      · cases hfaulty
    · cases hfaulty
  | secrets call =>
    obtain ⟨rfl, rfl⟩ | ⟨hfaulty, -⟩ := hfirst
    · obtain ⟨rfl, rfl⟩ | ⟨hfaulty, -⟩ := hsecond
      · exact ⟨rfl, rfl, rfl⟩
      · cases hfaulty
    · cases hfaulty
  | lock =>
    obtain ⟨-, rfl⟩ := hfirst
    obtain ⟨-, rfl⟩ := hsecond
    exact ⟨rfl, rfl, rfl⟩
  | unlock =>
    obtain rfl := hfirst
    obtain rfl := hsecond
    exact ⟨rfl, rfl, rfl⟩
  | record record =>
    obtain rfl := hfirst
    obtain rfl := hsecond
    exact ⟨rfl, rfl, rfl⟩
  | _ => cases hsteady

/-- Where nothing is left to come, a program that asks for nothing else comes to one end. -/
theorem Alone.deterministic {α : Type} {program : Program effects α}
    (hsteady : program.Obeys (Effect.only Effect.isSteady) () fun _ _ => True)
    {first second : α} {s t u : Shared} (hsettled : s.Settled)
    (hfirst : Alone false true program s (.done first) t)
    (hsecond : Alone false true program s (.done second) u) :
    first = second ∧ t = u ∧ t.Settled := by
  induction program generalizing s with
  | done result =>
    obtain ⟨rfl, rfl⟩ := hfirst.of_done
    obtain ⟨rfl, rfl⟩ := hsecond.of_done
    exact ⟨rfl, rfl, hsettled⟩
  | ask effect next ih =>
    obtain ⟨between, answer, answered, hmeanwhile, hanswers, hmore⟩ := hfirst.of_ask
    obtain rfl := hmeanwhile.eq_of_quiet fun _ => hsettled
    obtain ⟨_, answer', answered', hmeanwhile', hanswers', hmore'⟩ := hsecond.of_ask
    obtain rfl := hmeanwhile'.eq_of_quiet fun _ => hsettled
    obtain ⟨rfl, rfl, hstarted⟩ := hanswers.deterministic hsteady.1 hanswers'
    have hstill : answered.Settled := by
      rw [Shared.Settled, hstarted]
      exact hsettled
    exact ih answer (hsteady.2 answer) hstill hmore hmore'
  | overflow => cases hfirst

theorem IsUnderLock.isSteady {α : Type} {program : Program effects (Outcome α)}
    (h : IsUnderLock false program) :
    program.Obeys (Effect.only Effect.isSteady) () fun _ _ => True := by
  have hleave : ∀ records (outcome : Outcome α),
      (leave records outcome).Obeys (Effect.only Effect.isSteady) () fun _ _ => True := by
    intro records outcome
    induction records with
    | nil => exact trivial
    | cons record more ih => exact ⟨rfl, fun _ => ih⟩
  cases h with
  | done outcome => exact trivial
  | locked hcalls =>
    have hsteady : ∀ effect : Effect, effect.isCall false = true → effect.isSteady = true := by
      intro effect hcall
      cases effect <;> first | rfl | cases hcall
    refine ⟨rfl, fun _ => Program.Obeys.bind (Program.Obeys.mono
      (Program.Obeys.relax hcalls (fun _ effect => hsteady effect) rfl) fun last _ _ => ?_)⟩
    exact ⟨rfl, fun _ => hleave last.1 last.2⟩

/-- **What a task comes to depends only on what is shared before it.** -/
theorem Task.deterministic {coordinator : Coordinator} {task : Task} (hsecured : task.IsSecured)
    {s t u : Shared} (hsettled : s.Settled) {first second : Outcome Reply}
    (hfirst : Performs false true s (task.work coordinator) first t)
    (hsecond : Performs false true s (task.work coordinator) second u) :
    first = second ∧ t = u ∧ t.Settled := by
  have hshape := Task.isUnderLock coordinator hsecured
  cases task with
  | deleteFromSecrets requested =>
    obtain ⟨given, hwork, rfl⟩ := hfirst.of_map
    obtain ⟨given', hwork', rfl⟩ := hsecond.of_map
    rcases Batch.deleteFromSecrets hsettled hwork with ⟨hnone, rfl, rfl⟩ | ⟨hsome, rfl, rfl⟩ <;>
      rcases Batch.deleteFromSecrets hsettled hwork' with ⟨hnone', rfl, rfl⟩ | ⟨hsome', rfl, rfl⟩
    · exact ⟨rfl, rfl, hsettled⟩
    · rw [hnone] at hsome'
      cases hsome'
    · rw [hsome] at hnone'
      cases hnone'
    · exact ⟨rfl, rfl, Batch.settled_after _ hsettled⟩
  | _ => exact Alone.deterministic hshape.isSteady hsettled hfirst hsecond

/-- **Tasks that are performed one after the other come to one end.** -/
theorem Serial.unique {coordinator : Coordinator} {start finish other : Shared}
    {performances others : List Performance} (hsettled : start.Settled)
    (hsecured : ∀ one ∈ performances, one.task.IsSecured)
    (h : Serial coordinator start performances finish)
    (hother : Serial coordinator start others other)
    (htasks : others.map Performance.task = performances.map Performance.task) :
    others = performances ∧ other = finish := by
  induction h generalizing others with
  | nil =>
    obtain rfl := List.map_eq_nil_iff.mp htasks
    cases hother
    exact ⟨rfl, rfl⟩
  | cons hperforms _ ih =>
    obtain ⟨hfirst, hmore⟩ := List.forall_mem_cons.mp hsecured
    cases hother with
    | nil => cases htasks
    | cons hperforms' hrest =>
      obtain ⟨htask, htail⟩ := List.cons_eq_cons.mp htasks
      obtain rfl := htask
      obtain ⟨rfl, rfl, hlater⟩ := Task.deterministic hfirst hsettled hperforms hperforms'
      obtain ⟨rfl, rfl⟩ := ih hlater hmore hrest htail
      exact ⟨rfl, rfl⟩

end EngineCatalog
