import EngineCatalog.Proofs.Concurrency.Alone
import EngineCatalog.Proofs.Variable.Task

/-!
# Tasks one after the other

`Task.work` is what a task does together with what it gives back; its program is that work, whatever
it comes to (`Task.program_eq_finish`).

* `Reply` — what tasks give back.
* `Performance` — a task that was performed, with its outcome.
* `Serial` — tasks performed one after the other, each of them alone.
-/

namespace EngineCatalog

/-! ## What tasks give back -/

/-- What a task gives back. -/
inductive Reply where
  /-- nothing -/
  | nothing
  /-- a name -/
  | name (name : String)
  /-- names -/
  | names (names : Names)
  /-- names by their secrets -/
  | namesBySecret (all : Dict Names)
  /-- the secrets that failed -/
  | failures (failures : List SecretFailure)
  /-- common variables -/
  | values (values : Dict String)
  /-- what became of common variables that were written -/
  | written (written : List Coordinator.Written)

/-- What is made of a result is made of it at the end. -/
theorem Work.run_map {α β : Type} (f : α → β) (work : Work α) :
    (f <$> work).run = work.run.bind fun outcome => .done (outcome.map f) :=
  (ExceptT.run_map f work).trans (map_eq_pure_bind _ _)

namespace Task

/-- What the task does, and what it gives back. -/
def work (coordinator : Coordinator) : Task → Work Reply
  | .allNames => .namesBySecret <$> coordinator.allNames
  | .names secret strict => .names <$> coordinator.names secret strict
  | .defaultNames strict => .names <$> coordinator.defaultNames strict
  | .add secret values imported => .names <$> coordinator.addVariables secret values imported
  | .addDefaults values => .names <$> coordinator.addDefaults values
  | .importVariables values => .names <$> coordinator.importVariables values
  | .update secret values => .names <$> coordinator.updateVariables secret values
  | .updateDefault name value => .name <$> coordinator.updateDefault name value
  | .delete secret keys logged =>
    (fun _ => .nothing) <$> coordinator.deleteVariables secret keys logged
  | .deleteDefaults keys => (fun _ => .nothing) <$> coordinator.deleteDefaults keys
  | .deleteFromSecrets requested => .failures <$> coordinator.deleteFromSecrets requested
  | .common => .values <$> coordinator.common
  | .addCommon name value => .name <$> coordinator.addCommon name value
  | .addCommons values imported => .written <$> coordinator.addCommons values imported
  | .deleteCommons keys => (fun _ => .nothing) <$> coordinator.deleteCommons keys
  | .restore values => (fun _ => .nothing) <$> coordinator.restoreDefaults values

/-- Whoever takes no notice of an outcome does not mind what is made of it. -/
theorem finish_map {α β : Type} (f : α → β) (work : Work α) : finish (f <$> work) = finish work := by
  rw [finish, Work.run_map, finish]
  exact Program.bind_assoc _ _ _

/-- The program of a task does its work, whatever that comes to. -/
theorem program_eq_finish (coordinator : Coordinator) (task : Task) :
    task.program coordinator = finish (task.work coordinator) := by
  cases task <;> exact (finish_map _ _).symm

end Task

/-! ## Tasks one after the other -/

/-- A task that was performed. -/
structure Performance where
  /-- the task -/
  task : Task
  /-- what it came to -/
  outcome : Outcome Reply
  /-- what was shared before -/
  before : Shared
  /-- what was shared after -/
  after : Shared

/-- Tasks are performed one after the other. No call fails, and waits for removals are not given
up. -/
inductive Serial (coordinator : Coordinator) : Shared → List Performance → Shared → Prop where
  /-- no task -/
  | nil (shared : Shared) : Serial coordinator shared [] shared
  /-- a task, and then others -/
  | cons {task : Task} {outcome : Outcome Reply} {before between after : Shared}
    {more : List Performance}
    (hperforms : Performs false true before (task.work coordinator) outcome between)
    (hmore : Serial coordinator between more after) :
    Serial coordinator before (⟨task, outcome, before, between⟩ :: more) after

namespace Serial

variable {coordinator : Coordinator} {before between after : Shared}
  {performances more : List Performance}

theorem append (h : Serial coordinator before performances between)
    (hmore : Serial coordinator between more after) :
    Serial coordinator before (performances ++ more) after := by
  induction h with
  | nil => exact hmore
  | cons hperforms _ ih => exact .cons hperforms (ih hmore)

/-- One more task is performed. -/
theorem concat (h : Serial coordinator before performances between) {task : Task}
    {outcome : Outcome Reply}
    (hperforms : Performs false true between (task.work coordinator) outcome after) :
    Serial coordinator before (performances ++ [⟨task, outcome, between, after⟩]) after :=
  h.append (.cons hperforms (.nil after))

end Serial

end EngineCatalog
