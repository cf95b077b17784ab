import EngineCatalog.Proofs.Variable.Keeps

/-!
# Tasks

`Task` lists what the coordinator can be asked to do, with the names that each task ever puts into
the default secret, and those that it makes common. No task does both, and each asks only for what
its permit allows (`Task.covers`).
-/

namespace EngineCatalog

/-- What the coordinator can be asked to do. Only the writing of common variables without checks is
none of the tasks. -/
inductive Task where
  /-- the names of the variables of each secret -/
  | allNames
  /-- the names of the variables of a secret -/
  | names (secret : String) (strict : Bool)
  /-- the names of the variables of the default secret -/
  | defaultNames (strict : Bool)
  /-- adds variables to a secret, or imports them -/
  | add (secret : String) (values : Dict String) (imported : Bool)
  /-- adds variables to the default secret -/
  | addDefaults (values : Dict String)
  /-- imports variables into the default secret -/
  | importVariables (values : Dict String)
  /-- overwrites variables of a secret -/
  | update (secret : String) (values : Dict (Option String))
  /-- overwrites a variable of the default secret -/
  | updateDefault (name : String) (value : Option String)
  /-- deletes variables from a secret -/
  | delete (secret : String) (names : Names) (logged : Bool)
  /-- deletes variables from the default secret -/
  | deleteDefaults (names : Names)
  /-- deletes variables from several secrets -/
  | deleteFromSecrets (requested : Dict Names)
  /-- all common variables -/
  | common
  /-- writes a common variable -/
  | addCommon (name value : String)
  /-- writes common variables, or imports them -/
  | addCommons (values : Dict String) (imported : Bool)
  /-- deletes common variables -/
  | deleteCommons (names : List String)
  /-- makes the default variables common ones -/
  | restore (values : Dict String)

namespace Task

/-- The program that does some work, whatever it comes to. -/
def finish {α : Type} (work : Work α) : Program effects Unit :=
  Program.bind work.run fun _ => .done ()

/-- The program of the task. -/
def program (coordinator : Coordinator) : Task → Program effects Unit
  | .allNames => finish coordinator.allNames
  | .names secret strict => finish (coordinator.names secret strict)
  | .defaultNames strict => finish (coordinator.defaultNames strict)
  | .add secret values imported => finish (coordinator.addVariables secret values imported)
  | .addDefaults values => finish (coordinator.addDefaults values)
  | .importVariables values => finish (coordinator.importVariables values)
  | .update secret values => finish (coordinator.updateVariables secret values)
  | .updateDefault name value => finish (coordinator.updateDefault name value)
  | .delete secret keys logged => finish (coordinator.deleteVariables secret keys logged)
  | .deleteDefaults keys => finish (coordinator.deleteDefaults keys)
  | .deleteFromSecrets requested => finish (coordinator.deleteFromSecrets requested)
  | .common => finish coordinator.common
  | .addCommon name value => finish (coordinator.addCommon name value)
  | .addCommons values imported => finish (coordinator.addCommons values imported)
  | .deleteCommons keys => finish (coordinator.deleteCommons keys)
  | .restore values => finish (coordinator.restoreDefaults values)

/-- The names that come into the default secret when variables are added to a secret. -/
def added (coordinator : Coordinator) (secret : String) (values : Dict String) : Set String :=
  {name | coordinator.keeper.isDefault (coordinator.keeper.resolve secret) = true ∧
    (∀ other, values.contains other = true → Text.isBlank other = false) ∧
    values.contains name = true}

/-- The names that the task puts into the default secret, if nothing is in its way. -/
def secures (coordinator : Coordinator) : Task → Set String
  | .add secret values _ => added coordinator secret values
  | .addDefaults values => added coordinator coordinator.keeper.defaultName values
  | .importVariables values => added coordinator coordinator.keeper.defaultName values
  | _ => ∅

/-- The names that the task makes common, if nothing is in its way. -/
def publishes (coordinator : Coordinator) : Task → Set String
  | .addCommon one _ => {name |
    name = one ∧ Variable.isWellFormed one = true ∧
    isAbsolute (coordinator.catalog.layout.variableKey one) = true}
  | .addCommons values _ => {name |
    (∀ other, values.contains other = true → Variable.isWellFormed other = true ∧
      isAbsolute (coordinator.catalog.layout.variableKey other) = true) ∧
    values.contains name = true}
  | .restore values => {name |
    0 < coordinator.restorePolicy.attempts ∧
    (∀ other, values.contains other = true →
      isAbsolute (coordinator.catalog.layout.variableKey other) = true) ∧
    values.contains name = true ∧ isSegment name.toList = true}
  | _ => ∅

/-- The names that the task ever writes. -/
def rights (coordinator : Coordinator) (task : Task) : Rights :=
  ⟨task.secures coordinator, task.publishes coordinator⟩

/-- No task writes to both halves of the namespace what it was given. -/
theorem disjoint_rights (coordinator : Coordinator) (task : Task) {name : String}
    (h : name ∈ task.secures coordinator) : name ∉ task.publishes coordinator := by
  cases task with
  | add secret values imported => exact id
  | addDefaults values => exact id
  | importVariables values => exact id
  | _ => exact absurd h id

variable {coordinator : Coordinator} {rights : Rights} {permit : Permit}

theorem covers_finish {α : Type} {work : Work α} {post : α → Permit → Prop}
    (h : Keeps coordinator rights permit work post) (hfree : permit.held = false) :
    Covers coordinator rights true permit (finish work) fun _ later => later.held = false :=
  Covers.of_untimed (Covers.bind (Covers.mono h fun _ _ hend => hend.1.trans hfree))

/-- A task asks only for what its permit allows, and gives the lock back. -/
theorem covers (coordinator : Coordinator) (task : Task) (hfree : permit.held = false) :
    Covers coordinator (task.rights coordinator) true permit (task.program coordinator)
      fun _ later => later.held = false := by
  cases task with
  | allNames => exact covers_finish (Keeps.allNames hfree) hfree
  | names secret strict => exact covers_finish (Keeps.names hfree secret strict) hfree
  | defaultNames strict => exact covers_finish (Keeps.names hfree _ strict) hfree
  | add secret values imported =>
    exact covers_finish (Keeps.addVariables hfree fun hdefault hblank name hname =>
      ⟨hdefault, hblank, hname⟩) hfree
  | addDefaults values =>
    exact covers_finish (Keeps.addVariables hfree fun hdefault hblank name hname =>
      ⟨hdefault, hblank, hname⟩) hfree
  | importVariables values =>
    exact covers_finish (Keeps.addVariables hfree fun hdefault hblank name hname =>
      ⟨hdefault, hblank, hname⟩) hfree
  | update secret values => exact covers_finish (Keeps.updateVariables hfree) hfree
  | updateDefault name value => exact covers_finish (Keeps.updateDefault hfree name value) hfree
  | delete secret names logged => exact covers_finish (Keeps.deleteVariables hfree) hfree
  | deleteDefaults names => exact covers_finish (Keeps.deleteVariables hfree) hfree
  | deleteFromSecrets requested =>
    exact covers_finish (Keeps.deleteFromSecrets hfree requested) hfree
  | common => exact covers_finish Keeps.common hfree
  | addCommon name value =>
    refine covers_finish (Keeps.addCommon hfree ?_) hfree
    exact fun hformed habsolute => ⟨rfl, hformed, habsolute⟩
  | addCommons values imported =>
    refine covers_finish (Keeps.addCommons hfree ?_) hfree
    exact fun hvalid name hname => ⟨hvalid, hname⟩
  | deleteCommons names => exact covers_finish (Keeps.deleteCommons names) hfree
  | restore values =>
    refine Covers.bind (Covers.mono ?_ fun _ _ hlater => hlater)
    rw [Coordinator.restoreDefaults, Retry.run]
    cases hattempts : coordinator.restorePolicy.attempts with
    | zero => exact hfree
    | succ more =>
      -- each attempt has the same rights, whatever became of those before it
      rw [← hattempts]
      refine Covers.loop (fun later hlater => ?_) _ _ _ hfree
      refine Covers.mono (Keeps.restoreOnce hlater ?_) fun _ _ hend => hend.1.trans hlater
      intro habsolute name hname hsegment
      exact ⟨hattempts ▸ Nat.succ_pos more, habsolute, hname, hsegment⟩

end Task

end EngineCatalog
