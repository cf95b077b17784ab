import EngineCatalog.Proofs.Variable.Exclusion
import Mathlib.Data.Set.Basic

/-!
# Secrets within reach

An operation calls those secrets by name whose names it was given, and those that a listing has told
it. These names are its reach, which grows by nothing but listings of the secrets that belong to the
catalog.

* `Reach.Allows`, `Reach.next` — what may be called within a reach, and the reach after an answer.
* `InReach` — an operation stays within a reach.
* `Deed` — what a job can do with secrets: a duty of the coordinator, or an operation of the keeper.
* `Deed.reach` — the names that a deed is given, as far as it comes to call them.
* `Deed.inReach` — a deed stays within its reach.
-/

namespace EngineCatalog

open Secret (Data Label)

/-! ## Reaches -/

/-- The call lists the secrets of the label, or its secret is within reach. -/
def Secret.Call.IsWithin (label : Label) (reach : Set String) : Secret.Call → Prop
  | .list other => other = label
  | .read name => name ∈ reach
  | .create name _ _ => name ∈ reach
  | .add name _ _ => name ∈ reach
  | .update name _ => name ∈ reach
  | .remove name _ => name ∈ reach

namespace Reach

/-- What a job may ask for within a reach. -/
def Allows (label : Label) (reach : Set String) : Effect → Prop
  | .secrets call => call.IsWithin label reach
  | .startRemoval name _ => name ∈ reach
  | .until _ effect => Allows label reach effect
  | _ => True

/-- The reach after an answer. -/
def next (reach : Set String) : (effect : Effect) → effect.Answer → Set String
  | .secrets (.list _), .ok all => reach ∪ {name | all.contains name = true}
  | .until _ effect, answer =>
    match (answer : Option effect.Answer) with
    | some answer => next reach effect answer
    | none => reach
  | _, _ => reach

/-- The discipline of staying within reach. -/
def discipline (label : Label) : Discipline effects (Set String) :=
  ⟨Allows label, next⟩

variable {label : Label} {reach known : Set String} {effect : Effect}

theorem Allows.mono (h : Allows label reach effect) (hreach : reach ⊆ known) :
    Allows label known effect := by
  induction effect with
  | secrets call =>
    cases call with
    | list other => exact h
    | _ => exact hreach h
  | startRemoval name keys => exact hreach h
  | «until» moment effect ih => exact ih h
  | _ => trivial

/-- What follows from a larger reach is larger. -/
theorem next_mono (hreach : reach ⊆ known) (answer : effect.Answer) :
    next reach effect answer ⊆ next known effect answer := by
  induction effect with
  | secrets call =>
    cases call with
    | list other =>
      cases answer with
      | ok all => exact Set.union_subset_union_left _ hreach
      | error error => exact hreach
    | _ => exact hreach
  | «until» moment effect ih =>
    cases answer with
    | some answer => exact ih answer
    | none => exact hreach
  | _ => exact hreach

/-- A reach only grows. -/
theorem subset_next (answer : effect.Answer) : known ⊆ next known effect answer := by
  induction effect with
  | secrets call =>
    cases call with
    | list other =>
      cases answer with
      | ok all => exact Set.subset_union_left
      | error error => exact subset_rfl
    | _ => exact subset_rfl
  | «until» moment effect ih =>
    cases answer with
    | some answer => exact ih answer
    | none => exact subset_rfl
  | _ => exact subset_rfl

variable {α : Type} {program : Program effects α} {post : α → Set String → Prop}

/-- Where a program ends, its reach is no smaller than it was. -/
theorem obeys_subset (h : program.Obeys (discipline label) known post) :
    program.Obeys (discipline label) known fun result later =>
      post result later ∧ known ⊆ later := by
  induction program generalizing known with
  | done result => exact ⟨h, subset_rfl⟩
  | ask effect next ih =>
    refine ⟨h.1, fun answer => Program.Obeys.mono (ih answer (h.2 answer)) ?_⟩
    exact fun _ _ hlater => ⟨hlater.1, (subset_next answer).trans hlater.2⟩
  | overflow => trivial

/-- What stays within a reach stays within any that is larger. -/
theorem obeys_mono (h : program.Obeys (discipline label) reach fun _ _ => True)
    (hreach : reach ⊆ known) : program.Obeys (discipline label) known fun _ _ => True := by
  induction program generalizing reach known with
  | done result => trivial
  | ask effect next ih =>
    exact ⟨Allows.mono h.1 hreach, fun answer => ih answer (h.2 answer) (next_mono hreach answer)⟩
  | overflow => trivial

/-- One program after another stays within the reach, if both do. -/
theorem obeys_bind {β : Type} {f : α → Program effects β}
    (h : program.Obeys (discipline label) reach fun _ _ => True)
    (hf : ∀ result, (f result).Obeys (discipline label) reach fun _ _ => True) :
    (program.bind f).Obeys (discipline label) reach fun _ _ => True :=
  Program.Obeys.bind (Program.Obeys.mono (obeys_subset h) fun result _ hlater =>
    obeys_mono (hf result) hlater.2)

end Reach

/-- The name of the default secret stands for the default secret. -/
theorem Keeper.resolve_defaultName (keeper : Keeper) :
    keeper.resolve keeper.defaultName = keeper.defaultName := by
  rw [Keeper.resolve]
  split <;> rfl

/-! ## Operations within reach -/

/-- The operation stays within a reach. -/
def InReach (label : Label) (reach : Set String) {α : Type} (work : Work α) : Prop :=
  work.run.Obeys (Reach.discipline label) reach fun _ _ => True

namespace InReach

variable {label : Label} {reach : Set String} {α β : Type} {work : Work α}

theorem pure (result : α) : InReach label reach (Pure.pure result) := trivial

theorem fail (error : Error) : InReach label reach (.fail error : Work α) := trivial

theorem ofOutcome (outcome : Outcome α) : InReach label reach (.ofOutcome outcome) := trivial

theorem bind {f : α → Work β} (h : InReach label reach work)
    (hf : ∀ result, InReach label reach (f result)) : InReach label reach (work >>= f) := by
  refine Reach.obeys_bind h fun outcome => ?_
  cases outcome with
  | ok result => exact hf result
  | error error => trivial

theorem ite {condition : Prop} [Decidable condition] {other : Work α}
    (h : InReach label reach work) (hother : InReach label reach other) :
    InReach label reach (if condition then work else other) := by
  split
  · exact h
  · exact hother

theorem call {effect : Effect} {outcome : effect.Answer → Outcome α}
    (h : Reach.Allows label reach effect) :
    InReach label reach (.call (σ := effects) effect outcome) :=
  ⟨h, fun _ => trivial⟩

theorem tell {effect : Effect} {value : effect.Answer → α}
    (h : Reach.Allows label reach effect) :
    InReach label reach (.tell (σ := effects) effect value) :=
  ⟨h, fun _ => trivial⟩

theorem attempt (h : InReach label reach work) : InReach label reach work.attempt :=
  Program.Obeys.bind h

/-- The key-value store is no concern of a reach. -/
theorem ofStore (operation : Operation KeyValue.keyValue α) :
    InReach label reach (Work.ofStore operation) :=
  Program.Obeys.ofStore operation (fun _ => trivial) (fun _ _ => rfl) fun _ => trivial

theorem locked (h : InReach label reach work) : InReach label reach (Work.locked work) :=
  ⟨trivial, fun _ => Program.Obeys.bind (Program.Obeys.mono h fun _ _ _ =>
    ⟨trivial, fun _ => trivial⟩)⟩

/-- What is listed is within reach afterwards. -/
theorem all_bind {keeper : Keeper} {f : Dict Data → Work α}
    (hf : ∀ all, InReach keeper.label {name | all.contains name = true} (f all)) :
    InReach keeper.label ∅ (keeper.all >>= f) := by
  refine ⟨rfl, fun answer => ?_⟩
  cases answer with
  | ok all => exact Reach.obeys_mono (hf all) Set.subset_union_right
  | error error => trivial

theorem record (record : Audit.Record) : InReach label reach (Work.record record) :=
  InReach.tell trivial

theorem recordAll (records : List Audit.Record) :
    InReach label reach (Coordinator.recordAll records) := by
  induction records with
  | nil => exact InReach.pure ()
  | cons one more ih => exact InReach.bind (InReach.record one) fun _ => ih

theorem records_then (records : List Audit.Record) (result : α) :
    InReach label reach (do Coordinator.recordAll records; Pure.pure result) :=
  InReach.bind (InReach.recordAll records) fun _ => InReach.pure result

/-! ### The keeper -/

variable {keeper : Keeper} {secret : String}

theorem data (strict : Bool) (h : secret ∈ reach) :
    InReach label reach (Keeper.data secret strict) := by
  refine InReach.bind (InReach.call h) fun found => ?_
  cases found with
  | some data => exact InReach.pure data
  | none => exact InReach.ite (InReach.fail _) (InReach.pure _)

theorem create (h : secret ∈ reach) : InReach label reach (keeper.create secret) := by
  refine InReach.bind (InReach.call h) fun found => ?_
  cases found with
  | some data => exact InReach.pure false
  | none => exact InReach.bind (InReach.call h) fun _ =>
      InReach.bind (InReach.record _) fun _ => InReach.pure true

theorem startRemoval (keys : Names) (h : secret ∈ reach) :
    InReach label reach (Keeper.startRemoval secret keys) :=
  InReach.bind (InReach.call h) fun _ => InReach.pure _

/-! ### Secured variables -/

variable {coordinator : Coordinator}

theorem names (strict : Bool) (h : coordinator.keeper.resolve secret ∈ reach) :
    InReach label reach (coordinator.names secret strict) :=
  InReach.locked (InReach.bind (InReach.data strict h) fun _ => InReach.pure _)

theorem checkCollision (current : Data) (added : Dict String) :
    InReach label reach (coordinator.checkCollision current added) := by
  refine InReach.bind (InReach.ofStore _) fun common => ?_
  cases Coordinator.collision? common current added with
  | some name => exact InReach.fail _
  | none => exact InReach.pure ()

theorem addVariables {values : Dict String} (imported : Bool)
    (h : values.isEmpty = false → coordinator.keeper.resolve secret ∈ reach) :
    InReach label reach (coordinator.addVariables secret values imported) := by
  rw [Coordinator.addVariables]
  split
  · exact InReach.pure _
  · rename_i hsome
    have hsecret := h (Bool.eq_false_iff.mpr hsome)
    refine InReach.bind (InReach.locked ?_) fun before => InReach.records_then _ _
    refine InReach.bind (InReach.data true hsecret) fun current => ?_
    have hadd : InReach label reach (do
        Operation.ofOutcome
          (Coordinator.checkEach (Variable.checkNotBlank .secured) values.keys)
        let _ ← Keeper.add (coordinator.keeper.resolve secret) values current.isEmpty
        return current) :=
      InReach.bind (InReach.ofOutcome _) fun _ =>
        InReach.bind (InReach.call hsecret) fun _ => InReach.pure current
    exact InReach.ite (InReach.bind (InReach.checkCollision current values) fun _ => hadd) hadd

theorem updateVariables (values : Dict (Option String))
    (h : coordinator.keeper.resolve secret ∈ reach) :
    InReach label reach (coordinator.updateVariables secret values) := by
  refine InReach.bind (InReach.locked ?_) fun _ => InReach.records_then _ _
  refine InReach.bind (InReach.data true h) fun current => ?_
  refine InReach.bind (InReach.ofOutcome _) fun _ => ?_
  exact InReach.bind (InReach.call h) fun _ => InReach.pure ()

theorem deleteVariables {names : Names} (logged : Bool)
    (h : names.isEmpty = false → coordinator.keeper.resolve secret ∈ reach) :
    InReach label reach (coordinator.deleteVariables secret names logged) := by
  rw [Coordinator.deleteVariables]
  split
  · exact InReach.pure _
  · rename_i hsome
    have hsecret := h (Bool.eq_false_iff.mpr hsome)
    refine InReach.bind (InReach.locked ?_) fun before =>
      InReach.ite (InReach.recordAll _) (InReach.pure _)
    refine InReach.bind (InReach.data true hsecret) fun current => ?_
    exact InReach.bind (InReach.call hsecret) fun _ => InReach.pure current

/-- Removals are started from secrets that were listed, and from no others. -/
theorem issue (all : Dict Data) (issued : Coordinator.Issued) (targets : List (String × Names)) :
    InReach label {name | all.contains name = true} (Coordinator.issue all issued targets) := by
  induction targets generalizing issued with
  | nil => exact InReach.pure issued
  | cons target more ih =>
    obtain ⟨secret, names⟩ := target
    rw [Coordinator.issue]
    split
    · rename_i hlisted
      refine InReach.bind (InReach.attempt (InReach.startRemoval names hlisted)) fun started => ?_
      cases started with
      | ok pending => exact ih _
      | error error => exact ih _
    · exact ih _

theorem deadline : InReach label reach coordinator.deadline := by
  rw [Coordinator.deadline]
  split
  · exact InReach.pure _
  · exact InReach.bind (InReach.tell trivial) fun _ => InReach.pure _

/-- A batch is given no reach at all: it reaches what it lists. -/
theorem deleteFromSecrets (requested : Dict Names) :
    InReach coordinator.keeper.label ∅ (coordinator.deleteFromSecrets requested) := by
  refine InReach.ite (InReach.pure _) (InReach.bind (InReach.locked ?_) ?_)
  · refine InReach.all_bind fun all => InReach.bind (InReach.issue all _ _) fun issued => ?_
    exact InReach.bind InReach.deadline fun _ => InReach.bind (InReach.tell trivial) fun _ =>
      InReach.pure _
  · rintro ⟨before, failures⟩
    refine InReach.bind (InReach.recordAll _) fun _ => ?_
    exact InReach.ite (InReach.fail _) (InReach.pure _)

/-! ### Common variables -/

theorem checkCommon (secured : Names) (name value : String) :
    InReach label reach (coordinator.checkCommon secured name value) := by
  have hcheck : InReach label reach (do
      Operation.ofOutcome (Variable.checkNotBlank .common name)
      Operation.ofOutcome (Variable.checkWellFormed name)
      let before ← Work.ofStore (coordinator.catalog.findVariable name)
      return (⟨name, value, before.isSome⟩ : Coordinator.Written)) :=
    InReach.bind (InReach.ofOutcome _) fun _ => InReach.bind (InReach.ofOutcome _) fun _ =>
      InReach.bind (InReach.ofStore _) fun _ => InReach.pure _
  exact InReach.ite (InReach.bind (InReach.fail _) fun _ => hcheck) hcheck

theorem checkCommons (secured : Names) (values : List (String × String)) :
    InReach label reach (coordinator.checkCommons secured values) := by
  induction values with
  | nil => exact InReach.pure []
  | cons entry more ih =>
    refine InReach.bind (InReach.checkCommon secured _ _) fun written => ?_
    exact InReach.bind ih fun _ => InReach.pure _

/-- The names in the default secret are read, if the name is well-formed. -/
theorem addCommon {name value : String}
    (h : Variable.isWellFormed name = true →
      coordinator.keeper.resolve coordinator.keeper.defaultName ∈ reach) :
    InReach label reach (coordinator.addCommon name value) := by
  rw [Coordinator.addCommon, Variable.checkWellFormed]
  split
  · rename_i hformed
    refine InReach.bind (InReach.ofOutcome _) fun _ => ?_
    refine InReach.bind (InReach.names false (h hformed)) fun secured => ?_
    refine InReach.bind (InReach.checkCommon secured _ _) fun written => ?_
    refine InReach.bind (InReach.ofStore _) fun _ => ?_
    exact InReach.bind (InReach.record _) fun _ => InReach.pure _
  · exact InReach.fail _

theorem addCommons {values : Dict String} (imported : Bool)
    (h : values.isEmpty = false →
      coordinator.keeper.resolve coordinator.keeper.defaultName ∈ reach) :
    InReach label reach (coordinator.addCommons values imported) := by
  rw [Coordinator.addCommons]
  split
  · exact InReach.pure _
  · rename_i hsome
    refine InReach.bind (InReach.names false (h (Bool.eq_false_iff.mpr hsome))) fun secured => ?_
    refine InReach.bind (InReach.checkCommons secured _) fun written => ?_
    exact InReach.bind (InReach.ofStore _) fun _ => InReach.records_then _ _

theorem deleteCommons (names : List String) :
    InReach label reach (coordinator.deleteCommons names) :=
  InReach.bind (InReach.ofStore _) fun _ => InReach.recordAll _

/-! ### Default variables -/

theorem restoreOnce (values : Dict String) (h : coordinator.keeper.defaultName ∈ reach) :
    InReach label reach (coordinator.restoreOnce values) := by
  have hresolve : coordinator.keeper.resolve coordinator.keeper.defaultName ∈ reach := by
    rw [Keeper.resolve_defaultName]
    exact h
  refine InReach.bind (InReach.create h) fun _ => ?_
  exact InReach.bind (InReach.deleteVariables false fun _ => hresolve) fun _ => InReach.ofStore _

/-- A program that is given up at a moment stays within its reach until then. -/
theorem within {program : Program effects α}
    (h : program.Obeys (Reach.discipline label) reach fun _ _ => True) (moment : Nat)
    (held : Bool) :
    (Work.within moment held program).Obeys (Reach.discipline label) reach fun _ _ => True := by
  induction program generalizing reach held with
  | done result => trivial
  | ask effect next ih =>
    rw [Runs.within_ask]
    refine ⟨h.1, fun answer => ?_⟩
    match answer with
    | some answer => exact ih answer (h.2 answer) _
    | none =>
      -- the program is given up, and the lock with it
      cases held with
      | true => exact ⟨trivial, fun _ => trivial⟩
      | false => trivial
  | overflow => trivial

/-- Retries reach nothing but what the attempts reach. -/
theorem loop {policy : BackoffPolicy} (h : InReach label reach work) (attempts delay : Nat)
    (last : Error) :
    (Retry.loop policy work.run attempts delay last).Obeys (Reach.discipline label) reach
      fun _ _ => True := by
  induction attempts generalizing delay last with
  | zero => trivial
  | succ more ih =>
    rw [Retry.loop]
    refine Reach.obeys_bind ⟨trivial, fun moment => Program.Obeys.bind (Program.Obeys.mono
      (InReach.within h _ _) fun _ _ _ => trivial)⟩ fun judged => ?_
    cases judged with
    | ok outcome => trivial
    | error error =>
      -- another attempt after a pause, if one is left
      change (if more = 0 then Program.done (.error error)
        else (Retry.pause delay).bind fun _ =>
          Retry.loop policy work.run more (Retry.nextDelay policy delay) error).Obeys _ _ _
      split
      · trivial
      · exact ⟨trivial, fun _ => ⟨trivial, fun _ => ih _ _⟩⟩

theorem restoreDefaults {values : Dict String}
    (h : 0 < coordinator.restorePolicy.attempts → coordinator.keeper.defaultName ∈ reach) :
    InReach label reach (coordinator.restoreDefaults values) := by
  rw [Coordinator.restoreDefaults, Retry.run]
  cases hattempts : coordinator.restorePolicy.attempts with
  | zero => trivial
  | succ more =>
    have hdefault := h (by rw [hattempts]; exact Nat.succ_pos more)
    exact InReach.loop (InReach.restoreOnce values hdefault) _ _ _

end InReach

/-! ## Deeds -/

/-- What a job can do with secrets: what the coordinator can be asked to do, or an operation of the
keeper by itself. -/
inductive Deed where
  /-- a duty of the coordinator -/
  | duty (duty : Duty)
  /-- what all secrets of the catalog hold -/
  | all
  /-- what a secret holds -/
  | data (secret : String) (strict : Bool)
  /-- creates a secret -/
  | create (secret : String)
  /-- adds to a secret -/
  | add (secret : String) (values : Data) (initial : Bool)
  /-- overwrites what a secret holds -/
  | update (secret : String) (values : Data)
  /-- removes from a secret -/
  | remove (secret : String) (keys : Names)
  /-- starts a removal from a secret, and waits for what comes of it -/
  | startRemoval (secret : String) (keys : Names)

/-- The names that the task is given, as far as it comes to call them. -/
def Task.reach (coordinator : Coordinator) : Task → Set String
  | .names secret _ => {coordinator.keeper.resolve secret}
  | .defaultNames _ => {coordinator.keeper.defaultName}
  | .add secret values _ =>
    {name | values.isEmpty = false ∧ name = coordinator.keeper.resolve secret}
  | .addDefaults values =>
    {name | values.isEmpty = false ∧ name = coordinator.keeper.defaultName}
  | .importVariables values =>
    {name | values.isEmpty = false ∧ name = coordinator.keeper.defaultName}
  | .update secret _ => {coordinator.keeper.resolve secret}
  | .updateDefault _ _ => {coordinator.keeper.defaultName}
  | .delete secret keys _ =>
    {name | keys.isEmpty = false ∧ name = coordinator.keeper.resolve secret}
  | .deleteDefaults keys =>
    {name | keys.isEmpty = false ∧ name = coordinator.keeper.defaultName}
  | .addCommon one _ =>
    {name | Variable.isWellFormed one = true ∧ name = coordinator.keeper.defaultName}
  | .addCommons values _ =>
    {name | values.isEmpty = false ∧ name = coordinator.keeper.defaultName}
  | .restore _ =>
    {name | 0 < coordinator.restorePolicy.attempts ∧ name = coordinator.keeper.defaultName}
  | .allNames | .deleteFromSecrets _ | .common | .deleteCommons _ => ∅

namespace Deed

/-- The program of the deed. -/
def program (coordinator : Coordinator) : Deed → Program effects Unit
  | .duty one => one.program coordinator
  | .all => Task.finish coordinator.keeper.all
  | .data secret strict => Task.finish (Keeper.data secret strict)
  | .create secret => Task.finish (coordinator.keeper.create secret)
  | .add secret values initial => Task.finish (Keeper.add secret values initial)
  | .update secret values => Task.finish (Keeper.update secret values)
  | .remove secret keys => Task.finish (Keeper.remove secret keys)
  | .startRemoval secret keys => Task.finish (do
      let pending ← Keeper.startRemoval secret keys
      pending.await)

/-- The names that the deed is given, as far as it comes to call them. A deed need not succeed for
that: to create a secret whose name is taken, or to add what is refused then, is to read the secret
by its name first. -/
def reach (coordinator : Coordinator) : Deed → Set String
  | .duty (.task one) => one.reach coordinator
  | .duty (.addUnlogged _) | .all => ∅
  | .data secret _ | .create secret | .add secret _ _ | .update secret _ | .remove secret _
  | .startRemoval secret _ => {secret}

end Deed

variable {coordinator : Coordinator}

theorem InReach.finish {label : Label} {reach : Set String} {α : Type} {work : Work α}
    (h : InReach label reach work) :
    (Task.finish work).Obeys (Reach.discipline label) reach fun _ _ => True :=
  Program.Obeys.bind h

/-- A task stays within its reach. -/
theorem Task.inReach (task : Task) :
    (task.program coordinator).Obeys (Reach.discipline coordinator.keeper.label)
      (task.reach coordinator) fun _ _ => True := by
  have hdefault := coordinator.keeper.resolve_defaultName
  cases task with
  | allNames => exact InReach.finish (InReach.locked (InReach.all_bind fun _ => InReach.pure _))
  | names secret strict => exact InReach.finish (InReach.names strict rfl)
  | defaultNames strict => exact InReach.finish (InReach.names strict hdefault)
  | add secret values imported =>
    exact InReach.finish (InReach.addVariables imported fun hsome => ⟨hsome, rfl⟩)
  | addDefaults values =>
    exact InReach.finish (InReach.addVariables false fun hsome => ⟨hsome, hdefault⟩)
  | importVariables values =>
    exact InReach.finish (InReach.addVariables true fun hsome => ⟨hsome, hdefault⟩)
  | update secret values => exact InReach.finish (InReach.updateVariables values rfl)
  | updateDefault name value =>
    exact InReach.finish (InReach.bind (InReach.updateVariables _ hdefault) fun _ =>
      InReach.pure name)
  | delete secret names logged =>
    exact InReach.finish (InReach.deleteVariables logged fun hsome => ⟨hsome, rfl⟩)
  | deleteDefaults names =>
    exact InReach.finish (InReach.deleteVariables true fun hsome => ⟨hsome, hdefault⟩)
  | deleteFromSecrets requested => exact InReach.finish (InReach.deleteFromSecrets requested)
  | common => exact InReach.finish (InReach.ofStore _)
  | addCommon name value =>
    exact InReach.finish (InReach.addCommon fun hformed => ⟨hformed, hdefault⟩)
  | addCommons values imported =>
    exact InReach.finish (InReach.addCommons imported fun hsome => ⟨hsome, hdefault⟩)
  | deleteCommons names => exact InReach.finish (InReach.deleteCommons names)
  | restore values =>
    exact InReach.finish (InReach.restoreDefaults fun hattempts => ⟨hattempts, rfl⟩)

/-- A deed stays within its reach. -/
theorem Deed.inReach (deed : Deed) :
    (deed.program coordinator).Obeys (Reach.discipline coordinator.keeper.label)
      (deed.reach coordinator) fun _ _ => True := by
  cases deed with
  | duty one =>
    cases one with
    | task one => exact one.inReach
    | addUnlogged values => exact InReach.finish (InReach.ofStore _)
  | all => exact InReach.finish (InReach.call rfl)
  | data secret strict => exact InReach.finish (InReach.data strict rfl)
  | create secret => exact InReach.finish (InReach.create rfl)
  | add secret values initial => exact InReach.finish (InReach.call rfl)
  | update secret values => exact InReach.finish (InReach.call rfl)
  | remove secret keys => exact InReach.finish (InReach.call rfl)
  | startRemoval secret keys =>
    exact InReach.finish (InReach.bind (InReach.startRemoval keys rfl) fun _ =>
      InReach.call trivial)

end EngineCatalog
