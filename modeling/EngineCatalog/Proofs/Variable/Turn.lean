import EngineCatalog.Proofs.Concurrency.Trace
import EngineCatalog.Proofs.Program.Discipline
import EngineCatalog.Proofs.Variable.Task
import EngineCatalog.Variable.Coordinator

/-!
# Taking turns

Whoever changes a secret is to hold the lock, and no removal that was started is to be pending when
the lock is released. `Turn` is what a job knows of its turn: whether it holds the lock, and which of
the removals that it started may still be pending.

All operations but one are in turn whatever they are answered. The one is `deleteFromSecrets`: if
there is a bound, it gives up waiting for its removals and releases the lock nevertheless.

* `Turn.Allows`, `Turn.next` — what a job may ask for, and what it knows after an answer.
* `InTurn` — an operation does as it may, and its turn is the same afterwards.
-/

namespace EngineCatalog

open Secret (Data)

/-! ## Turns -/

/-- What a job knows of its turn. -/
structure Turn where
  /-- it holds the lock -/
  held : Bool
  /-- the removals that it started, as far as they may be pending -/
  pending : List Nat

namespace Turn

/-- A job has no turn. -/
def idle : Turn := ⟨false, []⟩

/-- The turn of a job has begun. -/
def begun : Turn := ⟨true, []⟩

/-- What a job may ask for. Only a program that `starts` removals may do that, and only one that is
`timed` may give up waiting at a moment. -/
def Allows (starts timed : Bool) (turn : Turn) : Effect → Prop
  | .secrets call => call.changes = true → turn.held = true
  | .startRemoval _ _ => starts = true ∧ turn.held = true
  | .lock => turn.held = false
  | .unlock => turn.held = true ∧ turn.pending = []
  | .until _ effect => timed = true ∧ Allows false false turn effect
  | _ => True

/-- What a job knows of its turn after an answer. The removal of no keys changes nothing. -/
def next (turn : Turn) : (effect : Effect) → effect.Answer → Turn
  | .startRemoval _ keys, .ok ticket =>
    if keys.isEmpty then turn else { turn with pending := turn.pending ++ [ticket] }
  | .awaitRemovals tickets none, _ =>
    { turn with pending := turn.pending.filter fun ticket => ticket ∉ tickets }
  | .lock, _ => { turn with held := true }
  | .unlock, _ => { turn with held := false }
  | .until _ effect, answer =>
    match (answer : Option effect.Answer) with
    | some answer => next turn effect answer
    | none => turn
  | _, _ => turn

/-- The discipline of taking turns. -/
def discipline (starts timed : Bool) : Discipline effects Turn :=
  ⟨Allows starts timed, next⟩

variable {starts timed : Bool} {turn : Turn} {effect : Effect}

theorem Allows.relax (h : turn.Allows starts timed effect) : turn.Allows true true effect := by
  cases effect with
  | startRemoval name keys => exact ⟨rfl, h.2⟩
  | «until» moment effect => exact ⟨rfl, h.2⟩
  | _ => exact h

theorem Allows.starts_eq_false (h : turn.Allows false false effect) : effect.starts = false := by
  cases effect with
  | startRemoval name keys => cases h.1
  | «until» moment effect => cases h.1
  | _ => rfl

/-- A program that starts no removals knows as much of its turn as the effects tell. -/
theorem next_of_allows (h : turn.Allows false false effect) (answer : effect.Answer)
    (hpending : turn.pending = []) :
    turn.next effect answer = ⟨effect.holdsAfter turn.held, []⟩ := by
  obtain ⟨held, pending⟩ := turn
  obtain rfl : pending = [] := hpending
  cases effect with
  | startRemoval name keys => cases h.1
  | «until» moment effect => cases h.1
  | awaitRemovals tickets moment => cases moment <;> rfl
  | _ => rfl

/-- A program that is given up at a moment releases the lock. -/
theorem within {α : Type} {program : Program effects α} {moment : Nat}
    (h : program.Obeys (discipline false false) turn fun _ later => later = idle)
    (hpending : turn.pending = []) :
    (Work.within moment turn.held program).Obeys (discipline starts true) turn
      fun _ later => later = idle := by
  induction program generalizing turn with
  | done result => exact h
  | ask effect next ih =>
    rw [Runs.within_ask]
    refine ⟨⟨rfl, h.1⟩, fun answer => ?_⟩
    match answer with
    | some answer =>
      have hnext := next_of_allows h.1 answer hpending
      have hrest := h.2 answer
      have hlater : (turn.next effect answer).held = Effect.holdsAfter turn.held effect :=
        congrArg held hnext
      have hnone : (turn.next effect answer).pending = [] := congrArg pending hnext
      have hwithin : (Work.within moment (turn.next effect answer).held (next answer)).Obeys
          (discipline starts true) (turn.next effect answer) fun _ later => later = idle :=
        ih answer hrest hnone
      rw [hlater] at hwithin
      exact hwithin
    | none =>
      -- the program is given up, and the lock with it
      obtain ⟨held, pending⟩ := turn
      obtain rfl : pending = [] := hpending
      cases held with
      | true => exact ⟨⟨rfl, rfl⟩, fun _ => rfl⟩
      | false => exact rfl
  | overflow => trivial

end Turn

/-! ## Operations -/

/-- The operation asks for nothing but what the turn allows, and the turn is the same afterwards,
whatever the operation comes to. -/
def InTurn (starts : Bool) (turn : Turn) {α : Type} (work : Work α) : Prop :=
  work.run.Obeys (Turn.discipline starts false) turn fun _ later => later = turn

namespace InTurn

variable {starts : Bool} {turn : Turn} {α β : Type} {work : Work α}

theorem pure (result : α) : InTurn starts turn (Pure.pure result) := rfl

theorem fail (error : Error) : InTurn starts turn (.fail error : Work α) := rfl

theorem ofOutcome (outcome : Outcome α) : InTurn starts turn (.ofOutcome outcome) := rfl

theorem bind {f : α → Work β} (h : InTurn starts turn work)
    (hf : ∀ result, InTurn starts turn (f result)) : InTurn starts turn (work >>= f) := by
  refine Program.Obeys.bind (Program.Obeys.mono h ?_)
  rintro outcome later rfl
  cases outcome with
  | ok result => exact hf result
  | error error => rfl

theorem ite {condition : Prop} [Decidable condition] {other : Work α}
    (h : InTurn starts turn work) (hother : InTurn starts turn other) :
    InTurn starts turn (if condition then work else other) := by
  split
  · exact h
  · exact hother

theorem call {effect : Effect} {outcome : effect.Answer → Outcome α}
    (hallows : turn.Allows starts false effect)
    (hnext : ∀ answer, turn.next effect answer = turn) :
    InTurn starts turn (.call (σ := effects) effect outcome) :=
  ⟨hallows, hnext⟩

theorem tell {effect : Effect} {value : effect.Answer → α}
    (hallows : turn.Allows starts false effect)
    (hnext : ∀ answer, turn.next effect answer = turn) :
    InTurn starts turn (.tell (σ := effects) effect value) :=
  ⟨hallows, hnext⟩

/-- The key-value store may be called at any time. -/
theorem ofStore (operation : Operation KeyValue.keyValue α) :
    InTurn starts turn (Work.ofStore operation) :=
  Program.Obeys.ofStore operation (fun _ => trivial) (fun _ _ => rfl) fun _ => rfl

theorem read (name : String) {outcome : Outcome (Option Data) → Outcome α} :
    InTurn starts turn (Work.secrets (.read name) outcome) :=
  InTurn.call nofun fun _ => rfl

theorem all (keeper : Keeper) : InTurn starts turn keeper.all :=
  InTurn.call nofun fun _ => rfl

/-- Secrets are changed by one who holds the lock. -/
theorem change (hheld : turn.held = true) (call : Secret.Call)
    (outcome : call.Answer → Outcome α) : InTurn starts turn (Work.secrets call outcome) :=
  InTurn.call (fun _ => hheld) fun _ => rfl

theorem record (record : Audit.Record) : InTurn starts turn (Work.record record) :=
  InTurn.tell trivial fun _ => rfl

theorem recordAll (records : List Audit.Record) :
    InTurn starts turn (Coordinator.recordAll records) := by
  induction records with
  | nil => exact InTurn.pure ()
  | cons one more ih => exact InTurn.bind (InTurn.record one) fun _ => ih

theorem records_then (records : List Audit.Record) (result : α) :
    InTurn starts turn (do Coordinator.recordAll records; Pure.pure result) :=
  InTurn.bind (InTurn.recordAll records) fun _ => InTurn.pure result

theorem data (secret : String) (strict : Bool) :
    InTurn starts turn (Keeper.data secret strict) := by
  refine InTurn.bind (InTurn.read secret) fun found => ?_
  cases found with
  | some data => exact InTurn.pure data
  | none => exact InTurn.ite (InTurn.fail _) (InTurn.pure _)

/-- The lock is taken for a turn, and given back at its end. -/
theorem locked (h : InTurn starts .begun work) : InTurn starts .idle (Work.locked work) := by
  refine ⟨rfl, fun _ => Program.Obeys.bind (Program.Obeys.mono h ?_)⟩
  rintro outcome later rfl
  exact ⟨⟨rfl, rfl⟩, fun _ => rfl⟩

/-! ### Secured variables -/

variable {coordinator : Coordinator}

theorem allNames : InTurn starts .idle coordinator.allNames :=
  InTurn.locked (InTurn.bind (InTurn.all _) fun _ => InTurn.pure _)

theorem names (secret : String) (strict : Bool) :
    InTurn starts .idle (coordinator.names secret strict) :=
  InTurn.locked (InTurn.bind (InTurn.data _ strict) fun _ => InTurn.pure _)

theorem checkCollision (current : Data) (added : Dict String) :
    InTurn starts turn (coordinator.checkCollision current added) := by
  refine InTurn.bind (InTurn.ofStore _) fun common => ?_
  cases Coordinator.collision? common current added with
  | some name => exact InTurn.fail _
  | none => exact InTurn.pure ()

theorem addVariables (secret : String) (values : Dict String) (imported : Bool) :
    InTurn starts .idle (coordinator.addVariables secret values imported) := by
  refine InTurn.ite (InTurn.pure _) (InTurn.bind (InTurn.locked ?_) fun before => ?_)
  · refine InTurn.bind (InTurn.data _ true) fun current => ?_
    have hadd : InTurn starts .begun (do
        Operation.ofOutcome
          (Coordinator.checkEach (Variable.checkNotBlank .secured) values.keys)
        let _ ← Keeper.add (coordinator.keeper.resolve secret) values current.isEmpty
        return current) :=
      InTurn.bind (InTurn.ofOutcome _) fun _ =>
        InTurn.bind (InTurn.change rfl _ id) fun _ => InTurn.pure current
    exact InTurn.ite (InTurn.bind (InTurn.checkCollision current values) fun _ => hadd) hadd
  · exact InTurn.records_then _ _

theorem updateVariables (secret : String) (values : Dict (Option String)) :
    InTurn starts .idle (coordinator.updateVariables secret values) := by
  refine InTurn.bind (InTurn.locked ?_) fun _ => InTurn.records_then _ _
  refine InTurn.bind (InTurn.data _ true) fun current => ?_
  refine InTurn.bind (InTurn.ofOutcome _) fun _ => ?_
  exact InTurn.bind (InTurn.change rfl _ id) fun _ => InTurn.pure ()

theorem updateDefault (name : String) (value : Option String) :
    InTurn starts .idle (coordinator.updateDefault name value) :=
  InTurn.bind (InTurn.updateVariables _ _) fun _ => InTurn.pure name

theorem deleteVariables (secret : String) (names : Names) (logged : Bool) :
    InTurn starts .idle (coordinator.deleteVariables secret names logged) := by
  refine InTurn.ite (InTurn.pure _) (InTurn.bind (InTurn.locked ?_) fun before => ?_)
  · refine InTurn.bind (InTurn.data _ true) fun current => ?_
    exact InTurn.bind (InTurn.change rfl _ id) fun _ => InTurn.pure current
  · exact InTurn.ite (InTurn.recordAll _) (InTurn.pure _)

/-! ### Common variables -/

theorem checkCommon (secured : Names) (name value : String) :
    InTurn starts turn (coordinator.checkCommon secured name value) := by
  have hcheck : InTurn starts turn (do
      Operation.ofOutcome (Variable.checkNotBlank .common name)
      Operation.ofOutcome (Variable.checkWellFormed name)
      let before ← Work.ofStore (coordinator.catalog.findVariable name)
      return (⟨name, value, before.isSome⟩ : Coordinator.Written)) :=
    InTurn.bind (InTurn.ofOutcome _) fun _ => InTurn.bind (InTurn.ofOutcome _) fun _ =>
      InTurn.bind (InTurn.ofStore _) fun _ => InTurn.pure _
  exact InTurn.ite (InTurn.bind (InTurn.fail _) fun _ => hcheck) hcheck

theorem checkCommons (secured : Names) (values : List (String × String)) :
    InTurn starts turn (coordinator.checkCommons secured values) := by
  induction values with
  | nil => exact InTurn.pure []
  | cons entry more ih =>
    refine InTurn.bind (InTurn.checkCommon secured _ _) fun written => ?_
    exact InTurn.bind ih fun _ => InTurn.pure _

theorem addCommon (name value : String) :
    InTurn starts .idle (coordinator.addCommon name value) := by
  refine InTurn.bind (InTurn.ofOutcome _) fun _ => ?_
  refine InTurn.bind (InTurn.names _ false) fun secured => ?_
  refine InTurn.bind (InTurn.checkCommon secured _ _) fun written => ?_
  refine InTurn.bind (InTurn.ofStore _) fun _ => ?_
  exact InTurn.bind (InTurn.record _) fun _ => InTurn.pure _

theorem addCommons (values : Dict String) (imported : Bool) :
    InTurn starts .idle (coordinator.addCommons values imported) := by
  refine InTurn.ite (InTurn.pure _) ?_
  refine InTurn.bind (InTurn.names _ false) fun secured => ?_
  refine InTurn.bind (InTurn.checkCommons secured _) fun written => ?_
  exact InTurn.bind (InTurn.ofStore _) fun _ => InTurn.records_then _ _

theorem deleteCommons (names : List String) :
    InTurn starts turn (coordinator.deleteCommons names) :=
  InTurn.bind (InTurn.ofStore _) fun _ => InTurn.recordAll _

/-! ### Default variables -/

/-- A secret that is created did not exist: nobody's entries are changed by that. -/
theorem create (keeper : Keeper) (secret : String) :
    InTurn starts turn (keeper.create secret) := by
  refine InTurn.bind (InTurn.read secret) fun found => ?_
  cases found with
  | some data => exact InTurn.pure false
  | none =>
    refine InTurn.bind (InTurn.call nofun fun _ => rfl) fun _ => ?_
    exact InTurn.bind (InTurn.record _) fun _ => InTurn.pure true

theorem restoreOnce (values : Dict String) :
    InTurn starts .idle (coordinator.restoreOnce values) := by
  refine InTurn.bind (InTurn.create _ _) fun _ => ?_
  exact InTurn.bind (InTurn.deleteVariables _ _ false) fun _ => InTurn.ofStore _

/-- Retries ask for nothing but what the attempts ask for. -/
theorem loop {policy : BackoffPolicy} (h : InTurn false .idle work) (attempts delay : Nat)
    (last : Error) :
    (Retry.loop policy work.run attempts delay last).Obeys (Turn.discipline starts true) .idle
      fun _ later => later = .idle := by
  induction attempts generalizing delay last with
  | zero => exact rfl
  | succ more ih =>
    rw [Retry.loop]
    refine Program.Obeys.bind ⟨trivial, fun moment => Program.Obeys.bind
      (Program.Obeys.mono (Turn.within h rfl) ?_)⟩
    rintro outcome later rfl
    cases Retry.judge policy outcome with
    | ok outcome => exact rfl
    | error error =>
      -- another attempt after a pause, if one is left
      change (if more = 0 then Program.done (.error error)
        else (Retry.pause delay).bind fun _ =>
          Retry.loop policy work.run more (Retry.nextDelay policy delay) error).Obeys _ _ _
      split
      · exact rfl
      · exact ⟨trivial, fun _ => ⟨trivial, fun _ => ih _ _⟩⟩

end InTurn

end EngineCatalog
