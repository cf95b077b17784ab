import EngineCatalog.Proofs.Variable.Turn
import EngineCatalog.Proofs.Variable.Writes

/-!
# Removals that outlive their turn

`Coordinator.deleteFromSecrets` starts its removals with the lock held and waits for them, but if
there is a bound, no longer than that: then it can return while all of them are still pending
(`Does.deleteFromSecrets`). Without a bound, or without any name to delete, it takes turns, as all
other tasks do (`Task.takesTurns`).

* `Coordinator.contains_targets` — what is deleted from which secret.
* `Task.LeavesRemovals` — a task that may leave removals behind.
-/

namespace EngineCatalog

open Secret (Data)

variable {coordinator : Coordinator}

/-! ## What is deleted -/

/-- From a secret are deleted the names that are to be deleted from it under any of its names. -/
theorem Coordinator.contains_targets {keeper : Keeper} {requested : Dict Names}
    {secret name : String} :
    (((targets keeper requested).find? secret).getD Dict.empty).contains name = true
      ↔ ∃ request ∈ requested.entries, keeper.resolve request.1 = secret ∧
        request.2.contains name = true := by
  have hfold : ∀ (requests : List (String × Names)) (found : Dict Names),
      (((requests.foldl (fun found request =>
        found.insert (keeper.resolve request.1)
          (((found.find? (keeper.resolve request.1)).getD Dict.empty).union request.2))
        found).find? secret).getD Dict.empty).contains name = true
      ↔ ((found.find? secret).getD Dict.empty).contains name = true ∨
        ∃ request ∈ requests, keeper.resolve request.1 = secret ∧
          request.2.contains name = true := by
    intro requests
    induction requests with
    | nil => simp
    | cons request more ih =>
      intro found
      rw [List.foldl_cons, ih, Dict.find?_insert, List.exists_mem_cons_iff, ← or_assoc]
      refine or_congr_left ?_
      by_cases hsecret : keeper.resolve request.1 = secret
      · rw [if_pos hsecret, Option.getD_some, Dict.contains_union, hsecret]
        simp only [true_and]
        exact or_comm
      · rw [if_neg hsecret]
        simp only [hsecret, false_and, or_false]
  refine (hfold requested.entries Dict.empty).trans ?_
  rw [Dict.find?_empty, Option.getD_none, Dict.contains_empty]
  simp only [Bool.false_eq_true, false_or]

/-- Nothing is deleted where no name is requested. -/
theorem Coordinator.isEmpty_of_mem_targets {keeper : Keeper} {requested : Dict Names}
    (h : ∀ request ∈ requested.entries, ∀ name, request.2.contains name = false) :
    ∀ target ∈ (targets keeper requested).entries, target.2.isEmpty = true := by
  rintro ⟨secret, names⟩ htarget
  rw [Dict.isEmpty_iff]
  intro name
  rw [← Bool.not_eq_true]
  intro hname
  have hfind : (targets keeper requested).find? secret = some names :=
    Dict.mem_entries_iff.mp htarget
  have hcontains : (((targets keeper requested).find? secret).getD Dict.empty).contains name
      = true := by
    rw [hfind]
    exact hname
  obtain ⟨request, hrequest, -, hrequested⟩ := contains_targets.mp hcontains
  rw [h request hrequest name] at hrequested
  cases hrequested

/-- The task may leave removals behind: it does not wait for them without a bound, and there is a
name to be deleted. -/
def Task.LeavesRemovals (coordinator : Coordinator) : Task → Prop
  | .deleteFromSecrets requested => coordinator.batchTimeout.isSome = true ∧
    ∃ request ∈ requested.entries, ∃ name, request.2.contains name = true
  | _ => False

/-! ## Removals within their turn -/

/-- How things stand when removals were started with some of them pending before: the lock is held,
all that is pending was issued, and if there was nothing to remove, no more is pending than before. -/
def Turn.HasIssued (pending : List Nat) (targets : List (String × Names))
    (outcome : Outcome Coordinator.Issued) (later : Turn) : Prop :=
  later.held = true ∧ ∃ issued : Coordinator.Issued, outcome = .ok issued ∧
    (∀ ticket ∈ later.pending, ticket ∈ issued.pending.map Keeper.Pending.ticket) ∧
    ((∀ target ∈ targets, target.2.isEmpty = true) → later.pending = pending)

theorem Turn.issue (all : Dict Data) (issued : Coordinator.Issued)
    (targets : List (String × Names)) (pending : List Nat)
    (hissued : ∀ ticket ∈ pending, ticket ∈ issued.pending.map Keeper.Pending.ticket) :
    (Coordinator.issue all issued targets).run.Obeys (discipline true false) ⟨true, pending⟩
      (HasIssued pending targets) := by
  induction targets generalizing issued pending with
  | nil => exact ⟨rfl, issued, rfl, hissued, fun _ => rfl⟩
  | cons target more ih =>
    obtain ⟨secret, names⟩ := target
    -- the other targets are dealt with after the first one
    have hmore : ∀ (issued : Coordinator.Issued) (after : List Nat),
        (∀ ticket ∈ after, ticket ∈ issued.pending.map Keeper.Pending.ticket) →
        (names.isEmpty = true → after = pending) →
        (Coordinator.issue all issued more).run.Obeys (discipline true false) ⟨true, after⟩
          (HasIssued pending ((secret, names) :: more)) := by
      intro issued after hafter hnone
      refine Program.Obeys.mono (ih issued after hafter) ?_
      rintro outcome later ⟨hheld, final, rfl, hfinal, hsame⟩
      refine ⟨hheld, final, rfl, hfinal, fun hempty => ?_⟩
      rw [hsame fun target htarget => hempty target (List.mem_cons_of_mem _ htarget)]
      exact hnone (hempty _ List.mem_cons_self)
    have hkept : ∀ (one : List Keeper.Pending), ∀ ticket ∈ pending,
        ticket ∈ (issued.pending ++ one).map Keeper.Pending.ticket := by
      intro one ticket hticket
      rw [List.map_append]
      exact List.mem_append_left _ (hissued ticket hticket)
    rw [Coordinator.issue]
    split
    · refine ⟨⟨rfl, rfl⟩, fun answer => ?_⟩
      cases answer with
      | error error => exact hmore _ pending hissued fun _ => rfl
      | ok ticket =>
        change (Coordinator.issue all _ more).run.Obeys (discipline true false)
          (if names.isEmpty then ⟨true, pending⟩ else ⟨true, pending ++ [ticket]⟩) _
        split
        · exact hmore _ pending (hkept [⟨secret, ticket⟩]) fun _ => rfl
        · rename_i hnames
          refine hmore _ _ (fun other hother => ?_) fun hempty => absurd hempty hnames
          rcases List.mem_append.mp hother with hother | hother
          · exact hkept [⟨secret, ticket⟩] other hother
          · rw [List.map_append]
            exact List.mem_append_right _ hother
    · exact hmore _ pending hissued fun _ => rfl

/-- Several secrets are dealt with in one turn, unless removals are left behind. -/
theorem InTurn.deleteFromSecrets {requested : Dict Names}
    (h : ¬ (Task.deleteFromSecrets requested).LeavesRemovals coordinator) :
    InTurn true .idle (coordinator.deleteFromSecrets requested) := by
  refine InTurn.ite (InTurn.pure _) (InTurn.bind (InTurn.locked ?_) ?_)
  · refine InTurn.bind (InTurn.all _) fun all => ?_
    refine Program.Obeys.bind (Program.Obeys.mono (Turn.issue all _ _ [] nofun) ?_)
    rintro outcome ⟨held, pending⟩ ⟨hheld, issued, rfl, hissued, hnone⟩
    obtain rfl : held = true := hheld
    refine Program.Obeys.bind ?_
    rw [Coordinator.deadline]
    cases hbound : coordinator.batchTimeout with
    | none =>
      have hrest : pending.filter (fun ticket =>
          ticket ∉ issued.pending.map Keeper.Pending.ticket) = [] := by
        rw [List.filter_eq_nil_iff]
        intro ticket hticket
        simpa using hissued ticket hticket
      refine ⟨trivial, fun _ => ?_⟩
      exact congrArg (Turn.mk true) hrest
    | some after =>
      have hempty : ∀ request ∈ requested.entries, ∀ name, request.2.contains name = false := by
        intro request hrequest name
        rw [← Bool.not_eq_true]
        intro hname
        exact h ⟨by rw [hbound]; rfl, request, hrequest, name, hname⟩
      obtain rfl : pending = [] := hnone (Coordinator.isEmpty_of_mem_targets hempty)
      exact ⟨trivial, fun _ => ⟨trivial, fun _ => rfl⟩⟩
  · rintro ⟨before, failures⟩
    refine InTurn.bind (InTurn.recordAll _) fun _ => ?_
    exact InTurn.ite (InTurn.fail _) (InTurn.pure _)

namespace Task

theorem takesTurns_finish {α : Type} {work : Work α} (h : InTurn true .idle work) :
    (finish work).Obeys (Turn.discipline true true) .idle fun _ later => later = .idle := by
  have hall : work.run.Obeys (Turn.discipline true true) .idle fun _ later => later = .idle :=
    Program.Obeys.relax h (fun _ _ hallows => Turn.Allows.relax hallows) rfl
  exact Program.Obeys.bind hall

/-- A task that leaves no removals behind takes turns. -/
theorem takesTurns {task : Task} (h : ¬ task.LeavesRemovals coordinator) :
    (task.program coordinator).Obeys (Turn.discipline true true) .idle
      fun _ later => later = .idle := by
  cases task with
  | allNames => exact takesTurns_finish InTurn.allNames
  | names secret strict => exact takesTurns_finish (InTurn.names secret strict)
  | defaultNames strict => exact takesTurns_finish (InTurn.names _ strict)
  | add secret values imported => exact takesTurns_finish (InTurn.addVariables _ _ _)
  | addDefaults values => exact takesTurns_finish (InTurn.addVariables _ _ _)
  | importVariables values => exact takesTurns_finish (InTurn.addVariables _ _ _)
  | update secret values => exact takesTurns_finish (InTurn.updateVariables _ _)
  | updateDefault name value => exact takesTurns_finish (InTurn.updateDefault _ _)
  | delete secret names logged => exact takesTurns_finish (InTurn.deleteVariables _ _ _)
  | deleteDefaults names => exact takesTurns_finish (InTurn.deleteVariables _ _ _)
  | deleteFromSecrets requested => exact takesTurns_finish (InTurn.deleteFromSecrets h)
  | common => exact takesTurns_finish (InTurn.ofStore _)
  | addCommon name value => exact takesTurns_finish (InTurn.addCommon _ _)
  | addCommons values imported => exact takesTurns_finish (InTurn.addCommons _ _)
  | deleteCommons names => exact takesTurns_finish (InTurn.deleteCommons _)
  | restore values => exact Program.Obeys.bind (InTurn.loop (InTurn.restoreOnce values) _ _ _)

end Task

/-! ## Removals left behind -/

namespace Does

variable {faulty : Bool} {job : Nat} {s : Shared}

/-- Removals from secrets that exist can all be started, and nothing comes of them meanwhile. -/
theorem issue (all : Dict Data) (issued : Coordinator.Issued) (targets : List (String × Names)) :
    ∃ (final : Coordinator.Issued) (removals : List Started),
      Does faulty job s (Coordinator.issue all issued targets) final
        { s with started := s.started ++ removals } ∧
      ∀ target ∈ targets, all.contains target.1 = true →
        (⟨target.1, target.2, none⟩ : Started) ∈ removals := by
  induction targets generalizing issued s with
  | nil =>
    refine ⟨issued, [], ?_, nofun⟩
    rw [List.append_nil]
    exact Does.pure issued s
  | cons target more ih =>
    obtain ⟨secret, names⟩ := target
    rw [Coordinator.issue]
    split
    · let removal : Started := ⟨secret, names, none⟩
      let after : Shared := { s with started := s.started ++ [removal] }
      have hstart : Does faulty job s (Keeper.startRemoval secret names).attempt
          (.ok ⟨secret, s.started.length⟩) after :=
        .step (.startRemoval secret names) (.ok s.started.length) (.inl ⟨rfl, rfl⟩) (.refl _ _)
      obtain ⟨final, removals, hmore, hremovals⟩ := @ih after
        { issued with pending := issued.pending ++ [⟨secret, s.started.length⟩] }
      have hlist : after.started ++ removals = s.started ++ removal :: removals :=
        List.append_assoc _ _ _
      rw [hlist] at hmore
      refine ⟨final, removal :: removals, hstart.bind hmore, ?_⟩
      intro other hother hexists
      rcases List.mem_cons.mp hother with rfl | hother
      · exact List.mem_cons_self
      · exact List.mem_cons_of_mem _ (hremovals other hother hexists)
    · rename_i hmissing
      let message := Error.message (.secretNotFound secret)
      obtain ⟨final, removals, hmore, hremovals⟩ := @ih s
        { issued with failures := issued.failures.insert secret message }
      refine ⟨final, removals, hmore, ?_⟩
      intro other hother hexists
      rcases List.mem_cons.mp hother with rfl | hother
      · exact absurd hexists hmissing
      · exact hremovals other hother hexists

end Does

/-- **With a bound, all removals of a batch can outlive it.** They are started with the lock held,
and the bound is reached before anything comes of them; then the lock is released, and the batch
returns. -/
theorem Coordinator.deleteFromSecrets_runs {faulty : Bool} {job : Nat} {s : Shared} {after : Span}
    (hbound : coordinator.batchTimeout = some after) (hfree : s.holder = none)
    {requested : Dict Names} (hrequested : ¬ requested.isEmpty = true) :
    ∃ (outcome : Outcome (List SecretFailure)) (removals : List Started)
      (records : List Audit.Record),
      Runs faulty job (coordinator.deleteFromSecrets requested).run s (.done outcome)
        { s with started := s.started ++ removals, records := s.records ++ records } ∧
      ∀ target ∈ (targets coordinator.keeper requested).entries,
        (s.vault.list coordinator.keeper.label).contains target.1 = true →
        (⟨target.1, target.2, none⟩ : Started) ∈ removals := by
  let held : Shared := { s with holder := some job }
  let all : Dict Data := s.vault.list coordinator.keeper.label
  have hall : Does faulty job held coordinator.keeper.all all held :=
    Does.call (.ok all) (.inl ⟨rfl, rfl⟩) rfl
  obtain ⟨issued, removals, hissue, hremovals⟩ :
      ∃ (final : Issued) (removals : List Started),
        Does faulty job held (issue all ⟨[], Dict.empty⟩
          (targets coordinator.keeper requested).entries) final
          { held with started := s.started ++ removals } ∧
        ∀ target ∈ (targets coordinator.keeper requested).entries,
          all.contains target.1 = true → (⟨target.1, target.2, none⟩ : Started) ∈ removals :=
    Does.issue all _ _
  let late : Shared := { held with started := s.started ++ removals }
  have hdeadline : Does faulty job late coordinator.deadline (some (0 + after.millis, after))
      late := by
    rw [deadline, hbound]
    exact .step .now (0 : Nat) rfl (.refl _ _)
  let outcomes := List.zipWith (fun one removal => (one, one.outcome after removal)) issued.pending
    (late.removalsOf (issued.pending.map Keeper.Pending.ticket))
  have hawait : Does faulty job late
      (Keeper.awaitAll issued.pending (some (0 + after.millis, after))) outcomes late :=
    .step (.awaitRemovals _ _) (late.removalsOf _) ⟨rfl, rfl, .inl rfl⟩ (.refl _ _)
  let failures := addFailures issued.failures outcomes
  let errors := failures.entries.map fun entry => SecretFailure.mk entry.1 entry.2
  -- what is returned does not matter, but that something is
  obtain ⟨outcome, houtcome⟩ : ∃ outcome, ExceptT.run (m := Program effects)
      (if errors.length = (targets coordinator.keeper requested).size then
        Operation.fail (.allSecretsFailed errors)
      else Pure.pure errors) = .done outcome := by
    split
    · exact ⟨_, rfl⟩
    · exact ⟨_, rfl⟩
  rw [deleteFromSecrets, if_neg hrequested]
  refine ⟨outcome, removals, allDeletions all failures (targets coordinator.keeper requested), ?_,
    hremovals⟩
  refine Does.runs_bind (Does.locked hfree (hall.bind (hissue.bind (hdeadline.bind
    (hawait.bind (Does.pure _ late)))))) (Does.runs_bind (Does.recordAll _ _) ?_)
  rw [houtcome, hfree]
  exact .refl _ _

end EngineCatalog
