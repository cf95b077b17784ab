import EngineCatalog.Proofs.Variable.Removals
import EngineCatalog.Proofs.Variable.Stays

/-!
# Secrets change under the lock

Whatever the coordinator is asked to do side by side, a secret that exists is changed by nobody but
the one who holds the lock, if and only if no batch of deletions can leave removals behind
(`Coordinator.changes_locked_iff`). If one can, its removals can come about after it has returned,
and undo what was added since (`Coordinator.added_lost_to_removal`).

* `Duty` — what a job is asked to do.
* `Coordinator.assigned` — jobs with their duties, over what they share.
* `Coordinator.LeftBehind` — a job is done, but a removal that it started is pending.
-/

namespace EngineCatalog

open KeyValue (Store)
open Secret (Data Removal Vault)

/-! ## Duties -/

/-- What a job is asked to do. -/
inductive Duty where
  /-- a task -/
  | task (task : Task)
  /-- the writing of common variables without checks -/
  | addUnlogged (values : Dict String)

namespace Duty

/-- The program of the duty. -/
def program (coordinator : Coordinator) : Duty → Program effects Unit
  | .task one => one.program coordinator
  | .addUnlogged values => Task.finish (coordinator.addUnlogged values)

/-- The duty may leave removals behind. -/
def LeavesRemovals (coordinator : Coordinator) : Duty → Prop
  | .task one => one.LeavesRemovals coordinator
  | .addUnlogged _ => False

theorem takesTurns {coordinator : Coordinator} {duty : Duty}
    (h : ¬ duty.LeavesRemovals coordinator) :
    (duty.program coordinator).Obeys (Turn.discipline true true) .idle
      fun _ later => later = .idle := by
  cases duty with
  | task one => exact Task.takesTurns h
  | addUnlogged values => exact Task.takesTurns_finish (InTurn.ofStore _)

end Duty

namespace Coordinator

variable {coordinator : Coordinator} {faulty : Bool} {duties : List Duty} {shared : Shared}

/-- Jobs with their duties, over what they share. -/
def assigned (coordinator : Coordinator) (shared : Shared) (duties : List Duty) : System :=
  ⟨shared, duties.map (Duty.program coordinator)⟩

/-- Where nobody leaves removals behind, all jobs take turns. -/
theorem takesTurns_assigned (h : ∀ duty ∈ duties, ¬ duty.LeavesRemovals coordinator)
    (hfree : shared.holder = none) (hstarted : shared.started = []) :
    TakesTurns [] (coordinator.assigned shared duties) := by
  refine ⟨fun _ => .idle, Ordered.start hfree hstarted, fun job program hjob => ?_⟩
  have hmap : (duties.map (Duty.program coordinator))[job]? = some program := hjob
  rw [List.getElem?_map, Option.map_eq_some_iff] at hmap
  obtain ⟨duty, hduty, rfl⟩ := hmap
  exact Program.Obeys.mono (Duty.takesTurns (h duty (List.mem_of_getElem? hduty)))
    fun _ _ _ => trivial

end Coordinator

/-! ## Removals that come about late -/

/-- What is removed is not there afterwards. -/
theorem Secret.Vault.value?_finish {vault : Vault} {secret name : String} {keys : Names}
    (h : keys.contains name = true) :
    (vault.finish secret keys).2.value? secret name = none := by
  rw [finish_snd]
  exact value?_remove h

namespace Coordinator

variable {coordinator : Coordinator} {faulty : Bool} {duties : List Duty} {shared : Shared}

/-- One secret with one variable is there, and nobody holds the lock. -/
def stocked (coordinator : Coordinator) (secret name value : String) : Shared :=
  ⟨Store.fresh Store.usualLimit, ⟨Dict.empty.insert secret
    ⟨coordinator.keeper.label, Dict.ofList [(name, value)]⟩⟩, none, [], []⟩

section

variable (coordinator : Coordinator) (secret name value : String)

theorem read_stocked :
    (coordinator.stocked secret name value).vault.read secret
      = some (Dict.ofList [(name, value)]) := by
  rw [stocked, Vault.read, Dict.find?_insert_self]
  rfl

theorem value?_stocked :
    (coordinator.stocked secret name value).vault.value? secret name = some value := by
  rw [Vault.value?, read_stocked, Option.bind_some, Dict.ofList]
  exact Dict.find?_insert_self _ _ _

theorem list_stocked :
    ((coordinator.stocked secret name value).vault.list coordinator.keeper.label).contains secret
      = true := by
  rw [stocked, Vault.list, Dict.contains_map, Dict.contains, Dict.find?_filter,
    Dict.find?_insert_self, Option.filter_some, if_pos (decide_eq_true rfl)]
  rfl

end

/-- After its moves a job is done and nobody holds the lock, but a removal of a name from a secret is
pending that the job has started. -/
structure LeftBehind (faulty : Bool) (system : System) (job : Nat) (secret name : String)
    (moves : List Move) (shared : Shared) : Prop where
  /-- the moves lead there -/
  trace : Trace faulty [] system moves ⟨shared, system.jobs.set job (.done ())⟩
  /-- they are those of the job -/
  own : ∀ move ∈ moves, move.job = job
  /-- the secrets are as they were -/
  vault : shared.vault = system.shared.vault
  /-- nobody holds the lock -/
  free : shared.holder = none
  /-- the removal is pending -/
  pending : ∃ (ticket : Nat) (keys : Names), (moves.foldl Move.owners [])[ticket]? = some job ∧
    shared.started[ticket]? = some ⟨secret, keys, none⟩ ∧ keys.contains name = true

/-- A batch with a bound can leave a removal behind. -/
theorem leftBehind_deleteFromSecrets (faulty : Bool) {system : System} {job : Nat}
    {requested : Dict Names} {after : Span} {secret name : String}
    (hbound : coordinator.batchTimeout = some after)
    (hrequested : ∃ request ∈ requested.entries, coordinator.keeper.resolve request.1 = secret ∧
      request.2.contains name = true)
    (hjob : system.jobs[job]? = some (Task.finish (coordinator.deleteFromSecrets requested)))
    (hfree : system.shared.holder = none) (hstarted : system.shared.started = [])
    (hexists : (system.shared.vault.list coordinator.keeper.label).contains secret = true) :
    ∃ moves shared outcome, LeftBehind faulty system job secret name moves shared ∧
      Program.Follows (coordinator.deleteFromSecrets requested).run (exchanges job moves)
        (.done outcome) := by
  have hsome : ¬ requested.isEmpty = true := by
    obtain ⟨request, hrequest, -⟩ := hrequested
    exact Dict.not_isEmpty_of_contains (Dict.contains_of_find? (Dict.mem_entries_iff.mp hrequest))
  obtain ⟨outcome, removals, records, hruns, hremovals⟩ :=
    @deleteFromSecrets_runs coordinator faulty job system.shared after hbound hfree requested hsome
  obtain ⟨keys, hfind, hkeys⟩ : ∃ keys, (targets coordinator.keeper requested).find? secret
      = some keys ∧ keys.contains name = true := by
    have hcontains := contains_targets.mpr hrequested
    cases hfind : (targets coordinator.keeper requested).find? secret with
    | none =>
      rw [hfind, Option.getD_none, Dict.contains_empty] at hcontains
      cases hcontains
    | some keys =>
      rw [hfind] at hcontains
      exact ⟨keys, rfl, hcontains⟩
  have hmem := hremovals (secret, keys) (Dict.mem_entries_iff.mpr hfind) hexists
  obtain ⟨ticket, hticket⟩ := List.mem_iff_getElem?.mp hmem
  obtain ⟨moves, htrace, hmoves, hfollows⟩ := hruns.trace (fun _ => .done ()) hjob []
  refine ⟨moves, _, outcome, ⟨htrace, hmoves, rfl, hfree, ticket, keys, ?_, ?_, hkeys⟩, hfollows⟩
  · -- whatever was started, the job has started
    obtain ⟨count, howners⟩ := owners_eq_append hmoves []
    have hlength := htrace.length_owners (by rw [hstarted]; rfl)
    rw [howners, List.nil_append, List.length_replicate] at hlength
    rw [howners, List.nil_append]
    refine List.getElem?_replicate_of_lt ?_
    rw [hlength, hstarted]
    exact (List.getElem?_eq_some_iff.mp hticket).1
  · change (system.shared.started ++ removals)[ticket]? = _
    rw [hstarted]
    exact hticket

end Coordinator

/-- Variables are added by a job to a secret that is there and not the default one. -/
theorem Coordinator.trace_addVariables {coordinator : Coordinator} (faulty : Bool)
    (owners : List Nat) {system : System} {job : Nat} {secret : String} {values : Dict String}
    {data : Data} {imported : Bool}
    (hjob : system.jobs[job]?
      = some (Task.finish (coordinator.addVariables secret values imported)))
    (hfree : system.shared.holder = none)
    (hread : system.shared.vault.read (coordinator.keeper.resolve secret) = some data)
    (hother : ¬ coordinator.keeper.isDefault (coordinator.keeper.resolve secret) = true)
    (hblank : ∀ name, values.contains name = true → Text.isBlank name = false)
    (hsome : ¬ values.isEmpty = true) :
    ∃ moves later, Trace faulty owners system moves ⟨later, system.jobs.set job (.done ())⟩ ∧
      (∀ move ∈ moves, move.job = job) ∧
      Operation.Returns (coordinator.addVariables secret values imported) (exchanges job moves)
        (Names.ofKeys values) ∧
      later.holder = none ∧ later.started = system.shared.started ∧
      later.vault.read (coordinator.keeper.resolve secret) = some (data.union values) := by
  obtain ⟨vault, records, hadd, hafter⟩ := @Does.addVariables faulty job system.shared coordinator
    secret values data imported hfree hread (fun hdefault => absurd hdefault hother) hblank hsome
  obtain ⟨moves, htrace, hmoves, hreturns⟩ := hadd.trace (fun _ => .done ()) hjob owners
  exact ⟨moves, _, htrace, hmoves, hreturns, hfree, rfl, hafter⟩

/-- Whenever a removal is carried out, the values that it removes are lost. -/
theorem System.Moves.of_pending {faulty : Bool} {owners : List Nat} (system : System)
    {job ticket : Nat} {secret name value : String} {keys : Names}
    (howner : owners[ticket]? = some job)
    (hstarted : system.shared.started[ticket]? = some ⟨secret, keys, none⟩)
    (hkeys : keys.contains name = true)
    (hvalue : system.shared.vault.value? secret name = some value) :
    ∃ move later, System.Moves faulty owners system move later ∧ move.job = job ∧
      move.before = system.shared ∧ move.Loses secret name value ∧
      later.shared.vault.value? secret name = none := by
  refine ⟨_, _, .removed howner hstarted rfl (.inl rfl), rfl, rfl, ⟨hvalue, ?_⟩,
    Vault.value?_finish hkeys⟩
  change (system.shared.vault.finish secret keys).2.value? secret name ≠ some value
  rw [Vault.value?_finish hkeys]
  exact nofun

namespace Coordinator

variable {coordinator : Coordinator} {faulty : Bool} {duties : List Duty}

/-- A duty that leaves removals behind can change a secret when nobody holds the lock. -/
theorem exists_unlocked_change (faulty : Bool) {duty : Duty} (hmem : duty ∈ duties)
    (hleaves : duty.LeavesRemovals coordinator) :
    ∃ shared moves system, shared.holder = none ∧ shared.started = [] ∧
      Trace faulty [] (coordinator.assigned shared duties) moves system ∧
      ∃ move ∈ moves, move.Changes ∧ move.before.holder = none := by
  obtain ⟨requested, rfl, hbound, request, hrequest, name, hname⟩ : ∃ requested,
      duty = .task (.deleteFromSecrets requested) ∧ coordinator.batchTimeout.isSome = true ∧
      ∃ request ∈ requested.entries, ∃ name, request.2.contains name = true := by
    cases duty with
    | task one =>
      cases one with
      | deleteFromSecrets requested => exact ⟨requested, rfl, hleaves⟩
      | _ => cases hleaves
    | addUnlogged values => cases hleaves
  obtain ⟨after, hbound⟩ := Option.isSome_iff_exists.mp hbound
  obtain ⟨job, hjob⟩ := List.mem_iff_getElem?.mp hmem
  let secret := coordinator.keeper.resolve request.1
  let start := coordinator.stocked secret name ""
  have hprogram : (coordinator.assigned start duties).jobs[job]?
      = some (Task.finish (coordinator.deleteFromSecrets requested)) := by
    rw [assigned, List.getElem?_map, hjob]
    rfl
  -- the batch runs to its end, and then its removal comes about
  obtain ⟨moves, t, -, hleft, -⟩ := leftBehind_deleteFromSecrets faulty hbound
    ⟨request, hrequest, rfl, hname⟩ hprogram rfl rfl (list_stocked coordinator secret name "")
  obtain ⟨ticket, keys, howner, hstarted, hkeys⟩ := hleft.pending
  have hvalue : t.vault.value? secret name = some "" := by
    rw [hleft.vault]
    exact value?_stocked coordinator secret name ""
  obtain ⟨move, later, hmove, -, hbefore, hloses, -⟩ :=
    System.Moves.of_pending ⟨t, _⟩ howner hstarted hkeys hvalue
  refine ⟨start, moves ++ [move], later, rfl, rfl, hleft.trace.append (.cons hmove (.nil _ _)),
    move, List.mem_append_right _ List.mem_cons_self, hloses.changes, ?_⟩
  rw [hbefore]
  exact hleft.free

/-- **Secrets change under the lock exactly if no removals are left behind.** Whatever is asked for
side by side, in whatever order the steps come and whichever calls fail: every change of a secret
that exists is made by a job that holds the lock, if and only if none is asked for a batch of
deletions that does not wait for all that it has started. If none is, whatever was added with
success stays, until a job that takes the lock later than that deletes or overwrites it. -/
theorem changes_locked_iff (coordinator : Coordinator) (faulty : Bool) (duties : List Duty) :
    ((∀ shared moves system, shared.holder = none → shared.started = [] →
        Trace faulty [] (coordinator.assigned shared duties) moves system →
        ∀ move ∈ moves, move.Changes → move.before.holder = some move.job) ↔
      ∀ duty ∈ duties, ¬ duty.LeavesRemovals coordinator) ∧
    ((∀ duty ∈ duties, ¬ duty.LeavesRemovals coordinator) →
      ∀ shared moves system, shared.holder = none → shared.started = [] →
        Trace faulty [] (coordinator.assigned shared duties) moves system →
        ∀ job secret values imported names,
          Operation.Returns (coordinator.addVariables secret values imported)
            (exchanges job moves) names →
          ∀ name value, values.find? name = some value →
            system.shared.vault.value? (coordinator.keeper.resolve secret) name = some value ∨
              Displaced moves job (coordinator.keeper.resolve secret) name value) := by
  have horder : (∀ duty ∈ duties, ¬ duty.LeavesRemovals coordinator) →
      ∀ shared moves system, shared.holder = none → shared.started = [] →
        Trace faulty [] (coordinator.assigned shared duties) moves system →
        ∀ move ∈ moves, move.InOrder :=
    fun hduties _ _ _ hfree hstarted htrace =>
      (takesTurns_assigned hduties hfree hstarted).trace htrace
  refine ⟨⟨fun h duty hmem hleaves => ?_, fun hduties => ?_⟩, fun hduties => ?_⟩
  · obtain ⟨shared, moves, system, hfree, hstarted, htrace, move, hmove, hchanges, hunlocked⟩ :=
      exists_unlocked_change faulty hmem hleaves
    have hlocked := h shared moves system hfree hstarted htrace move hmove hchanges
    rw [hunlocked] at hlocked
    cases hlocked
  · intro shared moves system hfree hstarted htrace move hmove
    exact (horder hduties shared moves system hfree hstarted htrace move hmove).changes
  · intro shared moves system hfree hstarted htrace job secret values imported names hreturns name
      value hvalue
    have hnone : 0 = shared.started.length := by
      rw [hstarted]
      rfl
    exact htrace.added_stays hnone List.not_mem_nil
      (horder hduties shared moves system hfree hstarted htrace) hreturns hvalue

/-- The usual coordinator deletes a variable with a batch that reaches its bound, and adds it again
after that. Both have returned, and nobody holds the lock, when the removal comes about: the new
value is lost. -/
theorem added_lost_to_removal :
    ∃ (first second : List Move) (late : Move) (system : System)
      (outcome : Outcome (List SecretFailure)) (names : Names),
      Trace false [] ((Coordinator.of default).assigned
          ((Coordinator.of default).stocked "s" "x" "old")
          [.task (.deleteFromSecrets (Dict.ofList [("s", Names.ofList ["x"])])),
            .task (.add "s" (Dict.ofList [("x", "new")]) false)])
        (first ++ (second ++ [late])) system ∧
      (∀ move ∈ first, move.job = 0) ∧ (∀ move ∈ second, move.job = 1) ∧ late.job = 0 ∧
      Program.Follows ((Coordinator.of default).deleteFromSecrets
        (Dict.ofList [("s", Names.ofList ["x"])])).run (exchanges 0 first) (.done outcome) ∧
      Operation.Returns ((Coordinator.of default).addVariables "s" (Dict.ofList [("x", "new")])
        false) (exchanges 1 (first ++ (second ++ [late]))) names ∧
      late.before.holder = none ∧ late.Loses "s" "x" "new" ∧
      system.shared.vault.value? "s" "x" = none := by
  let coordinator : Coordinator := Coordinator.of default
  let requested : Dict Names := Dict.ofList [("s", Names.ofList ["x"])]
  let values : Dict String := Dict.ofList [("x", "new")]
  let start : System := coordinator.assigned (coordinator.stocked "s" "x" "old")
    [.task (.deleteFromSecrets requested), .task (.add "s" values false)]
  -- the batch runs to its end
  obtain ⟨first, t, outcome, hleft, hbatch⟩ := @leftBehind_deleteFromSecrets coordinator false start
    0 requested (.ofMillis 30000) "s" "x" rfl
    ⟨("s", Names.ofList ["x"]), List.mem_singleton.mpr rfl, by decide, by decide⟩ rfl rfl rfl
    (list_stocked coordinator "s" "x" "old")
  obtain ⟨ticket, keys, howner, hstarted, hkeys⟩ := hleft.pending
  -- so does the adding
  have hresolve : coordinator.keeper.resolve "s" = "s" := by decide
  have hread : t.vault.read (coordinator.keeper.resolve "s")
      = some (Dict.ofList [("x", "old")]) := by
    rw [hleft.vault, hresolve]
    exact read_stocked coordinator "s" "x" "old"
  have hblank : ∀ name, values.contains name = true → Text.isBlank name = false := by
    intro name hname
    obtain rfl : name = "x" := List.mem_singleton.mp (Dict.contains_ofList.mp hname)
    decide
  obtain ⟨second, u, hmore, hadds, hreturns, hfree, hstill, hafter⟩ :=
    @trace_addVariables coordinator false (first.foldl Move.owners [])
      ⟨t, start.jobs.set 0 (.done ())⟩ 1 "s" values _ false rfl hleft.free hread (by decide) hblank
      (by decide)
  -- then the removal comes about, which is still that of the batch
  obtain ⟨count, howners⟩ := owners_eq_append hadds (first.foldl Move.owners [])
  have hlate : (second.foldl Move.owners (first.foldl Move.owners []))[ticket]? = some 0 := by
    rw [howners, List.getElem?_append_left (List.getElem?_eq_some_iff.mp howner).1]
    exact howner
  have hpending : u.started[ticket]? = some ⟨"s", keys, none⟩ := hstill ▸ hstarted
  have hvalue : u.vault.value? "s" "x" = some "new" := by
    rw [hresolve] at hafter
    rw [Vault.value?, hafter, Option.bind_some, Dict.find?_union]
    rfl
  obtain ⟨late, system, hmove, hjob, hbefore, hloses, hlost⟩ :=
    System.Moves.of_pending ⟨u, _⟩ hlate hpending hkeys hvalue
  have hexchanges : exchanges 1 (first ++ (second ++ [late])) = exchanges 1 second := by
    have hnone : exchanges 1 first = [] := exchanges_eq_nil fun move hmove => by
      rw [hleft.own move hmove]
      decide
    have hnone' : exchanges 1 [late] = [] := exchanges_eq_nil fun move hmove => by
      rw [List.mem_singleton.mp hmove, hjob]
      decide
    rw [exchanges_append, exchanges_append, hnone, hnone', List.nil_append, List.append_nil]
  refine ⟨first, second, late, system, outcome, Names.ofKeys values, hleft.trace.append
    (hmore.append (.cons hmove (.nil _ _))), hleft.own, hadds, hjob, hbatch, ?_, ?_, hloses,
    hlost⟩
  · rw [hexchanges]
    exact hreturns
  · rw [hbefore]
    exact hfree

end Coordinator

end EngineCatalog
