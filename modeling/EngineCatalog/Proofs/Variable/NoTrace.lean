import EngineCatalog.Proofs.Variable.AllOrNothing

/-!
# Failed tasks leave no trace

Of all tasks only two write more than once: deleting from several secrets, and restoring the default
variables. All others are all or nothing: if one fails, both stores and the audit trail are as they
were before, and if it succeeds, what was asked for is complete (`Task.leaves_no_trace`).

* `Task.WritesOnce` — the task writes once at most.
* `Task.Complete` — what was asked for is complete, as one sees it who reads the stores afterwards.
-/

namespace EngineCatalog

open KeyValue (Store Write Change)
open Secret (Data Vault)

/-! ## What is asked for -/

/-- The secret has these variables. -/
def Secret.Vault.HasAll (vault : Vault) (secret : String) (values : Dict String) : Prop :=
  ∀ name value, values.find? name = some value → vault.value? secret name = some value

/-- The secret has none of these variables. -/
def Secret.Vault.HasNone (vault : Vault) (secret : String) (names : Names) : Prop :=
  ∀ name, names.contains name = true → vault.value? secret name = none

/-- The catalog finds this, if anything, where it looks for a common variable. -/
def Catalog.Finds (catalog : Catalog) (store : Store) (name : String) (value : Option String) :
    Prop :=
  store.serve (catalog.findVariable name) = some (.ok value, store)

namespace Task

/-- The task writes once at most. -/
def WritesOnce : Task → Prop
  | .deleteFromSecrets _ => False
  | .restore _ => False
  | _ => True

/-- What the task was asked for is complete, for each of the names. -/
def Complete (coordinator : Coordinator) (shared : Shared) : Task → Prop
  | .add secret values _ => shared.vault.HasAll (coordinator.keeper.resolve secret) values
  | .addDefaults values =>
    shared.vault.HasAll (coordinator.keeper.resolve coordinator.keeper.defaultName) values
  | .importVariables values =>
    shared.vault.HasAll (coordinator.keeper.resolve coordinator.keeper.defaultName) values
  | .update secret values =>
    shared.vault.HasAll (coordinator.keeper.resolve secret) (values.map fun _ value => value.getD "")
  | .updateDefault name value =>
    shared.vault.HasAll (coordinator.keeper.resolve coordinator.keeper.defaultName)
      ((Dict.ofList [(name, value)]).map fun _ value => value.getD "")
  | .delete secret keys _ => shared.vault.HasNone (coordinator.keeper.resolve secret) keys
  | .deleteDefaults keys =>
    shared.vault.HasNone (coordinator.keeper.resolve coordinator.keeper.defaultName) keys
  | .addCommon name value => coordinator.catalog.Finds shared.store name (some value)
  | .addCommons values _ => ∀ name value, values.find? name = some value →
    coordinator.catalog.Finds shared.store name (some value)
  | .deleteCommons keys => ∀ name ∈ keys, coordinator.catalog.Finds shared.store name none
  | _ => True

end Task

/-! ## What is written is complete -/

namespace Secret.Vault

variable {vault : Vault} {secret : String} {data : Data}

/-- What is put into a secret that is there is complete. -/
theorem hasAll_merge (h : vault.read secret = some data) (values : Dict String) :
    (vault.merge secret values).2.HasAll secret values := by
  intro name value hvalue
  obtain ⟨after, hmerge, -⟩ := modify_of_read h fun current => current.union values
  have hdone : (vault.merge secret values).1 = .ok (data.union values) := congrArg Prod.fst hmerge
  exact value?_merge hvalue hdone

theorem hasNone_remove (vault : Vault) (secret : String) (names : Names) :
    (vault.remove secret names).2.HasNone secret names :=
  fun _ hname => value?_remove hname

/-- Where nothing is asked for, it is complete. -/
theorem hasAll_of_isEmpty {values : Dict String} (h : values.isEmpty = true) :
    vault.HasAll secret values := fun _ _ hvalue =>
  absurd h (Dict.not_isEmpty_of_contains (Dict.contains_of_find? hvalue))

theorem hasNone_of_isEmpty {names : Names} (h : names.isEmpty = true) :
    vault.HasNone secret names := fun _ hname =>
  absurd h (Dict.not_isEmpty_of_contains hname)

end Secret.Vault

namespace Catalog

variable {catalog : Catalog} {store : Store}

/-- A common variable that is set is found. -/
theorem finds_put {name value : String}
    (h : (store.perform (.put (catalog.layout.variableKey name) (Text.encode value))).1 = .ok ()) :
    catalog.Finds (store.perform (.put (catalog.layout.variableKey name) (Text.encode value))).2
      name (some value) := by
  refine serve_findVariable_of_some ?_
  rw [(Store.stored?_perform (Store.isAccepted_of_perform h)).2, Write.leaves, if_pos rfl]

/-- Common variables that are set together are all found. -/
theorem finds_setAll {values : Dict String}
    (h : (store.perform (.transact (values.entries.map fun entry =>
      .set (catalog.layout.variableKey entry.1) (Text.encode entry.2)))).1 = .ok ())
    {name value : String} (hvalue : values.find? name = some value) :
    catalog.Finds (store.perform (.transact (values.entries.map fun entry =>
      .set (catalog.layout.variableKey entry.1) (Text.encode entry.2)))).2 name (some value) := by
  refine serve_findVariable_of_some ?_
  rw [(Store.stored?_perform (Store.isAccepted_of_perform h)).2, Write.leaves,
    Change.foldl_leaves_set_eq (variableKey_injective catalog.layout), Dict.find?_entries_reverse,
    hvalue]
  rfl

/-- Common variables that are deleted together are not found. -/
theorem finds_deleteAll {names : List String}
    (h : (store.perform (.transact (names.map fun name =>
      .delete (catalog.layout.variableKey name)))).1 = .ok ())
    {name : String} (hname : name ∈ names) :
    catalog.Finds (store.perform (.transact (names.map fun name =>
      .delete (catalog.layout.variableKey name)))).2 name none := by
  refine serve_findVariable_of_none ?_
  rw [(Store.stored?_perform (Store.isAccepted_of_perform h)).2, Write.leaves,
    Change.foldl_leaves_delete (variableKey_injective catalog.layout), if_pos hname]

end Catalog

/-! ## All tasks that write once -/

namespace Task

variable {faulty coming : Bool} {s t : Shared} {coordinator : Coordinator}

theorem complete_add {secret : String} {values : Dict String} {imported : Bool}
    (h : coordinator.Added secret s t values imported) :
    t.vault.HasAll (coordinator.keeper.resolve secret) values := by
  obtain ⟨hnone, -⟩ | ⟨current, hread, rfl⟩ := h
  · exact Vault.hasAll_of_isEmpty hnone
  · exact Vault.hasAll_merge hread values

theorem complete_update {secret : String} {values : Dict (Option String)}
    (h : coordinator.Updated secret s t values) :
    t.vault.HasAll (coordinator.keeper.resolve secret) (values.map fun _ value => value.getD "") := by
  obtain ⟨current, hread, -, rfl⟩ := h
  exact Vault.hasAll_merge hread _

theorem complete_delete {secret : String} {keys : Names} {logged : Bool}
    (h : coordinator.Deleted secret s t keys logged) :
    t.vault.HasNone (coordinator.keeper.resolve secret) keys := by
  obtain ⟨hnone, -⟩ | ⟨current, -, rfl⟩ := h
  · exact Vault.hasNone_of_isEmpty hnone
  · exact Vault.hasNone_remove _ _ _

/-- A task that writes once is all or nothing. -/
theorem allOrNothing {task : Task} (honce : task.WritesOnce) (hquiet : Quiet coming s) :
    AllOrNothing faulty coming s (task.work coordinator) fun _ t => task.Complete coordinator t := by
  cases task with
  | allNames =>
    exact AllOrNothing.map (AllOrNothing.mono (AllOrNothing.allNames hquiet) fun _ _ _ => trivial)
  | names secret strict =>
    exact AllOrNothing.map
      (AllOrNothing.mono (AllOrNothing.names hquiet secret strict) fun _ _ _ => trivial)
  | defaultNames strict =>
    exact AllOrNothing.map
      (AllOrNothing.mono (AllOrNothing.names hquiet _ strict) fun _ _ _ => trivial)
  | add secret values imported =>
    exact AllOrNothing.map
      (AllOrNothing.mono (AllOrNothing.addVariables hquiet _ _ _) fun _ _ => complete_add)
  | addDefaults values =>
    exact AllOrNothing.map
      (AllOrNothing.mono (AllOrNothing.addVariables hquiet _ _ _) fun _ _ => complete_add)
  | importVariables values =>
    exact AllOrNothing.map
      (AllOrNothing.mono (AllOrNothing.addVariables hquiet _ _ _) fun _ _ => complete_add)
  | update secret values =>
    exact AllOrNothing.map
      (AllOrNothing.mono (AllOrNothing.updateVariables hquiet _ _) fun _ _ => complete_update)
  | updateDefault name value =>
    exact AllOrNothing.map
      (AllOrNothing.mono (AllOrNothing.updateDefault hquiet name value) fun _ _ => complete_update)
  | delete secret keys logged =>
    exact AllOrNothing.map
      (AllOrNothing.mono (AllOrNothing.deleteVariables hquiet _ _ _) fun _ _ => complete_delete)
  | deleteDefaults keys =>
    exact AllOrNothing.map
      (AllOrNothing.mono (AllOrNothing.deleteVariables hquiet _ _ _) fun _ _ => complete_delete)
  | deleteFromSecrets requested => exact honce.elim
  | common =>
    exact AllOrNothing.map (AllOrNothing.mono (AllOrNothing.common hquiet) fun _ _ _ => trivial)
  | addCommon name value =>
    refine AllOrNothing.map (AllOrNothing.mono (AllOrNothing.addCommon hquiet name value) ?_)
    rintro - t ⟨hdone, records, rfl⟩
    exact Catalog.finds_put hdone
  | addCommons values imported =>
    refine AllOrNothing.map (AllOrNothing.mono (AllOrNothing.addCommons hquiet values imported) ?_)
    rintro - t (⟨hnone, -⟩ | ⟨hdone, records, rfl⟩) name value hvalue
    · exact absurd hnone (Dict.not_isEmpty_of_contains (Dict.contains_of_find? hvalue))
    · exact Catalog.finds_setAll hdone hvalue
  | deleteCommons names =>
    refine AllOrNothing.map (AllOrNothing.mono (AllOrNothing.deleteCommons hquiet names) ?_)
    rintro - t ⟨hdone, records, rfl⟩ name hname
    exact Catalog.finds_deleteAll hdone hname
  | restore values => exact honce.elim

/-- **Failed tasks leave no trace.** Whatever the stores hold and whichever calls fail, a task that
writes once and ends in an error leaves both stores and the audit trail as they were; if it ends with
success, what was asked for is complete. -/
theorem leaves_no_trace {task : Task} (honce : task.WritesOnce) {before after : Shared}
    {outcome : Outcome Reply}
    (h : Performs faulty false before (task.work coordinator) outcome after) :
    (∀ error, outcome = .error error → after = before) ∧
      ∀ reply, outcome = .ok reply → task.Complete coordinator after := by
  have hquiet : Quiet false before := nofun
  rcases allOrNothing honce hquiet outcome after h with ⟨reply, rfl, hcomplete⟩ | ⟨error, rfl, hsame⟩
  · exact ⟨nofun, fun _ _ => hcomplete⟩
  · exact ⟨fun _ _ => hsame, nofun⟩

/-- A common variable is to be set, and the store fails at its last call, or does not. -/
theorem leaves_no_trace_addCommon :
    (∃ after, Performs true false Shared.fresh
        ((Task.addCommon "region" "north").work (Coordinator.of default))
        (.error (.notFound "region")) after ∧ after = Shared.fresh) ∧
      ∃ after, Performs true false Shared.fresh
        ((Task.addCommon "region" "north").work (Coordinator.of default))
        (.ok (.name "region")) after ∧
        (Coordinator.of default).catalog.Finds after.store "region" (some "north") := by
  let key := (Coordinator.of default).catalog.layout.variableKey "region"
  let failed : Shared := Shared.fresh
  let written : Shared := { Shared.fresh with
    store := (Shared.fresh.store.perform (.put key (Text.encode "north"))).2
    records := [.common "region" .create] }
  have hfailed : Performs true false Shared.fresh
      ((Task.addCommon "region" "north").work (Coordinator.of default))
      (.error (.notFound "region")) failed := by
    refine .step .lock () .refl ⟨rfl, rfl⟩ ?_
    refine .step (.secrets (.read _)) (.ok none) .refl (.inl ⟨rfl, rfl⟩) ?_
    refine .step .unlock () .refl rfl ?_
    refine .step (.store (.read _ false)) (.error (.notFound key)) .refl (.inl ⟨rfl, rfl⟩) ?_
    refine .step (.store (.put _ _)) (.error (.notFound "region")) .refl (.inr ⟨rfl, rfl, _, rfl⟩) ?_
    exact .refl _ _
  have hwritten : Performs true false Shared.fresh
      ((Task.addCommon "region" "north").work (Coordinator.of default))
      (.ok (.name "region")) written := by
    refine .step .lock () .refl ⟨rfl, rfl⟩ ?_
    refine .step (.secrets (.read _)) (.ok none) .refl (.inl ⟨rfl, rfl⟩) ?_
    refine .step .unlock () .refl rfl ?_
    refine .step (.store (.read _ false)) (.error (.notFound key)) .refl (.inl ⟨rfl, rfl⟩) ?_
    refine .step (.store (.put _ _)) (.ok ()) .refl (.inl ⟨rfl, rfl⟩) ?_
    refine .step (.record _) () .refl rfl ?_
    exact .refl _ _
  have honce : (Task.addCommon "region" "north").WritesOnce := trivial
  exact ⟨⟨failed, hfailed, (leaves_no_trace honce hfailed).1 _ rfl⟩,
    written, hwritten, (leaves_no_trace honce hwritten).2 _ rfl⟩

end Task

end EngineCatalog
