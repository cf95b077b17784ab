import EngineCatalog.Proofs.Variable.Batch
import EngineCatalog.Proofs.Variable.Exclusion

/-!
# The audit trail of secured variables

Records are left once the lock is released, from what was seen before the secret was changed. They
are true nevertheless, and none is missing: whoever replays them knows the names of all secrets
(`Serial.records_exact`).

* `Audit.replay` — the names of a secret after some records, from those before.
* `Audit.Record.Fits` — a record is about what was asked for, and says what there was before.
* `Recorded` — what was changed, and nothing else, is on record (`Task.accounted`).
-/

namespace EngineCatalog

open Secret (Data Vault)

/-! ## Names -/

/-- Two sets with the same names are the same. -/
theorem Names.ext {a b : Names} (h : ∀ name, a.contains name = true ↔ b.contains name = true) :
    a = b := by
  apply Dict.ext_find?
  intro name
  have hsome := h name
  rw [Dict.contains, Dict.contains] at hsome
  cases ha : a.find? name <;> cases hb : b.find? name <;> simp_all

namespace Secret.Vault

variable {vault : Vault} {secret other : String}

/-- The names of the variables of a secret, if it exists. -/
def names? (vault : Vault) (secret : String) : Option Names :=
  (vault.read secret).map Names.ofKeys

end Secret.Vault

/-! ## Replaying records -/

namespace Audit

/-- The record is about a variable of a secret. -/
def Record.Concerns (record : Record) (secret name : String) : Prop :=
  record.entity = .securedVariable ∧ record.name = name ∧ record.parent = some (.secret, secret)

instance (record : Record) (secret name : String) : Decidable (record.Concerns secret name) :=
  inferInstanceAs (Decidable (_ ∧ _ ∧ _))

/-- The names of a secret after a record, from those before. -/
def Record.replay (secret : String) (names : Names) (record : Record) : Names :=
  if record.Concerns secret record.name then
    if record.operation = .delete then names.erase record.name else names.insert record.name ()
  else names

/-- The names of a secret after some records, from those before. -/
def replay (secret : String) : List Record → Names → Names
  | [], names => names
  | record :: more, names => replay secret more (record.replay secret names)

variable {secret name : String} {names : Names} {records : List Record}

theorem replay_append (front back : List Record) (names : Names) :
    replay secret (front ++ back) names = replay secret back (replay secret front names) := by
  induction front generalizing names with
  | nil => rfl
  | cons record more ih => exact ih (record.replay secret names)

/-- A record decides whether its name is there, and does not touch the others. -/
theorem Record.contains_replay (record : Record) :
    (record.replay secret names).contains name = true ↔
      if record.Concerns secret name then record.operation ≠ .delete
      else names.contains name = true := by
  have hname : record.Concerns secret name ↔
      record.Concerns secret record.name ∧ record.name = name := by
    simp only [Concerns]
    tauto
  rw [replay]
  by_cases hconcerns : record.Concerns secret record.name
  · rw [if_pos hconcerns, Dict.contains]
    by_cases hsame : record.name = name
    · rw [if_pos (hname.mpr ⟨hconcerns, hsame⟩)]
      split
      · rename_i hdelete
        simp [Dict.find?_erase, hsame, hdelete]
      · rename_i hdelete
        simp [hsame, hdelete]
    · rw [if_neg fun h => hsame (hname.mp h).2]
      split
      · rw [Dict.find?_erase, if_neg hsame, Dict.contains]
      · rw [Dict.find?_insert, if_neg hsame, Dict.contains]
  · rw [if_neg hconcerns, if_neg fun h => hconcerns (hname.mp h).1]

/-- Where nothing is deleted, names come in. -/
theorem contains_replay_of_put (h : ∀ record ∈ records, record.operation ≠ .delete) :
    (replay secret records names).contains name = true ↔
      names.contains name = true ∨ ∃ record ∈ records, record.Concerns secret name := by
  induction records generalizing names with
  | nil => simp [replay]
  | cons record more ih =>
    obtain ⟨hrecord, hmore⟩ := List.forall_mem_cons.mp h
    rw [replay, ih hmore, Record.contains_replay, List.exists_mem_cons_iff]
    by_cases hconcerns : record.Concerns secret name <;> simp [hconcerns, hrecord]

/-- Where there are only deletions, names are taken out. -/
theorem contains_replay_of_delete (h : ∀ record ∈ records, record.operation = .delete) :
    (replay secret records names).contains name = true ↔
      names.contains name = true ∧ ¬ ∃ record ∈ records, record.Concerns secret name := by
  induction records generalizing names with
  | nil => simp [replay]
  | cons record more ih =>
    obtain ⟨hrecord, hmore⟩ := List.forall_mem_cons.mp h
    rw [replay, ih hmore, Record.contains_replay, List.exists_mem_cons_iff]
    by_cases hconcerns : record.Concerns secret name <;> simp [hconcerns, hrecord]

theorem Record.concerns_secured {other parent : String} {operation : Operation} :
    (secured other parent operation).Concerns secret name ↔ other = name ∧ parent = secret := by
  simp [Concerns, secured, of, within]

end Audit

/-! ## What is on record -/

/-- The records of a deletion are about the names that were there. -/
theorem Coordinator.mem_deletions {parent : String} {current : Data} {names : Names}
    {record : Audit.Record} :
    record ∈ deletions parent current names ↔ ∃ name, names.contains name = true ∧
      current.contains name = true ∧ record = .secured name parent .delete := by
  simp only [deletions, List.mem_map, List.mem_filter, Dict.mem_keys_iff, and_assoc, eq_comm]

theorem Coordinator.concerns_deletions {parent secret name : String} {current : Data}
    {names : Names} :
    (∃ record ∈ deletions parent current names, record.Concerns secret name) ↔
      parent = secret ∧ names.contains name = true ∧ current.contains name = true := by
  constructor
  · rintro ⟨record, hrecord, hconcerns⟩
    obtain ⟨other, hother, hthere, rfl⟩ := mem_deletions.mp hrecord
    obtain ⟨rfl, hparent⟩ := Audit.Record.concerns_secured.mp hconcerns
    exact ⟨hparent, hother, hthere⟩
  · rintro ⟨hparent, hname, hthere⟩
    exact ⟨_, mem_deletions.mpr ⟨name, hname, hthere, rfl⟩,
      Audit.Record.concerns_secured.mpr ⟨rfl, hparent⟩⟩

namespace Secret.Vault

variable {vault : Vault} {secret parent : String}

/-- What is put into a secret is on record. -/
theorem names?_merge (values : Dict String) {operation : String → Audit.Operation}
    (h : ∀ name, operation name ≠ .delete) :
    (vault.merge parent values).2.names? secret = (vault.names? secret).map (Audit.replay secret
      (values.keys.map fun name => .secured name parent (operation name))) := by
  have hputs : ∀ record ∈ values.keys.map fun name =>
      Audit.Record.secured name parent (operation name), record.operation ≠ .delete := by
    intro record hrecord
    obtain ⟨name, -, rfl⟩ := List.mem_map.mp hrecord
    exact h name
  rw [names?, names?, merge, read_modify]
  cases vault.read secret with
  | none => split <;> rfl
  | some data =>
    split
    · rename_i hsecret
      refine congrArg some (Names.ext fun name => ?_)
      rw [Names.contains_ofKeys, Dict.contains_union, Audit.contains_replay_of_put hputs,
        Names.contains_ofKeys]
      simp [Audit.Record.concerns_secured, Dict.mem_keys_iff, hsecret, or_comm]
    · rename_i hsecret
      refine congrArg some (Names.ext fun name => ?_)
      rw [Audit.contains_replay_of_put hputs]
      simp [Audit.Record.concerns_secured, hsecret]

/-- What is taken out of a secret that is there is on record. -/
theorem names?_remove {current : Data} (hread : vault.read parent = some current) (names : Names) :
    (vault.remove parent names).2.names? secret = (vault.names? secret).map (Audit.replay secret
      (Coordinator.deletions parent current names)) := by
  have hdeletes : ∀ record ∈ Coordinator.deletions parent current names,
      record.operation = .delete := by
    intro record hrecord
    obtain ⟨name, -, -, rfl⟩ := Coordinator.mem_deletions.mp hrecord
    rfl
  rw [names?, names?, remove, read_modify]
  cases hsecret : vault.read secret with
  | none => split <;> rfl
  | some data =>
    split
    · rename_i hparent
      obtain rfl : current = data := Option.some.inj (hread.symm.trans (hparent ▸ hsecret))
      refine congrArg some (Names.ext fun name => ?_)
      rw [Names.contains_ofKeys, Dict.contains_filter current fun key => !names.contains key,
        Audit.contains_replay_of_delete hdeletes, Names.contains_ofKeys,
        Coordinator.concerns_deletions, Bool.and_eq_true, Bool.not_eq_true', ← Bool.not_eq_true]
      tauto
    · rename_i hparent
      refine congrArg some (Names.ext fun name => ?_)
      rw [Audit.contains_replay_of_delete hdeletes, Coordinator.concerns_deletions]
      tauto

end Secret.Vault

namespace Batch

variable {batch : Batch} {secret name : String}

/-- The failures are the targets that are no secrets of the catalog. -/
theorem contains_failuresAfter {failures : Dict String} {targets : List (String × Names)} :
    (batch.failuresAfter failures targets).contains secret = true ↔
      failures.contains secret = true ∨
        secret ∈ targets.map Prod.fst ∧ batch.all.contains secret = false := by
  induction targets generalizing failures with
  | nil => simp [failuresAfter]
  | cons target more ih =>
    rw [failuresAfter, List.foldl_cons]
    split
    · rename_i hall
      rw [← failuresAfter, ih]
      simp only [List.map_cons, List.mem_cons]
      constructor
      · tauto
      · rintro (hold | ⟨rfl | hmore, hsecret⟩)
        · exact .inl hold
        · rw [hall] at hsecret
          cases hsecret
        · exact .inr ⟨hmore, hsecret⟩
    · rename_i hall
      rw [← failuresAfter, ih, Dict.contains_insert]
      simp only [List.map_cons, List.mem_cons, Bool.or_eq_true, decide_eq_true_eq]
      constructor
      · rintro ((rfl | hold) | hmore)
        · exact .inr ⟨.inl rfl, Bool.not_eq_true _ ▸ hall⟩
        · exact .inl hold
        · exact .inr ⟨.inr hmore.1, hmore.2⟩
      · rintro (hold | ⟨rfl | hmore, hsecret⟩)
        · exact .inl (.inr hold)
        · exact .inl (.inl rfl)
        · exact .inr ⟨hmore, hsecret⟩

/-- A record of the batch says that a name is deleted that was there and was to be deleted. -/
theorem mem_records {record : Audit.Record} :
    record ∈ batch.records ↔ ∃ secret keys data name, batch.targets.find? secret = some keys ∧
      batch.all.find? secret = some data ∧ keys.contains name = true ∧
      data.contains name = true ∧ record = .secured name secret .delete := by
  have hfailures : ∀ secret, batch.failures.contains secret = true ↔
      batch.targets.contains secret = true ∧ batch.all.contains secret = false := by
    intro secret
    rw [failures, contains_failuresAfter, Dict.contains_empty, ← Dict.mem_keys_iff]
    simp [Dict.keys, Sorted.keys]
  rw [records, Coordinator.allDeletions, List.mem_flatMap]
  constructor
  · rintro ⟨⟨secret, keys⟩, htarget, hrecord⟩
    rw [Dict.mem_entries_iff] at htarget
    dsimp only at hrecord
    split at hrecord
    · cases hrecord
    · rename_i hfine
      have hall : batch.all.contains secret = true := by
        rw [← Bool.not_eq_false]
        exact fun hnone => hfine ((hfailures secret).mpr
          ⟨Dict.contains_of_find? htarget, hnone⟩)
      obtain ⟨data, hdata⟩ := Dict.contains_iff.mp hall
      rw [hdata, Option.getD_some] at hrecord
      obtain ⟨name, hname, hthere, rfl⟩ := Coordinator.mem_deletions.mp hrecord
      exact ⟨secret, keys, data, name, htarget, hdata, hname, hthere, rfl⟩
  · rintro ⟨secret, keys, data, name, htarget, hdata, hname, hthere, rfl⟩
    refine ⟨(secret, keys), Dict.mem_entries_iff.mpr htarget, ?_⟩
    dsimp only
    rw [if_neg, hdata, Option.getD_some]
    · exact Coordinator.mem_deletions.mpr ⟨name, hname, hthere, rfl⟩
    · intro hfailed
      rw [hfailures, Dict.contains_of_find? hdata] at hfailed
      cases hfailed.2

theorem concerns_records :
    (∃ record ∈ batch.records, record.Concerns secret name) ↔
      ∃ keys data, batch.targets.find? secret = some keys ∧ batch.all.find? secret = some data ∧
        keys.contains name = true ∧ data.contains name = true := by
  constructor
  · rintro ⟨record, hrecord, hconcerns⟩
    obtain ⟨parent, keys, data, other, htarget, hdata, hother, hthere, rfl⟩ :=
      mem_records.mp hrecord
    obtain ⟨rfl, rfl⟩ := Audit.Record.concerns_secured.mp hconcerns
    exact ⟨keys, data, htarget, hdata, hother, hthere⟩
  · rintro ⟨keys, data, htarget, hdata, hname, hthere⟩
    exact ⟨_, mem_records.mpr ⟨secret, keys, data, name, htarget, hdata, hname, hthere, rfl⟩,
      Audit.Record.concerns_secured.mpr ⟨rfl, rfl⟩⟩

/-- What is deleted from several secrets is on record. -/
theorem names?_vaultAfter :
    batch.vaultAfter.names? secret
      = (batch.vault.names? secret).map (Audit.replay secret batch.records) := by
  have hdeletes : ∀ record ∈ batch.records, record.operation = .delete := by
    intro record hrecord
    obtain ⟨_, _, _, name, -, -, -, -, rfl⟩ := mem_records.mp hrecord
    rfl
  rw [Vault.names?, Vault.names?, Vault.read, Vault.read, vaultAfter, Dict.find?_map]
  cases hsecret : batch.vault.secrets.find? secret with
  | none => rfl
  | some stored =>
    simp only [Option.map_some]
    refine congrArg some (Names.ext fun name => ?_)
    rw [Audit.contains_replay_of_delete hdeletes, concerns_records, find?_all, hsecret,
      Option.filter_some, Names.contains_ofKeys, Names.contains_ofKeys]
    split
    · rename_i hlabel
      rw [rest, Dict.contains_filter stored.data fun key =>
        !((batch.targets.find? secret).getD Dict.empty).contains key]
      cases batch.targets.find? secret with
      | none => simp
      | some keys => cases hname : keys.contains name <;> simp [hlabel, hname]
    · rename_i hlabel
      simp [hlabel]

end Batch

/-! ## What tasks leave -/

/-- A record is about a variable that was asked for, in a secret that is there. What was created was
not there before, and what was updated or deleted was. -/
def Audit.Record.Fits (asks : String → String → Prop) (vault : Vault) (record : Audit.Record) :
    Prop :=
  ∃ secret name current, record = .secured name secret record.operation ∧ asks secret name ∧
    vault.read secret = some current ∧
    (record.operation = .create → current.contains name = false) ∧
    (record.operation = .update ∨ record.operation = .delete → current.contains name = true)

/-- The records fit, and the names of all secrets changed as they say. -/
structure Recorded (asks : String → String → Prop) (before after : Shared)
    (left : List Audit.Record) : Prop where
  /-- these records were left -/
  records : after.records = before.records ++ left
  /-- they fit -/
  fits : ∀ record ∈ left, record.Fits asks before.vault
  /-- whoever replays them knows the names -/
  names : ∀ secret, after.vault.names? secret
    = (before.vault.names? secret).map (Audit.replay secret left)

/-- What changed is on record, and nothing is pending. -/
def Accounted (asks : String → String → Prop) (before after : Shared) : Prop :=
  after.Settled ∧ ∃ left, Recorded asks before after left

namespace Accounted

variable {coordinator : Coordinator} {secret : String} {s t : Shared}

/-- Where nothing is changed, nothing is on record. -/
theorem refl (asks : String → String → Prop) (hsettled : s.Settled) : Accounted asks s s :=
  ⟨hsettled, [], (List.append_nil _).symm, nofun, fun _ => Option.map_id'.symm⟩

theorem added {values : Dict String} {imported : Bool}
    (hsettled : s.Settled)
    (h : coordinator.Added secret s t values imported) :
    Accounted (fun parent name => parent = coordinator.keeper.resolve secret ∧
      values.contains name = true) s t := by
  obtain ⟨-, rfl⟩ | ⟨current, hread, rfl⟩ := h
  · exact .refl _ hsettled
  refine ⟨hsettled, _, rfl, fun record hrecord => ?_,
    fun other => Vault.names?_merge values fun name => ?_⟩
  · obtain ⟨name, hname, rfl⟩ := List.mem_map.mp hrecord
    refine ⟨_, name, current, rfl, ⟨rfl, Dict.mem_keys_iff.mp hname⟩, hread, ?_⟩
    change (Coordinator.additionOf imported current name = .create → _) ∧
      (Coordinator.additionOf imported current name = .update ∨
        Coordinator.additionOf imported current name = .delete → _)
    rw [Coordinator.additionOf]
    cases imported <;> cases current.contains name <;> decide
  · rw [Coordinator.additionOf]
    cases imported <;> cases current.contains name <;> decide

theorem updated {values : Dict (Option String)} (hsettled : s.Settled)
    (h : coordinator.Updated secret s t values) :
    Accounted (fun parent name => parent = coordinator.keeper.resolve secret ∧
      values.contains name = true) s t := by
  obtain ⟨current, hread, hpresent, rfl⟩ := h
  have hkeys : (values.map fun _ value => value.getD "").keys = values.keys := by
    rw [Dict.keys, Dict.keys, Sorted.keys, Sorted.keys, Dict.map, List.map_map]
    rfl
  refine ⟨hsettled, _, rfl, fun record hrecord => ?_, fun other => ?_⟩
  · obtain ⟨name, hname, rfl⟩ := List.mem_map.mp hrecord
    exact ⟨_, name, current, rfl, ⟨rfl, Dict.mem_keys_iff.mp hname⟩, hread,
      Audit.Operation.noConfusion, fun _ => hpresent name hname⟩
  · rw [← hkeys]
    exact Vault.names?_merge _ fun _ => Audit.Operation.noConfusion

theorem deleted {names : Names} (hsettled : s.Settled)
    (h : coordinator.Deleted secret s t names true) :
    Accounted (fun parent name => parent = coordinator.keeper.resolve secret ∧
      names.contains name = true) s t := by
  obtain ⟨-, rfl⟩ | ⟨current, hread, rfl⟩ := h
  · exact .refl _ hsettled
  refine ⟨hsettled, _, rfl, fun record hrecord => ?_, fun other => Vault.names?_remove hread names⟩
  obtain ⟨name, hname, hthere, rfl⟩ := Coordinator.mem_deletions.mp hrecord
  exact ⟨_, name, current, rfl, ⟨rfl, hname⟩, hread, nofun, fun _ => hthere⟩

theorem batch (hsettled : s.Settled) (requested : Dict Names) :
    Accounted (fun parent name => ∃ request ∈ requested.entries,
      coordinator.keeper.resolve request.1 = parent ∧ request.2.contains name = true) s
      ((coordinator.batch requested s.vault).after s) := by
  refine ⟨Batch.settled_after _ hsettled, _, rfl, fun record hrecord => ?_,
    fun _ => Batch.names?_vaultAfter⟩
  obtain ⟨parent, keys, data, name, htarget, hdata, hname, hthere, rfl⟩ :=
    Batch.mem_records.mp hrecord
  have hasked := @Coordinator.contains_targets coordinator.keeper requested parent name
  rw [show (Coordinator.targets coordinator.keeper requested).find? parent = some keys
    from htarget, Option.getD_some] at hasked
  refine ⟨parent, name, data, rfl, hasked.mp hname, ?_, nofun, fun _ => hthere⟩
  rw [Batch.find?_all, Option.map_eq_some_iff] at hdata
  obtain ⟨stored, hstored, rfl⟩ := hdata
  rw [Vault.read, show s.vault.secrets.find? parent = some stored from
    (Option.filter_eq_some_iff.mp hstored).1]
  rfl

end Accounted

namespace Task

/-- The task is about secured variables, and is to leave records. -/
def IsAudited : Task → Prop
  | .delete _ _ logged => logged = true
  | .common => False
  | .addCommon _ _ => False
  | .addCommons _ _ => False
  | .deleteCommons _ => False
  | .restore _ => False
  | _ => True

/-- The task is to change a variable of this name in this secret. -/
def Asks (coordinator : Coordinator) : Task → String → String → Prop
  | .add secret values _, parent, name =>
    parent = coordinator.keeper.resolve secret ∧ values.contains name = true
  | .addDefaults values, parent, name =>
    parent = coordinator.keeper.resolve coordinator.keeper.defaultName ∧ values.contains name = true
  | .importVariables values, parent, name =>
    parent = coordinator.keeper.resolve coordinator.keeper.defaultName ∧ values.contains name = true
  | .update secret values, parent, name =>
    parent = coordinator.keeper.resolve secret ∧ values.contains name = true
  | .updateDefault one value, parent, name =>
    parent = coordinator.keeper.resolve coordinator.keeper.defaultName ∧
      (Dict.ofList [(one, value)]).contains name = true
  | .delete secret keys _, parent, name =>
    parent = coordinator.keeper.resolve secret ∧ keys.contains name = true
  | .deleteDefaults keys, parent, name =>
    parent = coordinator.keeper.resolve coordinator.keeper.defaultName ∧ keys.contains name = true
  | .deleteFromSecrets requested, parent, name => ∃ request ∈ requested.entries,
    coordinator.keeper.resolve request.1 = parent ∧ request.2.contains name = true
  | _, _, _ => False

variable {coordinator : Coordinator} {s t : Shared}

/-- What was changed all or not at all is on record, if it is where it was changed. -/
theorem accounted_of_allOrNothing {asks : String → String → Prop} {α : Type} {work : Work α}
    {holds : α → Shared → Prop} (hsettled : s.Settled) (h : AllOrNothing false true s work holds)
    (hdone : ∀ result t, holds result t → Accounted asks s t) {f : α → Reply}
    {outcome : Outcome Reply} (hperforms : Performs false true s (f <$> work) outcome t) :
    Accounted asks s t := by
  obtain ⟨given, hwork, -⟩ := hperforms.of_map
  rcases h given t hwork with ⟨result, -, hholds⟩ | ⟨error, -, rfl⟩
  · exact hdone result t hholds
  · exact .refl _ hsettled

/-- What a task changed, and nothing else, is on record. -/
theorem accounted {task : Task} (haudited : task.IsAudited) (hsettled : s.Settled)
    {outcome : Outcome Reply} (h : Performs false true s (task.work coordinator) outcome t) :
    Accounted (task.Asks coordinator) s t := by
  have hquiet : Quiet true s := fun _ => hsettled
  have hread : ∀ (asks : String → String → Prop) (t : Shared), t = s ∧ True →
      Accounted asks s t := by
    rintro asks t ⟨rfl, -⟩
    exact .refl asks hsettled
  cases task with
  | allNames =>
    exact accounted_of_allOrNothing hsettled (AllOrNothing.allNames hquiet)
      (fun _ => hread _) h
  | names secret strict =>
    exact accounted_of_allOrNothing hsettled (AllOrNothing.names hquiet _ _) (fun _ => hread _) h
  | defaultNames strict =>
    exact accounted_of_allOrNothing hsettled (AllOrNothing.names hquiet _ _) (fun _ => hread _) h
  | add secret values imported =>
    exact accounted_of_allOrNothing hsettled (AllOrNothing.addVariables hquiet _ _ _)
      (fun _ _ => .added hsettled) h
  | addDefaults values =>
    exact accounted_of_allOrNothing hsettled (AllOrNothing.addVariables hquiet _ _ _)
      (fun _ _ => .added hsettled) h
  | importVariables values =>
    exact accounted_of_allOrNothing hsettled (AllOrNothing.addVariables hquiet _ _ _)
      (fun _ _ => .added hsettled) h
  | update secret values =>
    exact accounted_of_allOrNothing hsettled (AllOrNothing.updateVariables hquiet _ _)
      (fun _ _ => .updated hsettled) h
  | updateDefault name value =>
    exact accounted_of_allOrNothing hsettled (AllOrNothing.updateDefault hquiet _ _)
      (fun _ _ => .updated hsettled) h
  | delete secret names logged =>
    obtain rfl : logged = true := haudited
    exact accounted_of_allOrNothing hsettled (AllOrNothing.deleteVariables hquiet _ _ _)
      (fun _ _ => .deleted hsettled) h
  | deleteDefaults names =>
    exact accounted_of_allOrNothing hsettled (AllOrNothing.deleteVariables hquiet _ _ _)
      (fun _ _ => .deleted hsettled) h
  | deleteFromSecrets requested =>
    obtain ⟨given, hwork, -⟩ := h.of_map
    rcases Batch.deleteFromSecrets hsettled hwork with ⟨-, -, rfl⟩ | ⟨-, -, rfl⟩
    · exact .refl _ hsettled
    · exact .batch hsettled requested
  | common => exact haudited.elim
  | addCommon name value => exact haudited.elim
  | addCommons values imported => exact haudited.elim
  | deleteCommons names => exact haudited.elim
  | restore values => exact haudited.elim

end Task

/-- **The audit trail of secured variables is exact.** However many tasks are performed one after the
other, and whatever they come to: each record is about a variable that its task asked for, in the
secret that the task's name for it stands for; what is created was not there before the task, and
what is updated or deleted was. Whoever replays all records on the names that there were in the
beginning has the names that there are in the end. -/
theorem Serial.records_exact {coordinator : Coordinator} {start finish : Shared}
    {performances : List Performance} (h : Serial coordinator start performances finish)
    (hsettled : start.Settled) (haudited : ∀ one ∈ performances, one.task.IsAudited) :
    (∀ one ∈ performances, ∃ left, one.after.records = one.before.records ++ left ∧
      ∀ record ∈ left, record.Fits (one.task.Asks coordinator) one.before.vault) ∧
    ∃ log, finish.records = start.records ++ log ∧ ∀ secret,
      finish.vault.names? secret = (start.vault.names? secret).map (Audit.replay secret log) := by
  induction h with
  | nil =>
    refine ⟨fun _ hnone => absurd hnone List.not_mem_nil, [], (List.append_nil _).symm, fun _ => ?_⟩
    exact Option.map_id'.symm
  | cons hperforms _ ih =>
    obtain ⟨hfirst, hmore⟩ := List.forall_mem_cons.mp haudited
    obtain ⟨hlater, left, hrecorded⟩ := Task.accounted hfirst hsettled hperforms
    obtain ⟨hfits, log, hlog, hreplay⟩ := ih hlater hmore
    refine ⟨List.forall_mem_cons.mpr ⟨⟨left, hrecorded.records, hrecorded.fits⟩, hfits⟩,
      left ++ log, ?_, fun secret => ?_⟩
    · rw [hlog, hrecorded.records, List.append_assoc]
    · rw [hreplay, hrecorded.names, Option.map_map]
      congr 1
      funext names
      exact (Audit.replay_append left log names).symm

/-- A variable is overwritten and another one is added, and then the first is deleted. -/
theorem Serial.records_exact_addThenDelete :
    ∃ performances finish,
      Serial (Coordinator.of default) ((Coordinator.of default).stocked "s" "x" "old") performances
        finish ∧
      performances.map Performance.task =
        [.add "s" (Dict.ofList [("x", "new"), ("y", "1")]) false,
          .deleteFromSecrets (Dict.ofList [("s", Names.ofList ["x"])])] ∧
      finish.records = [.secured "x" "s" .update, .secured "y" "s" .create,
        .secured "x" "s" .delete] ∧
      (∀ one ∈ performances, ∃ left, one.after.records = one.before.records ++ left ∧
        ∀ record ∈ left, record.Fits (one.task.Asks (Coordinator.of default)) one.before.vault) ∧
      ∀ secret, finish.vault.names? secret =
        (((Coordinator.of default).stocked "s" "x" "old").vault.names? secret).map
          (Audit.replay secret finish.records) := by
  let start : Shared := (Coordinator.of default).stocked "s" "x" "old"
  let add : Task := .add "s" (Dict.ofList [("x", "new"), ("y", "1")]) false
  let delete : Task := .deleteFromSecrets (Dict.ofList [("s", Names.ofList ["x"])])
  let between : Shared := { start with
    vault := (start.vault.merge "s" (Dict.ofList [("x", "new"), ("y", "1")])).2
    records := [.secured "x" "s" .update, .secured "y" "s" .create] }
  have hfirst : Performs false true start (add.work (Coordinator.of default))
      (.ok (.names (Names.ofList ["x", "y"]))) between := by
    refine .step .lock () .refl ⟨rfl, rfl⟩ ?_
    refine .step (.secrets (.read _)) _ .refl (.inl ⟨rfl, rfl⟩) ?_
    refine .step (.secrets (.add _ _ _)) _ .refl (.inl ⟨rfl, rfl⟩) ?_
    refine .step .unlock () .refl rfl ?_
    refine .step (.record _) () .refl rfl ?_
    refine .step (.record _) () .refl rfl ?_
    exact .refl _ _
  obtain ⟨second, finish, hsecond, hfinish⟩ : ∃ outcome finish,
      Performs false true between (delete.work (Coordinator.of default)) outcome finish ∧
      finish.records = [.secured "x" "s" .update, .secured "y" "s" .create,
        .secured "x" "s" .delete] := by
    refine ⟨?outcome, ?finish, ?performs, ?same⟩
    case performs =>
      refine .step .lock () .refl ⟨rfl, rfl⟩ ?_
      refine .step (.secrets (.list _)) _ .refl (.inl ⟨rfl, rfl⟩) ?_
      refine .step (.startRemoval _ _) _ .refl (.inl ⟨rfl, rfl⟩) ?_
      refine .step .now 0 .refl rfl ?_
      -- the removal comes while it is waited for
      refine .step (.awaitRemovals _ _) _ (.single ⟨rfl, 0, _, _, _, rfl, rfl, .inl rfl, rfl⟩)
        ⟨rfl, rfl, ?_⟩ ?_
      · intro removal hremoval
        obtain rfl := List.mem_singleton.mp hremoval
        rfl
      refine .step .unlock () .refl rfl ?_
      refine .step (.record _) () .refl rfl ?_
      exact .refl _ _
    case same => rfl
  have hserial := Serial.cons hfirst (.cons hsecond (.nil _))
  obtain ⟨hfits, log, hlog, hreplay⟩ :=
    Serial.records_exact hserial (fun _ hone => absurd hone List.not_mem_nil)
      (List.forall_mem_cons.mpr ⟨trivial, List.forall_mem_singleton.mpr trivial⟩)
  obtain rfl : finish.records = log := hlog
  exact ⟨_, finish, hserial, rfl, hfinish, hfits, hreplay⟩

end EngineCatalog
