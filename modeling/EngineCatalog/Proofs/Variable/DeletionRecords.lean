import EngineCatalog.Proofs.Variable.NoTrace
import EngineCatalog.Proofs.Variable.Trial

/-!
# Records of deleted common variables

Common variables are deleted whether or not they are there, and each name that is listed leaves a
record. Main statement: so nothing is deleted without a record, but the records are truthful only
where every name is that of a variable, and is listed once (`deleteCommons_truthful_iff`).

* `Catalog.HasVariable` — there is a common variable of this name.
* `TruthfulDeletions` — there is one record for each variable that was deleted, and no other record.
-/

namespace EngineCatalog

open KeyValue (Change Store Write)

/-! ## Variables that are there -/

namespace Catalog

variable {catalog : Catalog} {store : Store} {name : String}

/-- There is a common variable of this name. -/
def HasVariable (catalog : Catalog) (store : Store) (name : String) : Prop :=
  ∃ value, catalog.Finds store name (some value)

/-- A variable is there if its key is. -/
theorem hasVariable_iff :
    catalog.HasVariable store name
      ↔ (store.stored? (catalog.layout.variableKey name)).isSome = true := by
  cases hstored : store.stored? (catalog.layout.variableKey name) with
  | none =>
    refine ⟨fun ⟨value, hvalue⟩ => ?_, nofun⟩
    have hnone : catalog.Finds store name none := serve_findVariable_of_none hstored
    rw [Finds, hvalue] at hnone
    cases hnone
  | some stored =>
    refine ⟨fun _ => rfl, fun _ => ?_⟩
    obtain ⟨modified, hone⟩ := queryEntries_of_some hstored
    refine ⟨(KeyValue.Entry.mk (catalog.layout.variableKey name) stored modified).text, ?_⟩
    rw [Finds, findVariable, serve_readOr, Store.read, hone, Store.query, hone]
    rfl

end Catalog

/-! ## What a deletion leaves behind -/

namespace Coordinator

variable {coordinator : Coordinator} {names : List String}

/-- The write that deletes common variables. -/
def deletion (coordinator : Coordinator) (names : List String) : Write :=
  .transact (names.map fun name => .delete (coordinator.catalog.layout.variableKey name))

/-- The records that are left for deleted common variables. -/
def commonDeletions (names : List String) : List Audit.Record :=
  names.map fun name => .common name .delete

/-- What is left behind where common variables were deleted. -/
def withoutCommons (coordinator : Coordinator) (s : Trial) (names : List String) : Trial :=
  { s with
    store := (s.store.perform (coordinator.deletion names)).2
    records := s.records ++ commonDeletions names }

theorem deleteCommons_ends (plan : Plan) (s : Trial) (h : (coordinator.deletion names).IsAccepted) :
    s.Ends plan (coordinator.deleteCommons names) (.ok ())
      (coordinator.withoutCommons s names) := by
  have hdelete : s.store.serve (coordinator.catalog.deleteVariables names)
      = some (.ok (), (s.store.perform (coordinator.deletion names)).2) :=
    congrArg some (Prod.ext (Store.stored?_perform h).1 rfl)
  exact (Trial.Ends.ofStore hdelete).bind (Trial.Ends.recordAll _ _)

theorem deleteCommons_fails (plan : Plan) (s : Trial)
    (h : ¬ (coordinator.deletion names).IsAccepted) :
    ∃ error, s.Ends plan (coordinator.deleteCommons names) (.error error) s := by
  obtain ⟨error, herror⟩ := s.store.perform_eq_of_not_isAccepted h
  exact ⟨error, Trial.Ends.bind_error (Trial.Ends.ofStore (congrArg some herror))⟩

/-- What was listed is not there any more, and the rest is as it was. -/
theorem hasVariable_withoutCommons (h : (coordinator.deletion names).IsAccepted) (s : Trial)
    (name : String) :
    coordinator.catalog.HasVariable (coordinator.withoutCommons s names).store name
      ↔ coordinator.catalog.HasVariable s.store name ∧ name ∉ names := by
  rw [Catalog.hasVariable_iff, Catalog.hasVariable_iff, withoutCommons,
    (Store.stored?_perform h).2, deletion, Write.leaves,
    Change.foldl_leaves_delete (variableKey_injective coordinator.catalog.layout)]
  by_cases hname : name ∈ names <;> simp [hname]

end Coordinator

/-! ## Which records are truthful -/

/-- Where these names were listed, there is one record for each variable that was there, and no other
record. -/
structure TruthfulDeletions (catalog : Catalog) (before : Store) (names : List String)
    (records : List Audit.Record) : Prop where
  /-- no deletion is on record twice -/
  once : records.Nodup
  /-- what is on record are the variables that were there -/
  mem_iff : ∀ record, record ∈ records ↔
    ∃ name ∈ names, catalog.HasVariable before name ∧ record = .common name .delete

namespace Coordinator

variable {coordinator : Coordinator} {names : List String}

theorem mem_commonDeletions {record : Audit.Record} :
    record ∈ commonDeletions names ↔ ∃ name ∈ names, record = .common name .delete := by
  simp only [commonDeletions, List.mem_map, eq_comm]

/-- The records are truthful if every name is that of a variable, and is listed once. -/
theorem truthful_commonDeletions_iff {catalog : Catalog} {before : Store} :
    TruthfulDeletions catalog before names (commonDeletions names)
      ↔ names.Nodup ∧ ∀ name ∈ names, catalog.HasVariable before name := by
  have hinjective : Function.Injective fun name : String => Audit.Record.common name .delete :=
    fun _ _ heq => congrArg Audit.Record.name heq
  constructor
  · rintro ⟨honce, hmem⟩
    refine ⟨(List.nodup_map_iff hinjective).mp honce, fun name hname => ?_⟩
    obtain ⟨other, -, hthere, heq⟩ := (hmem _).mp (mem_commonDeletions.mpr ⟨name, hname, rfl⟩)
    rwa [hinjective heq]
  · rintro ⟨honce, hthere⟩
    refine ⟨honce.map hinjective, fun record => mem_commonDeletions.trans ?_⟩
    exact exists_congr fun name => and_congr_right fun hname =>
      ⟨fun heq => ⟨hthere name hname, heq⟩, And.right⟩

/-- **Records of deleted common variables.** Whatever is shared, the listed variables are gone if all
their keys can be written, and the others stay; every variable that is gone is on record. The records
are truthful if every name is that of a variable and is listed once, and only then. Where a key
cannot be written, nothing is changed. -/
theorem deleteCommons_truthful_iff (coordinator : Coordinator) (plan : Plan) (before : Trial)
    (names : List String) :
    ((coordinator.deletion names).IsAccepted →
      ∃ after left, before.Ends plan (coordinator.deleteCommons names) (.ok ()) after ∧
        (∀ name, coordinator.catalog.HasVariable after.store name
          ↔ coordinator.catalog.HasVariable before.store name ∧ name ∉ names) ∧
        after.records = before.records ++ left ∧
        (∀ name, coordinator.catalog.HasVariable before.store name →
          ¬ coordinator.catalog.HasVariable after.store name → .common name .delete ∈ left) ∧
        (TruthfulDeletions coordinator.catalog before.store names left
          ↔ names.Nodup ∧ ∀ name ∈ names, coordinator.catalog.HasVariable before.store name)) ∧
      (¬ (coordinator.deletion names).IsAccepted →
        ∃ error, before.Ends plan (coordinator.deleteCommons names) (.error error) before) := by
  refine ⟨fun h => ?_, deleteCommons_fails plan before⟩
  have hgone := hasVariable_withoutCommons h before
  refine ⟨_, commonDeletions names, deleteCommons_ends plan before h, hgone, rfl,
    fun name hthere hafter => ?_, truthful_commonDeletions_iff⟩
  have hname : name ∈ names := by
    by_contra hother
    exact hafter ((hgone name).mpr ⟨hthere, hother⟩)
  exact mem_commonDeletions.mpr ⟨name, hname, rfl⟩

/-- Nothing is stored, and yet the deletion of a variable is on record. -/
theorem deletion_recorded_of_missing :
    ∃ after, (Trial.opening 0 (Store.fresh Store.usualLimit) .empty).Ends (fun _ => .done 0)
        ((Coordinator.of default).deleteCommons ["ghost"]) (.ok ()) after ∧
      after.records = [.common "ghost" .delete] ∧
      ¬ (Coordinator.of default).catalog.HasVariable (Store.fresh Store.usualLimit) "ghost" ∧
      ¬ TruthfulDeletions (Coordinator.of default).catalog (Store.fresh Store.usualLimit) ["ghost"]
        after.records := by
  have haccepted : ((Coordinator.of default).deletion ["ghost"]).IsAccepted :=
    List.forall_mem_singleton.mpr (by decide)
  have hnone : ¬ (Coordinator.of default).catalog.HasVariable (Store.fresh Store.usualLimit)
      "ghost" := Catalog.hasVariable_iff.not.mpr (by decide)
  refine ⟨_, deleteCommons_ends _ _ haccepted, rfl, hnone, fun htruthful => ?_⟩
  exact hnone ((truthful_commonDeletions_iff.mp htruthful).2 "ghost" List.mem_cons_self)

end Coordinator

end EngineCatalog
