import EngineCatalog.Proofs.Catalog.Existence
import EngineCatalog.Proofs.Concurrency.Alone
import EngineCatalog.Proofs.Retry.Drilled
import EngineCatalog.Proofs.Secret.Holds
import EngineCatalog.Proofs.Variable.Reach

/-!
# Restoring the default variables

An attempt to restore the default variables has three parts, each of which may fail: the default
secret is created if it is not there, it loses the variables of these names, and the common
variables are written. Whatever an attempt has left behind, the next one comes to the same as the
first one would have. Main statement: if only calls fail for which something passing is to blame,
restoring succeeds exactly if no call fails in one of the attempts that are allowed; then everything
is as after an attempt in which no call fails, and restoring once more changes nothing that can be
seen (`restore_converges`).

* `ensured`, `evicted`, `published`, `restored` — what the parts and the whole make of what is
  shared.
* `IsPart` — what is left behind by attempts that failed.
* `IsRestored` — what one sees after restoring, compared with what was there before.
* `IsDone` — nothing is left to restore; `Shared.Alike` — nothing differs that can be seen.
-/

namespace EngineCatalog

open KeyValue (Change Store Write)
open Secret (Data Label Stored Vault)

/-! ## What secrets hold -/

namespace Secret

/-- The names are taken out of what a secret holds. -/
def Data.without (data : Data) (names : Names) : Data :=
  data.filter fun name _ => !names.contains name

theorem Data.find?_without (data : Data) (names : Names) (name : String) :
    (data.without names).find? name
      = if names.contains name = true then none else data.find? name := by
  rw [Data.without, Dict.find?_filter]
  cases data.find? name <;> cases names.contains name <;> simp [Option.filter]

/-- Where none of the names is there, nothing is taken out. -/
theorem Data.without_eq_self {data : Data} {names : Names}
    (h : ∀ name, names.contains name = true → data.find? name = none) :
    data.without names = data := by
  apply Dict.ext_find?
  intro name
  rw [Data.find?_without]
  split
  · rename_i hname
    rw [h name hname]
  · rfl

namespace Vault

variable {vault : Vault} {name : String} {stored : Stored}

theorem find?_remove (h : vault.secrets.find? name = some stored) (names : Names) :
    (vault.remove name names).2.secrets.find? name
      = some { stored with data := stored.data.without names } := by
  rw [remove, modify, h]
  exact Dict.find?_insert_self _ _ _

/-- A removal of what is not there changes nothing. -/
theorem remove_eq_self {names : Names} (h : vault.secrets.find? name = some stored)
    (hdata : stored.data.without names = stored.data) : (vault.remove name names).2 = vault := by
  rw [remove, modify, h]
  change (⟨vault.secrets.insert name { stored with data := stored.data.without names }⟩ : Vault) = _
  refine congrArg Vault.mk (Dict.ext_find? fun other => ?_)
  rw [hdata, Dict.find?_insert]
  split
  · rename_i hother
    rw [← hother, h]
  · rfl

end Vault

end Secret

/-! ## What can be seen -/

/-- Nothing differs that can be seen. -/
structure Shared.Alike (a b : Shared) : Prop where
  /-- the secrets are the same -/
  vault : b.vault = a.vault
  /-- the lock is the same -/
  holder : b.holder = a.holder
  /-- no record is left -/
  records : b.records = a.records
  /-- all keys hold the same -/
  stored : ∀ key, b.store.stored? key = a.store.stored? key

theorem Shared.Alike.refl (a : Shared) : a.Alike a := ⟨rfl, rfl, rfl, fun _ => rfl⟩

theorem Shared.Alike.trans {a b c : Shared} (h : a.Alike b) (hbc : b.Alike c) : a.Alike c :=
  ⟨hbc.vault.trans h.vault, hbc.holder.trans h.holder, hbc.records.trans h.records,
    fun key => (hbc.stored key).trans (h.stored key)⟩

/-- To release a lock that nobody holds changes nothing. -/
theorem Shared.released {a : Shared} (h : a.holder = none) : { a with holder := none } = a := by
  rw [← h]

/-! ## Calls of secrets -/

namespace Keeper

variable (drill : Drill) {a : Shared} {name : String} {stored : Stored}

theorem tries_read (a : Shared) (name : String) :
    drill.Tries a (Work.secrets (.read name) id) (a.vault.read name) a fun x => x = a :=
  .secrets rfl rfl fun _ => rfl

/-- A secret that is there is read. -/
theorem tries_data (hstored : a.vault.secrets.find? name = some stored) (strict : Bool) :
    drill.Tries a (Keeper.data name strict) stored.data a fun x => x = a := by
  have hread := tries_read drill a name
  rw [Vault.read, hstored] at hread
  refine Drill.Tries.mono (hread.bind (Drill.Tries.pure drill stored.data a)) fun x hx => ?_
  exact hx.elim id False.elim

/-- Names are taken out of a secret that is there. -/
theorem tries_remove (hstored : a.vault.secrets.find? name = some stored) (names : Names) :
    drill.Tries a (Keeper.remove name names) (stored.data.without names)
      { a with vault := (a.vault.remove name names).2 } fun x => x = a := by
  have hdone : (a.vault.answer (.remove name names)).1 = .ok (stored.data.without names) := by
    rw [Vault.answer, Vault.remove, Vault.modify, hstored]
    rfl
  exact .secrets rfl hdone fun _ => rfl

end Keeper

namespace Coordinator

variable {coordinator : Coordinator} {values : Dict String} {a x : Shared}

/-! ## The parts of an attempt -/

/-- The default secret is there. -/
def HasDefault (coordinator : Coordinator) (shared : Shared) : Prop :=
  shared.vault.secrets.contains coordinator.keeper.defaultName = true

instance (coordinator : Coordinator) (shared : Shared) :
    Decidable (coordinator.HasDefault shared) :=
  inferInstanceAs (Decidable (_ = true))

/-- The default secret is created, if it is not there. -/
def ensured (coordinator : Coordinator) (shared : Shared) : Shared :=
  let keeper := coordinator.keeper
  if coordinator.HasDefault shared then shared
  else
    { shared with
      vault := ⟨shared.vault.secrets.insert keeper.defaultName ⟨keeper.label, Dict.empty⟩⟩
      records := shared.records ++ [.of .secret keeper.defaultName .create] }

/-- The default secret loses its variables of these names. -/
def evicted (coordinator : Coordinator) (values : Dict String) (shared : Shared) : Shared :=
  { shared with
    vault := (shared.vault.remove coordinator.keeper.defaultName (Names.ofKeys values)).2 }

/-- The write of common variables at once. -/
def publication (coordinator : Coordinator) (values : Dict String) : Write :=
  .transact (values.entries.map fun entry =>
    .set (coordinator.catalog.layout.variableKey entry.1) (Text.encode entry.2))

/-- The common variables are written. -/
def published (coordinator : Coordinator) (values : Dict String) (shared : Shared) : Shared :=
  { shared with store := (shared.store.perform (coordinator.publication values)).2 }

/-- What an attempt does in which no call fails. -/
def restored (coordinator : Coordinator) (values : Dict String) (shared : Shared) : Shared :=
  coordinator.published values (coordinator.evicted values (coordinator.ensured shared))

/-- What attempts leave behind of which none came to its end. -/
def IsPart (coordinator : Coordinator) (values : Dict String) (before shared : Shared) : Prop :=
  shared = before ∨ shared = coordinator.ensured before ∨
    shared = coordinator.evicted values (coordinator.ensured before)

/-! ## Parts that are done already -/

theorem ensured_of_hasDefault (h : coordinator.HasDefault a) : coordinator.ensured a = a :=
  if_pos h

theorem hasDefault_iff : coordinator.HasDefault a
    ↔ ∃ stored, a.vault.secrets.find? coordinator.keeper.defaultName = some stored :=
  Dict.contains_iff

theorem hasDefault_ensured (coordinator : Coordinator) (a : Shared) :
    coordinator.HasDefault (coordinator.ensured a) := by
  rw [ensured]
  split
  · assumption
  · exact hasDefault_iff.mpr ⟨_, Dict.find?_insert_self _ _ _⟩

theorem hasDefault_evicted (h : coordinator.HasDefault a) (values : Dict String) :
    coordinator.HasDefault (coordinator.evicted values a) := by
  obtain ⟨stored, hstored⟩ := hasDefault_iff.mp h
  exact hasDefault_iff.mpr ⟨_, Vault.find?_remove hstored _⟩

/-- None of the names is left in the default secret. -/
def IsEvicted (coordinator : Coordinator) (values : Dict String) (shared : Shared) : Prop :=
  ∃ stored, shared.vault.secrets.find? coordinator.keeper.defaultName = some stored ∧
    ∀ name, values.contains name = true → stored.data.find? name = none

theorem IsEvicted.hasDefault (h : coordinator.IsEvicted values a) : coordinator.HasDefault a :=
  hasDefault_iff.mpr (h.imp fun _ => And.left)

theorem isEvicted_evicted (h : coordinator.HasDefault a) :
    coordinator.IsEvicted values (coordinator.evicted values a) := by
  obtain ⟨stored, hstored⟩ := hasDefault_iff.mp h
  refine ⟨_, Vault.find?_remove hstored _, fun name hname => ?_⟩
  rw [Secret.Data.find?_without, Names.contains_ofKeys, if_pos hname]

theorem evicted_of_isEvicted (h : coordinator.IsEvicted values a) :
    coordinator.evicted values a = a := by
  obtain ⟨stored, hstored, hnone⟩ := h
  have hdata : stored.data.without (Names.ofKeys values) = stored.data := by
    refine Secret.Data.without_eq_self fun name hname => hnone name ?_
    rwa [Names.contains_ofKeys] at hname
  rw [evicted, Vault.remove_eq_self hstored hdata]

/-- From whatever was left behind, an attempt does the same as from the beginning. -/
theorem IsPart.restored_eq (h : coordinator.IsPart values a x) :
    coordinator.restored values x = coordinator.restored values a := by
  have hensured := coordinator.hasDefault_ensured a
  rcases h with rfl | rfl | rfl
  · rfl
  · rw [restored, ensured_of_hasDefault hensured]
    rfl
  · rw [restored, ensured_of_hasDefault (hasDefault_evicted hensured values),
      evicted_of_isEvicted (isEvicted_evicted hensured)]
    rfl

/-- What attempts leave behind that went on from such a thing is such a thing, too. -/
theorem IsPart.trans {y : Shared} (h : coordinator.IsPart values a x)
    (hy : coordinator.IsPart values x y) : coordinator.IsPart values a y := by
  have hensured := coordinator.hasDefault_ensured a
  rcases h with rfl | rfl | rfl
  · exact hy
  · rw [IsPart, ensured_of_hasDefault hensured] at hy
    rcases hy with rfl | rfl | rfl
    · exact .inr (.inl rfl)
    · exact .inr (.inl rfl)
    · exact .inr (.inr rfl)
  · rw [IsPart, ensured_of_hasDefault (hasDefault_evicted hensured values),
      evicted_of_isEvicted (isEvicted_evicted hensured)] at hy
    rcases hy with rfl | rfl | rfl <;> exact .inr (.inr rfl)

theorem holder_ensured (coordinator : Coordinator) (a : Shared) :
    (coordinator.ensured a).holder = a.holder := by
  rw [ensured]
  split <;> rfl

/-- Whatever was left behind, the lock is as it was. -/
theorem IsPart.holder (h : coordinator.IsPart values a x) : x.holder = a.holder := by
  rcases h with rfl | rfl | rfl
  · rfl
  · exact coordinator.holder_ensured a
  · exact coordinator.holder_ensured a

/-- Nothing is left to be done by an attempt. -/
structure IsDone (coordinator : Coordinator) (values : Dict String) (shared : Shared) : Prop where
  /-- none of the names is left in the default secret -/
  evicted : coordinator.IsEvicted values shared
  /-- the common variables are written -/
  stored : ∀ name value, values.find? name = some value →
    shared.store.stored? (coordinator.catalog.layout.variableKey name)
      = some (some (Text.encode value))

namespace IsDone

theorem of_alike (h : coordinator.IsDone values a) (hax : a.Alike x) :
    coordinator.IsDone values x where
  evicted := by
    rw [IsEvicted, hax.vault]
    exact h.evicted
  stored name value hvalue := by rw [hax.stored, h.stored name value hvalue]

theorem evicted_ensured (h : coordinator.IsDone values a) :
    coordinator.evicted values (coordinator.ensured a) = a := by
  rw [ensured_of_hasDefault h.evicted.hasDefault, evicted_of_isEvicted h.evicted]

theorem eq_of_isPart (h : coordinator.IsDone values a) (hx : coordinator.IsPart values a x) :
    x = a := by
  rw [IsPart, h.evicted_ensured, ensured_of_hasDefault h.evicted.hasDefault] at hx
  exact hx.elim id fun hmore => hmore.elim id id

end IsDone

/-! ## Attempts -/

section Attempts

variable (drill : Drill)

/-- The default secret is created, or nothing is done. -/
theorem tries_create (coordinator : Coordinator) (a : Shared) :
    ∃ created, drill.Tries a (coordinator.keeper.create coordinator.keeper.defaultName) created
      (coordinator.ensured a) fun x => x = a := by
  let keeper := coordinator.keeper
  have hread := Keeper.tries_read drill a keeper.defaultName
  by_cases h : coordinator.HasDefault a
  · obtain ⟨stored, hstored⟩ := hasDefault_iff.mp h
    rw [Vault.read, hstored] at hread
    rw [ensured_of_hasDefault h]
    refine ⟨false, Drill.Tries.mono (hread.bind (Drill.Tries.pure drill false a)) fun x hx => ?_⟩
    exact hx.elim id False.elim
  · rw [Vault.read, Option.not_isSome_iff_eq_none.mp h] at hread
    let vault : Vault :=
      ⟨a.vault.secrets.insert keeper.defaultName ⟨keeper.label, Dict.empty⟩⟩
    have hcreate : drill.Tries a
        (Work.secrets (.create keeper.defaultName keeper.label Dict.empty) id) ()
        { a with vault := vault } fun x => x = a := .secrets (if_neg h) rfl fun _ => rfl
    have hrecord := Drill.Tries.record drill (.of .secret keeper.defaultName .create)
      { a with vault := vault }
    rw [ensured, if_neg h]
    refine ⟨true, Drill.Tries.mono (hread.bind (hcreate.bind (hrecord.bind
      (Drill.Tries.pure drill true _)))) fun x hx => ?_⟩
    rcases hx with hx | hx | hx | hx
    · exact hx
    · exact hx
    · cases hx
    · cases hx

/-- The default secret loses the variables of these names, or nothing is done. -/
theorem tries_deleteVariables (h : coordinator.HasDefault a) (hfree : a.holder = none)
    (values : Dict String) :
    drill.Tries a
      (coordinator.deleteVariables coordinator.keeper.defaultName (Names.ofKeys values) false) ()
      (coordinator.evicted values a) fun x => x = a := by
  obtain ⟨stored, hstored⟩ := hasDefault_iff.mp h
  by_cases hnone : (Names.ofKeys values).isEmpty = true
  · have hsame : coordinator.evicted values a = a := by
      refine evicted_of_isEvicted ⟨stored, hstored, fun name hname => ?_⟩
      have hempty := Dict.isEmpty_iff.mp hnone name
      rw [Names.contains_ofKeys, hname] at hempty
      cases hempty
    rw [deleteVariables, if_pos hnone, hsame]
    exact (Drill.Tries.pure drill () a).mono fun _ => False.elim
  · let held : Shared := { a with holder := some 0 }
    have hdata := Keeper.tries_data (a := held) drill hstored true
    have hremove := Keeper.tries_remove (a := held) drill hstored (Names.ofKeys values)
    have hinner : drill.Tries held (do
        let current ← Keeper.data coordinator.keeper.defaultName true
        let _ ← Keeper.remove coordinator.keeper.defaultName (Names.ofKeys values)
        return current) stored.data { coordinator.evicted values a with holder := some 0 }
        fun x => x = held :=
      Drill.Tries.mono (hdata.bind (hremove.bind (Drill.Tries.pure drill stored.data _)))
        fun x hx => hx.elim id fun hmore => hmore.elim id False.elim
    have hafter : { coordinator.evicted values a with holder := none }
        = coordinator.evicted values a := Shared.released hfree
    rw [deleteVariables, if_neg hnone, Keeper.resolve_defaultName, ← hafter]
    refine Drill.Tries.mono (hinner.locked.bind (Drill.Tries.pure drill () _)) fun x hx => ?_
    rcases hx with ⟨y, rfl, rfl⟩ | hx
    · exact Shared.released hfree
    · cases hx

end Attempts

/-! ## What is seen afterwards -/

/-- What one sees after restoring, compared with what was there before. -/
structure IsRestored (coordinator : Coordinator) (values : Dict String) (before after : Shared) :
    Prop where
  /-- the default secret holds what it held, without these names; if it was not there, it is empty
  and carries the label of the catalog -/
  default : after.vault.secrets.find? coordinator.keeper.defaultName
    = some (match before.vault.secrets.find? coordinator.keeper.defaultName with
      | some stored => { stored with data := stored.data.without (Names.ofKeys values) }
      | none => ⟨coordinator.keeper.label, Dict.empty⟩)
  /-- all other secrets are as they were -/
  secrets : ∀ name, name ≠ coordinator.keeper.defaultName →
    after.vault.secrets.find? name = before.vault.secrets.find? name
  /-- the common variables are what they were, with these put in -/
  common : ∃ found, before.store.serve coordinator.catalog.allVariables
      = some (.ok found, before.store) ∧
    after.store.serve coordinator.catalog.allVariables
      = some (.ok (found.union values), after.store)
  /-- all other keys hold what they held -/
  others : ∀ key, (∀ name, values.contains name = true →
      coordinator.catalog.layout.variableKey name ≠ key) →
    after.store.stored? key = before.store.stored? key
  /-- one record is left if the default secret was not there, and else none -/
  records : after.records = before.records ++
    if coordinator.HasDefault before then []
    else [.of .secret coordinator.keeper.defaultName .create]

/-- Keys of which none is that of a new variable hold what they held. -/
theorem stored?_published_of_ne {key : String}
    (hkey : ∀ name, values.contains name = true →
      coordinator.catalog.layout.variableKey name ≠ key) (a : Shared) :
    (coordinator.published values a).store.stored? key = a.store.stored? key := by
  refine Store.stored?_perform_of_not_touches ?_
  rintro ⟨change, hchange, rfl⟩
  obtain ⟨entry, hentry, rfl⟩ := List.mem_map.mp hchange
  exact hkey entry.1 (Dict.contains_of_find? (Dict.mem_entries_iff.mp hentry)) rfl

/-- The first two parts leave the store as it was. -/
theorem store_evicted_ensured (coordinator : Coordinator) (values : Dict String) (a : Shared) :
    (coordinator.evicted values (coordinator.ensured a)).store = a.store := by
  rw [evicted, ensured]
  split <;> rfl

/-! ## Where the variables can be written -/

section Writable

variable (hwritable : coordinator.catalog.layout.IsWritable)
  (hnames : ∀ name, values.contains name = true → Variable.isWellFormed name = true)

include hwritable hnames

/-- The common variables can be written. -/
theorem isAccepted_publication : (coordinator.publication values).IsAccepted := by
  intro change hchange
  obtain ⟨entry, hentry, rfl⟩ := List.mem_map.mp hchange
  have hname := hnames entry.1 (Dict.contains_of_find? (Dict.mem_entries_iff.mp hentry))
  exact isAbsolute_child hwritable.commonVariables (Variable.isSegment_of_isWellFormed hname)

/-- The common variables are written, or nothing is done. -/
theorem tries_addUnlogged (drill : Drill) (a : Shared) :
    drill.Tries a (coordinator.addUnlogged values) () (coordinator.published values a)
      fun x => x = a := by
  have hdone := (a.store.stored?_perform (isAccepted_publication hwritable hnames)).1
  exact .store rfl hdone fun _ => rfl

/-- An attempt does the whole or a part. -/
theorem tries_restoreOnce (drill : Drill) (hfree : a.holder = none) :
    drill.Tries a (coordinator.restoreOnce values) () (coordinator.restored values a)
      (coordinator.IsPart values a) := by
  obtain ⟨created, hcreate⟩ := coordinator.tries_create drill a
  have hhas := coordinator.hasDefault_ensured a
  have hholder := (coordinator.holder_ensured a).trans hfree
  have hdelete := tries_deleteVariables drill hhas hholder values
  have hwrite := tries_addUnlogged hwritable hnames drill
    (coordinator.evicted values (coordinator.ensured a))
  exact Drill.Tries.mono (hcreate.bind (hdelete.bind hwrite)) fun _ => id

/-- The keys of variables hold the new values, if there are any, and else what they held. -/
theorem stored?_published (a : Shared) (name : String) :
    (coordinator.published values a).store.stored? (coordinator.catalog.layout.variableKey name)
      = ((values.find? name).map fun value => some (Text.encode value)).or
          (a.store.stored? (coordinator.catalog.layout.variableKey name)) := by
  rw [published, (Store.stored?_perform (isAccepted_publication hwritable hnames)).2, publication,
    Write.leaves, Change.foldl_leaves_set_eq (variableKey_injective coordinator.catalog.layout),
    Dict.find?_entries_reverse]

/-- The new variables are put into those that are listed. -/
theorem valuesOf_restored (a : Shared) :
    Catalog.valuesOf (some coordinator.catalog.layout.commonVariables)
        ((coordinator.restored values a).store.queryEntries
          coordinator.catalog.layout.commonVariables true)
      = (Catalog.valuesOf (some coordinator.catalog.layout.commonVariables)
          (a.store.queryEntries coordinator.catalog.layout.commonVariables true)).union values := by
  refine Dict.ext_find? fun name => ?_
  have hstored := stored?_published hwritable hnames
    (coordinator.evicted values (coordinator.ensured a)) name
  rw [store_evicted_ensured] at hstored
  rw [Dict.find?_union, find?_valuesOf, find?_valuesOf]
  change (if _ then ((coordinator.restored values a).store.stored?
    (coordinator.catalog.layout.variableKey name)).map _ else none) = _
  rw [restored, hstored]
  cases hvalue : values.find? name with
  | none => rfl
  | some value =>
    have hsegment := Variable.isSegment_of_isWellFormed
      (hnames name (Dict.contains_of_find? hvalue))
    rw [if_pos hsegment]
    exact congrArg some (Text.decodeLossy_encode value)

/-- An attempt in which no call fails restores the variables. -/
theorem isRestored_restored (a : Shared) :
    coordinator.IsRestored values a (coordinator.restored values a) where
  default := by
    change (coordinator.evicted values (coordinator.ensured a)).vault.secrets.find? _ = _
    cases hfind : a.vault.secrets.find? coordinator.keeper.defaultName with
    | some stored =>
      rw [ensured_of_hasDefault (hasDefault_iff.mpr ⟨stored, hfind⟩)]
      exact Vault.find?_remove hfind _
    | none =>
      have hnone : ¬ coordinator.HasDefault a := by
        rw [hasDefault_iff, hfind]
        exact nofun
      rw [ensured, if_neg hnone]
      exact Vault.find?_remove (Dict.find?_insert_self _ _ _) _
  secrets name hname := by
    change (Vault.remove _ _ _).2.secrets.find? name = _
    rw [Vault.remove, Vault.find?_modify hname.symm, ensured]
    split
    · rfl
    · exact Dict.find?_insert_ne hname.symm
  common := by
    refine ⟨_, Catalog.serve_variablesUnder _ _, ?_⟩
    rw [← valuesOf_restored hwritable hnames]
    exact Catalog.serve_variablesUnder _ _
  others key hkey := by
    rw [restored, stored?_published_of_ne hkey, store_evicted_ensured]
  records := by
    change (coordinator.ensured a).records = _
    rw [ensured]
    split
    · exact (List.append_nil _).symm
    · rfl

/-- After an attempt in which no call fails, nothing is left. -/
theorem isDone_restored (a : Shared) :
    coordinator.IsDone values (coordinator.restored values a) where
  evicted := isEvicted_evicted (a := coordinator.ensured a) (coordinator.hasDefault_ensured a)
  stored name value hvalue := by
    rw [restored, stored?_published hwritable hnames, hvalue]
    rfl

/-- One more attempt changes nothing that can be seen. -/
theorem IsDone.alike_restored (h : coordinator.IsDone values a) :
    a.Alike (coordinator.restored values a) := by
  rw [restored, h.evicted_ensured]
  refine ⟨rfl, rfl, rfl, fun key => ?_⟩
  by_cases hkey : ∃ name, values.contains name = true ∧
      coordinator.catalog.layout.variableKey name = key
  · obtain ⟨name, hname, rfl⟩ := hkey
    obtain ⟨value, hvalue⟩ := Dict.contains_iff.mp hname
    rw [stored?_published hwritable hnames, hvalue, h.stored name value hvalue]
    rfl
  · exact stored?_published_of_ne (fun name hname heq => hkey ⟨name, hname, heq⟩) a

/-- Where nothing is left to restore, an attempt does nothing that can be seen. -/
theorem IsDone.tries_restoreOnce (h : coordinator.IsDone values a) (drill : Drill)
    (hfree : a.holder = none) (hax : a.Alike x) :
    ∃ y, a.Alike y ∧ drill.Tries x (coordinator.restoreOnce values) () y a.Alike := by
  have hx := h.of_alike hax
  refine ⟨_, hax.trans (hx.alike_restored hwritable hnames),
    (Coordinator.tries_restoreOnce hwritable hnames drill ?_).mono fun y hy => ?_⟩
  · rw [hax.holder, hfree]
  · rw [hx.eq_of_isPart hy]
    exact hax

end Writable

/-- **Restoring converges, and retries do not show.** Where the lock is free, whatever is stored and
whatever the secrets hold: if only calls fail for which something passing is to blame, restoring
ends well exactly if, in one of the attempts that are allowed, no call fails. Then the default
secret is there without the variables of these names, the common variables have the new values,
nothing else has changed, and the only record is that the default secret was created, if it was not
there. To restore once more, whichever calls fail then, changes nothing that can be seen. -/
theorem restore_converges (coordinator : Coordinator)
    (hwritable : coordinator.catalog.layout.IsWritable) {values : Dict String}
    (hnames : ∀ name, values.contains name = true → Variable.isWellFormed name = true)
    (drill : Drill) (htransient : drill.IsTransient) (s : Stand) (hfree : s.shared.holder = none) :
    ∃ outcome t, drill.Ends s (coordinator.restoreDefaults values) outcome t ∧
      (outcome = .ok () ↔ ∃ k, k < coordinator.restorePolicy.attempts ∧
        drill.SparesAttempt coordinator.restorePolicy (coordinator.restoreOnce values) 0 k s) ∧
      (outcome = .ok () → coordinator.IsRestored values s.shared t.shared ∧
        ∀ (again : Drill) (u : Stand), u.shared = t.shared →
          ∃ outcome v, again.Ends u (coordinator.restoreDefaults values) outcome v ∧
            u.shared.Alike v.shared) := by
  have htries : ∀ x, coordinator.IsPart values s.shared x →
      ∃ y, y = coordinator.restored values s.shared ∧
        drill.Tries x (coordinator.restoreOnce values) () y
          (coordinator.IsPart values s.shared) := by
    intro x hx
    refine ⟨_, hx.restored_eq,
      (tries_restoreOnce hwritable hnames drill ?_).mono fun y => hx.trans⟩
    rw [hx.holder, hfree]
  obtain ⟨outcome, t, hends, hwhole, -, hiff⟩ :=
    Drill.ends_run coordinator.restorePolicy htries (.inl rfl)
  refine ⟨outcome, t, hends, hiff htransient, fun hok => ?_⟩
  have ht := hwhole hok
  refine ⟨ht ▸ isRestored_restored hwritable hnames s.shared, fun again u hu => ?_⟩
  have hdone : coordinator.IsDone values u.shared := by
    rw [hu, ht]
    exact isDone_restored hwritable hnames s.shared
  have hstill : u.shared.holder = none := by
    rw [hu, ht]
    exact (coordinator.holder_ensured s.shared).trans hfree
  obtain ⟨later, v, hagain, hsame, hcases, -⟩ :=
    Drill.ends_run coordinator.restorePolicy
      (fun x => hdone.tries_restoreOnce hwritable hnames again hstill)
      (Shared.Alike.refl u.shared)
  exact ⟨later, v, hagain, hcases.elim hsame id⟩

/-- The third call fails, as the connection is down. -/
def interrupted : Drill :=
  ⟨fun n => if n = 2 then some (.transport "down") else none, fun _ => 0⟩

/-- With the usual settings, where nothing is stored and the first attempt gets no further than the
default secret, the second one restores a variable, and one record is left. -/
theorem restore_converges_interrupted :
    (Coordinator.of default).catalog.layout.IsWritable ∧
      (∀ name, (Dict.ofList [("region", "north")]).contains name = true →
        Variable.isWellFormed name = true) ∧
      interrupted.IsTransient ∧
      ∃ after, interrupted.Ends ⟨Shared.fresh, 0, 0, 0⟩
          ((Coordinator.of default).restoreDefaults (Dict.ofList [("region", "north")])) (.ok ())
          after ∧
        (Coordinator.of default).IsRestored (Dict.ofList [("region", "north")]) Shared.fresh
          after.shared ∧
        after.shared.records
          = [.of .secret (Coordinator.of default).keeper.defaultName .create] := by
  have hwritable : (Coordinator.of default).catalog.layout.IsWritable := Layout.isWritable_usual
  have hnames : ∀ name, (Dict.ofList [("region", "north")]).contains name = true →
      Variable.isWellFormed name = true := by
    intro name hname
    obtain rfl : name = "region" := List.mem_singleton.mp (Dict.contains_ofList.mp hname)
    decide
  have htransient : interrupted.IsTransient := by
    intro n error hfails
    obtain ⟨-, heq⟩ := Option.ite_none_right_eq_some.mp hfails
    obtain rfl := Option.some.inj heq
    rfl
  have hspared : interrupted.SparesAttempt (Coordinator.of default).restorePolicy
      ((Coordinator.of default).restoreOnce (Dict.ofList [("region", "north")])) 0 1
      ⟨Shared.fresh, 0, 0, 0⟩ :=
    ⟨⟨(Coordinator.of default).ensured Shared.fresh, 1000, 3, 1⟩, .ok (), _, rfl, rfl,
      fun n hfirst _ => if_neg (Nat.ne_of_gt hfirst)⟩
  obtain ⟨outcome, after, hends, hiff, hthen⟩ :=
    restore_converges (Coordinator.of default) hwritable hnames interrupted htransient
      ⟨Shared.fresh, 0, 0, 0⟩ rfl
  obtain rfl : outcome = .ok () := hiff.mpr ⟨1, by decide, hspared⟩
  have hrestored := (hthen rfl).1
  exact ⟨hwritable, hnames, htransient, after, hends, hrestored, hrestored.records⟩

end Coordinator

end EngineCatalog
