import EngineCatalog.Proofs.Variable.Permit
import EngineCatalog.Proofs.Layout.Key

/-!
# Operations on variables keep to their permits

Each operation of the coordinator asks only for what its permit allows, whatever it is answered.
What an operation may ever write is a hypothesis on the rights: names are added to the default
secret only if none of them is blank, and made common only if they can be written as keys. That a
name is free is no hypothesis: the operation finds out.
-/

namespace EngineCatalog

open KeyValue (Listing)
open Secret (Data)

variable {coordinator : Coordinator} {rights : Rights} {permit : Permit}
variable {α : Type}

/-! ## Calls of the key-value store -/

/-- The outcome of a read that may find nothing. -/
def Catalog.readOutcome (nothing : α) (use : Listing → Outcome α) : Outcome Listing → Outcome α
  | .ok listing => use listing
  | .error error => if error.isNotFound then .ok nothing else .error error

/-- A read that may find nothing is one call of the store. -/
theorem Catalog.ofStore_readOr (nothing : α) (path : String) (all : Bool)
    (use : Listing → Outcome α) :
    Work.ofStore (Catalog.readOr nothing path all use)
      = .call (σ := effects) (Effect.store (.read path all)) (readOutcome nothing use) := by
  refine congrArg (Program.ask (σ := effects) (Effect.store (.read path all)))
    (funext fun answer => ?_)
  cases answer with
  | ok listing => rfl
  | error error =>
    change Program.lift (σ := KeyValue.keyValue) (τ := effects) Effect.store
        (fun _ answer => answer)
        (ExceptT.run (if error.isNotFound then Pure.pure nothing else Operation.fail error))
      = .done (readOutcome nothing use (.error error))
    rw [readOutcome]
    split <;> rfl

namespace Keeps

theorem recordAll (records : List Audit.Record) :
    Keeps coordinator rights permit (Coordinator.recordAll records)
      fun _ later => later = permit := by
  induction records with
  | nil => exact Keeps.pure rfl
  | cons record more ih =>
    refine Keeps.bind (Keeps.tell trivial rfl fun _ _ => ?_)
    exact ih

/-- What is recorded after all is done does not matter. -/
theorem records_then (records : List Audit.Record) (result : α) :
    Keeps coordinator rights permit (do Coordinator.recordAll records; Pure.pure result)
      fun _ _ => True :=
  Keeps.andThen (Keeps.recordAll records) fun _ _ _ _ => Keeps.pure trivial

theorem data (secret : String) (strict : Bool) :
    Keeps coordinator rights permit (Keeper.data secret strict) fun data later =>
      later = if permit.knows coordinator secret then permit.seeSecured rights data
        else permit := by
  refine Keeps.bind (Keeps.call (fun _ hputs => hputs.elim) rfl ?_)
  intro answer found hanswer _
  obtain rfl : answer = .ok found := hanswer
  cases found with
  | some data => exact Keeps.pure rfl
  | none =>
    cases strict with
    | true => exact Keeps.fail _
    | false => exact Keeps.pure rfl

/-! ## Calls of the key-value store -/

theorem ofStore_allVariables :
    Keeps coordinator rights permit (Work.ofStore coordinator.catalog.allVariables)
      fun common later =>
        later = if permit.held then permit.seeCommon rights common else permit := by
  rw [Catalog.allVariables, Catalog.variablesUnder, Catalog.ofStore_readOr]
  refine Keeps.call (fun _ _ hcreates => hcreates.elim) rfl ?_
  intro answer common hanswer
  have hshown : Permit.shown? coordinator answer = some common := by
    cases answer with
    | ok listing =>
      obtain rfl := Except.ok.inj hanswer
      rfl
    | error error =>
      rw [Catalog.readOutcome] at hanswer
      rw [Permit.shown?]
      split at hanswer
      · rename_i hfound
        obtain rfl := Except.ok.inj hanswer
        rw [if_pos hfound]
      · cases hanswer
  simp only [Permit.next, Permit.nextStore, hshown, Bool.and_true, decide_true]
  rfl

theorem ofStore_setVariable {name value : String}
    (h : isAbsolute (coordinator.catalog.layout.variableKey name) = true →
      isSegment name.toList = true → name ∈ permit.common) :
    Keeps coordinator rights permit (Work.ofStore (coordinator.catalog.setVariable name value))
      fun _ later => later = permit := by
  have hallows : permit.Allows coordinator false
      (.store (.put (coordinator.catalog.layout.variableKey name) (Text.encode value))) := by
    rintro key found ⟨habsolute, rfl⟩ hchild
    obtain ⟨hsegment, rfl⟩ := childKey?_variableKey.mp hchild
    exact h habsolute hsegment
  exact Keeps.call hallows rfl fun _ _ _ => rfl

theorem ofStore_setVariables {values : Dict String}
    (h : (∀ name, values.contains name = true →
        isAbsolute (coordinator.catalog.layout.variableKey name) = true) →
      ∀ name, values.contains name = true → isSegment name.toList = true →
        name ∈ permit.common) :
    Keeps coordinator rights permit (Work.ofStore (coordinator.catalog.setVariables values))
      fun _ later => later = permit := by
  have hallows : permit.Allows coordinator false
      (.store (.transact (values.entries.map fun entry =>
        .set (coordinator.catalog.layout.variableKey entry.1) (Text.encode entry.2)))) := by
    rintro key found ⟨habsolute, value, hset⟩ hchild
    obtain ⟨⟨name, text⟩, hmem, heq⟩ := List.mem_map.mp hset
    obtain ⟨rfl, -⟩ := KeyValue.Change.set.inj heq
    obtain ⟨hsegment, rfl⟩ := childKey?_variableKey.mp hchild
    refine h ?_ _ (Dict.contains_of_find? (Dict.mem_entries_iff.mp hmem)) hsegment
    intro other hother
    obtain ⟨text, hfind⟩ := Dict.contains_iff.mp hother
    exact habsolute _ (List.mem_map.mpr ⟨_, Dict.mem_entries_iff.mpr hfind, rfl⟩)
  exact Keeps.call hallows rfl fun _ _ _ => rfl

theorem ofStore_deleteVariables (names : List String) :
    Keeps coordinator rights permit (Work.ofStore (coordinator.catalog.deleteVariables names))
      fun _ later => later = permit := by
  have hallows : permit.Allows coordinator false
      (.store (.transact (names.map fun name =>
        .delete (coordinator.catalog.layout.variableKey name)))) := by
    rintro key found ⟨-, value, hset⟩
    obtain ⟨name, -, heq⟩ := List.mem_map.mp hset
    cases heq
  exact Keeps.call hallows rfl fun _ _ _ => rfl

/-! ## Secured variables -/

theorem checkCollision {current : Data} {added : Dict String} :
    Keeps coordinator rights permit (coordinator.checkCollision current added)
      fun _ later => ∃ common,
        later = (if permit.held then permit.seeCommon rights common else permit) ∧
        ∀ name, added.contains name = true → common.contains name = false := by
  refine Keeps.andThen ofStore_allVariables ?_
  intro common later _ hlater
  cases hcollision : Coordinator.collision? common current added with
  | some name => exact Keeps.fail _
  | none =>
    refine Keeps.pure ⟨common, hlater, fun name hname => ?_⟩
    rw [Coordinator.collision?, List.find?_eq_none] at hcollision
    rw [← Bool.not_eq_true]
    intro hcommon
    refine hcollision name (Dict.mem_keys_iff.mpr hcommon) ?_
    rw [hname, Bool.or_true]

theorem checkEach {check : String → Outcome Unit} {names : List String}
    (h : Coordinator.checkEach check names = .ok ()) : ∀ name ∈ names, check name = .ok () := by
  induction names with
  | nil => exact nofun
  | cons name more ih =>
    rw [Coordinator.checkEach] at h
    split at h
    · rename_i hname
      intro other hmem
      rcases List.mem_cons.mp hmem with rfl | hmem
      · exact hname
      · exact ih h other hmem
    · cases h

theorem not_isBlank_of_check {kind : VariableKind} {name : String}
    (h : Variable.checkNotBlank kind name = .ok ()) : Text.isBlank name = false := by
  rw [Variable.checkNotBlank] at h
  split at h
  · cases h
  · rename_i hblank
    exact Bool.not_eq_true _ ▸ hblank

theorem add {secret : String} {values : Data} {initial : Bool}
    (h : coordinator.keeper.isDefault secret = true →
      ∀ name, values.contains name = true → name ∈ permit.secured) :
    Keeps coordinator rights permit (Keeper.add secret values initial)
      fun _ later => later = permit := by
  have hallows : permit.Allows coordinator false (.secrets (.add secret values initial)) := by
    rintro name ⟨rfl, hname⟩
    exact h (decide_eq_true rfl) name hname
  exact Keeps.call hallows rfl fun _ _ _ => rfl

/-- Variables are added to the default secret only if no common variable has their names: between
the check and the write nobody else can make them common without the lock. -/
theorem addVariables (hfree : permit.held = false) {secret : String} {values : Dict String}
    {imported : Bool}
    (hrights : coordinator.keeper.isDefault (coordinator.keeper.resolve secret) = true →
      (∀ name, values.contains name = true → Text.isBlank name = false) →
      ∀ name, values.contains name = true → name ∈ rights.secures) :
    Keeps coordinator rights permit (coordinator.addVariables secret values imported)
      fun _ _ => True := by
  rw [Coordinator.addVariables]
  split
  · exact Keeps.pure trivial
  · refine Keeps.bind (Keeps.locked hfree (Keeps.andThen (Keeps.data _ true) ?_))
    intro current later hheld hlater
    dsimp only
    split
    · rename_i hdefault
      rw [if_pos ((Permit.knows_iff rfl).mpr hdefault)] at hlater
      subst hlater
      -- the check of the common variables turns what is fresh into what may be added
      refine Keeps.andThen checkCollision ?_
      rintro - later - ⟨common, rfl, hfresh⟩
      refine Keeps.bind (Keeps.ofOutcome fun _ hcheck _ => ?_)
      refine Keeps.andThen (Keeps.add fun _ name hname => ?_) ?_
      · have hblank : ∀ other, values.contains other = true → Text.isBlank other = false :=
          fun other hother => not_isBlank_of_check
            (checkEach hcheck other (Dict.mem_keys_iff.mpr hother))
        exact .inr ⟨hrights hdefault hblank name hname, hfresh name hname⟩
      · intro _ _ _ _
        exact Keeps.pure fun _ => Keeps.records_then _ _
    · -- another secret has no part in the namespace
      rename_i hdefault
      refine Keeps.bind (Keeps.ofOutcome fun _ _ _ => ?_)
      refine Keeps.andThen (Keeps.add fun hother => absurd hother hdefault) ?_
      intro _ _ _ _
      exact Keeps.pure fun _ => Keeps.records_then _ _

theorem contains_of_checkPresent {secret : String} {current : Data} {name : String}
    (h : Coordinator.checkPresent secret current name = .ok ()) :
    current.contains name = true := by
  rw [Coordinator.checkPresent] at h
  cases hcheck : Variable.checkNotBlank .secured name with
  | error error =>
    rw [hcheck] at h
    cases h
  | ok _ =>
    rw [hcheck] at h
    change (if current.contains name then Pure.pure () else throw _ : Outcome Unit) = .ok () at h
    split at h
    · rename_i hname
      exact hname
    · cases h

theorem update {secret : String} {values : Data}
    (h : coordinator.keeper.isDefault secret = true →
      ∀ name, values.contains name = true → name ∈ permit.secured) :
    Keeps coordinator rights permit (Keeper.update secret values)
      fun _ later => later = permit := by
  have hallows : permit.Allows coordinator false (.secrets (.update secret values)) := by
    rintro name ⟨rfl, hname⟩
    exact h (decide_eq_true rfl) name hname
  exact Keeps.call hallows rfl fun _ _ _ => rfl

/-- An update overwrites only names that the secret has: it brings in none. -/
theorem updateVariables (hfree : permit.held = false) {secret : String}
    {values : Dict (Option String)} :
    Keeps coordinator rights permit (coordinator.updateVariables secret values)
      fun _ _ => True := by
  rw [Coordinator.updateVariables]
  refine Keeps.bind (Keeps.locked hfree (Keeps.andThen (Keeps.data _ true) ?_))
  intro current later hheld hlater
  refine Keeps.bind (Keeps.ofOutcome fun _ hcheck _ => ?_)
  refine Keeps.andThen (Keeps.update fun hdefault name hname => ?_) ?_
  · -- each name was found present before, under the same lock
    rw [if_pos ((Permit.knows_iff rfl).mpr hdefault)] at hlater
    subst hlater
    rw [Dict.contains_map] at hname
    exact contains_of_checkPresent (checkEach hcheck name (Dict.mem_keys_iff.mpr hname))
  · intro _ _ _ _
    exact Keeps.pure fun _ => Keeps.records_then _ _

theorem updateDefault (hfree : permit.held = false) (name : String) (value : Option String) :
    Keeps coordinator rights permit (coordinator.updateDefault name value) fun _ _ => True :=
  Keeps.andThen (Keeps.updateVariables hfree) fun _ _ _ _ => Keeps.pure trivial

theorem remove {secret : String} {keys : Names} :
    Keeps coordinator rights permit (Keeper.remove secret keys)
      fun _ later => later = if permit.knows coordinator secret then
        permit.seeRemoved rights keys else permit := by
  refine Keeps.call (fun _ hputs => hputs.elim) rfl ?_
  intro answer rest hanswer
  obtain rfl : answer = .ok rest := hanswer
  rfl

/-- What is deleted from the default secret may be made common. -/
theorem deleteVariables (hfree : permit.held = false) {secret : String} {names : Names}
    {logged : Bool} :
    Keeps coordinator rights permit (coordinator.deleteVariables secret names logged)
      fun _ later =>
        coordinator.keeper.isDefault (coordinator.keeper.resolve secret) = true →
        ∀ name ∈ rights.publishes, names.contains name = true → name ∈ later.common := by
  rw [Coordinator.deleteVariables]
  split
  · -- of no names, none is removed
    rename_i hnone
    refine Keeps.pure fun _ name _ hname => ?_
    exact absurd hnone (Dict.not_isEmpty_of_contains hname)
  · refine Keeps.bind (Keeps.locked hfree (Keeps.andThen (Keeps.data _ true) ?_))
    intro current later hheld hlater
    refine Keeps.andThen Keeps.remove ?_
    intro _ final _ hfinal
    refine Keeps.pure fun _ => ?_
    have hknown : coordinator.keeper.isDefault (coordinator.keeper.resolve secret) = true →
        ∀ name ∈ rights.publishes, names.contains name = true → name ∈ final.common := by
      intro hdefault name hright hname
      have hlocked : later.held = true := hheld
      rw [if_pos ((Permit.knows_iff hlocked).mpr hdefault)] at hfinal
      subst hfinal
      exact .inr ⟨hright, hname⟩
    split
    · refine Keeps.mono (Keeps.recordAll _) ?_
      rintro - later - rfl
      exact hknown
    · exact Keeps.pure hknown

theorem allNames (hfree : permit.held = false) :
    Keeps coordinator rights permit coordinator.allNames fun _ _ => True := by
  refine Keeps.locked hfree (Keeps.bind (Keeps.call (fun _ hputs => hputs.elim) rfl ?_))
  intro _ _ _ _
  exact Keeps.pure trivial

/-- A name that the default secret is seen not to have may be made common. -/
theorem names (hfree : permit.held = false) (secret : String) (strict : Bool) :
    Keeps coordinator rights permit (coordinator.names secret strict) fun names later =>
      coordinator.keeper.isDefault (coordinator.keeper.resolve secret) = true →
      ∀ name ∈ rights.publishes, names.contains name = false → name ∈ later.common := by
  refine Keeps.locked hfree (Keeps.andThen (Keeps.data _ strict) ?_)
  intro data later _ hlater
  refine Keeps.pure fun hdefault name hright hname => ?_
  rw [if_pos ((Permit.knows_iff rfl).mpr hdefault)] at hlater
  subst hlater
  rw [Names.contains_ofKeys] at hname
  exact ⟨hright, hname⟩

theorem issue (all : Dict Data) (issued : Coordinator.Issued)
    (targets : List (String × Names)) :
    Keeps coordinator rights permit (Coordinator.issue all issued targets)
      fun _ _ => True := by
  induction targets generalizing issued permit with
  | nil => exact Keeps.pure trivial
  | cons target more ih =>
    obtain ⟨secret, names⟩ := target
    rw [Coordinator.issue]
    split
    · have hstart : Keeps coordinator rights permit (Keeper.startRemoval secret names)
          fun _ _ => True :=
        Keeps.bind (Keeps.call trivial rfl fun _ _ _ _ => Keeps.pure trivial)
      refine Keeps.andThen (Keeps.attempt hstart) ?_
      intro started later _ _
      cases started with
      | ok pending => exact ih _
      | error error => exact ih _
    · exact ih _

theorem deadline :
    Keeps coordinator rights permit coordinator.deadline fun _ _ => True := by
  rw [Coordinator.deadline]
  split
  · exact Keeps.pure trivial
  · exact Keeps.bind (Keeps.tell trivial rfl fun _ _ => Keeps.pure trivial)

theorem deleteFromSecrets (hfree : permit.held = false) (requested : Dict Names) :
    Keeps coordinator rights permit (coordinator.deleteFromSecrets requested)
      fun _ _ => True := by
  rw [Coordinator.deleteFromSecrets]
  split
  · exact Keeps.pure trivial
  · refine Keeps.bind (Keeps.locked hfree (Keeps.bind
      (Keeps.call (fun _ hputs => hputs.elim) rfl ?_)))
    intro _ _ _ _
    refine Keeps.andThen (Keeps.issue _ _ _) fun _ _ _ _ => ?_
    refine Keeps.andThen Keeps.deadline fun _ _ _ _ => ?_
    refine Keeps.bind (Keeps.tell trivial rfl fun _ _ => ?_)
    refine Keeps.pure fun _ => ?_
    refine Keeps.andThen (Keeps.recordAll _) fun _ _ _ _ => ?_
    dsimp only
    split
    · exact Keeps.fail _
    · exact Keeps.pure trivial

/-! ## Common variables -/

theorem common :
    Keeps coordinator rights permit coordinator.common fun _ _ => True :=
  Keeps.mono ofStore_allVariables fun _ _ _ _ => trivial

theorem isWellFormed_of_check {name : String} (h : Variable.checkWellFormed name = .ok ()) :
    Variable.isWellFormed name = true := by
  rw [Variable.checkWellFormed] at h
  split at h
  · rename_i hname
    exact hname
  · cases h

theorem ofStore_findVariable (name : String) :
    Keeps coordinator rights permit (Work.ofStore (coordinator.catalog.findVariable name))
      fun _ later => later = permit := by
  rw [Catalog.findVariable, Catalog.ofStore_readOr]
  refine Keeps.call (fun _ _ hcreates => hcreates.elim) rfl fun _ _ _ => ?_
  rw [Permit.next, Permit.nextStore, Bool.and_false]
  rfl

theorem checkCommon {secured : Names} {name value : String} :
    Keeps coordinator rights permit (coordinator.checkCommon secured name value)
      fun _ later => later = permit ∧ secured.contains name = false ∧
        Variable.isWellFormed name = true := by
  rw [Coordinator.checkCommon]
  dsimp only
  split
  · exact Keeps.bind (Keeps.fail _)
  · rename_i hfree
    refine Keeps.bind (Keeps.ofOutcome fun _ _ _ => ?_)
    refine Keeps.bind (Keeps.ofOutcome fun _ hcheck _ => ?_)
    refine Keeps.andThen (ofStore_findVariable name) ?_
    rintro - later - rfl
    exact Keeps.pure ⟨rfl, Bool.not_eq_true _ ▸ hfree, isWellFormed_of_check hcheck⟩

theorem checkCommons {secured : Names} {values : List (String × String)} :
    Keeps coordinator rights permit (coordinator.checkCommons secured values)
      fun _ later => later = permit ∧ ∀ entry ∈ values, secured.contains entry.1 = false ∧
        Variable.isWellFormed entry.1 = true := by
  induction values with
  | nil => exact Keeps.pure ⟨rfl, nofun⟩
  | cons entry more ih =>
    refine Keeps.andThen checkCommon ?_
    rintro - later - ⟨rfl, hentry⟩
    refine Keeps.andThen ih ?_
    rintro - later - ⟨rfl, hmore⟩
    refine Keeps.pure ⟨rfl, fun other hmem => ?_⟩
    rcases List.mem_cons.mp hmem with rfl | hmem
    · exact hentry
    · exact hmore other hmem

theorem isDefault_resolve (keeper : Keeper) :
    keeper.isDefault (keeper.resolve keeper.defaultName) = true := by
  rw [Keeper.resolve, Keeper.isDefault]
  split <;> exact decide_eq_true rfl

/-- A common variable is written only if the default secret was seen without its name. The lock is
released by then. -/
theorem addCommon (hfree : permit.held = false) {name value : String}
    (hrights : Variable.isWellFormed name = true →
      isAbsolute (coordinator.catalog.layout.variableKey name) = true →
      name ∈ rights.publishes) :
    Keeps coordinator rights permit (coordinator.addCommon name value) fun _ _ => True := by
  refine Keeps.bind (Keeps.ofOutcome fun _ hcheck _ => ?_)
  refine Keeps.andThen (Keeps.names hfree _ _) ?_
  intro secured later hheld hlater
  refine Keeps.andThen checkCommon ?_
  rintro written later - ⟨rfl, habsent, hformed⟩
  refine Keeps.andThen (ofStore_setVariable fun habsolute _ => ?_) ?_
  · exact hlater (isDefault_resolve _) name (hrights hformed habsolute) habsent
  · rintro - later - rfl
    exact Keeps.bind (Keeps.tell trivial rfl fun _ _ => Keeps.pure trivial)

theorem addCommons (hfree : permit.held = false) {values : Dict String} {imported : Bool}
    (hrights : (∀ name, values.contains name = true → Variable.isWellFormed name = true ∧
        isAbsolute (coordinator.catalog.layout.variableKey name) = true) →
      ∀ name, values.contains name = true → name ∈ rights.publishes) :
    Keeps coordinator rights permit (coordinator.addCommons values imported)
      fun _ _ => True := by
  rw [Coordinator.addCommons]
  split
  · exact Keeps.pure trivial
  · refine Keeps.andThen (Keeps.names hfree _ _) ?_
    intro secured later hheld hlater
    refine Keeps.andThen checkCommons ?_
    rintro written later - ⟨rfl, hchecked⟩
    have hentry : ∀ name, values.contains name = true →
        secured.contains name = false ∧ Variable.isWellFormed name = true := by
      intro name hname
      obtain ⟨value, hvalue⟩ := Dict.contains_iff.mp hname
      exact hchecked (name, value) (Dict.mem_entries_iff.mpr hvalue)
    refine Keeps.andThen (ofStore_setVariables fun habsolute name hname _ => ?_) ?_
    · exact hlater (isDefault_resolve _) name
        (hrights (fun other hother => ⟨(hentry other hother).2, habsolute other hother⟩)
          name hname) (hentry name hname).1
    · rintro - later - rfl
      exact Keeps.records_then _ _

theorem deleteCommons (names : List String) :
    Keeps coordinator rights permit (coordinator.deleteCommons names) fun _ _ => True := by
  refine Keeps.andThen (ofStore_deleteVariables names) fun _ _ _ _ => ?_
  exact Keeps.mono (Keeps.recordAll _) fun _ _ _ _ => trivial

/-! ## Default variables -/

theorem create (secret : String) :
    Keeps coordinator rights permit (coordinator.keeper.create secret)
      fun _ _ => True := by
  refine Keeps.bind (Keeps.call (fun _ hputs => hputs.elim) rfl ?_)
  intro _ found _ _
  cases found with
  | some data => exact Keeps.pure trivial
  | none =>
    -- the secret that is created is empty
    have hallows : ∀ later : Permit, later.Allows coordinator false
        (.secrets (.create secret coordinator.keeper.label Dict.empty)) := by
      rintro later name ⟨-, hname⟩
      cases hname
    refine Keeps.bind (Keeps.call (hallows _) rfl fun _ _ _ _ => ?_)
    exact Keeps.bind (Keeps.tell trivial rfl fun _ _ => Keeps.pure trivial)

/-- What is made common was taken out of the default secret before. The lock is released by then. -/
theorem restoreOnce (hfree : permit.held = false) {values : Dict String}
    (hrights : (∀ name, values.contains name = true →
        isAbsolute (coordinator.catalog.layout.variableKey name) = true) →
      ∀ name, values.contains name = true → isSegment name.toList = true →
        name ∈ rights.publishes) :
    Keeps coordinator rights permit (coordinator.restoreOnce values) fun _ _ => True := by
  refine Keeps.andThen (Keeps.create _) fun _ later hheld _ => ?_
  refine Keeps.andThen (Keeps.deleteVariables (hheld.trans hfree)) ?_
  intro _ final _ hcommon
  refine Keeps.mono (ofStore_setVariables fun habsolute name hname hsegment => ?_)
    fun _ _ _ _ => trivial
  -- every name was removed from the default secret before
  refine hcommon (isDefault_resolve _) name (hrights habsolute name hname hsegment) ?_
  rw [Names.contains_ofKeys]
  exact hname

end Keeps

/-! ## Retries -/

/-- Retries ask for nothing but what the attempts ask for. -/
theorem Covers.loop {policy : BackoffPolicy} {attempt : Program effects (Outcome α)}
    (h : ∀ permit : Permit, permit.held = false →
      Covers coordinator rights false permit attempt fun _ later => later.held = false)
    (attempts delay : Nat) (last : Error) (hfree : permit.held = false) :
    Covers coordinator rights true permit (Retry.loop policy attempt attempts delay last)
      fun _ later => later.held = false := by
  induction attempts generalizing permit delay last with
  | zero => exact hfree
  | succ more ih =>
    rw [Retry.loop]
    have hattempt : ∀ moment, Covers coordinator rights true permit
        (Work.within moment false attempt) fun _ later => later.held = false := fun _ =>
      Covers.within hfree (h permit hfree) (fun _ _ hlater => hlater) fun _ hlater => hlater
    refine Covers.bind ⟨trivial, fun moment => Covers.bind (Covers.mono (hattempt _) ?_)⟩
    intro outcome later hlater
    cases Retry.judge policy outcome with
    | ok outcome => exact hlater
    | error error =>
      -- another attempt after a pause, if one is left
      change Covers coordinator rights true later (if more = 0 then .done (.error error)
        else (Retry.pause delay).bind fun _ =>
          Retry.loop policy attempt more (Retry.nextDelay policy delay) error) _
      split
      · exact hlater
      · exact ⟨trivial, fun _ => ⟨trivial, fun _ => ih _ _ hlater⟩⟩

end EngineCatalog
