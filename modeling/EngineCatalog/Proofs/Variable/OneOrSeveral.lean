import EngineCatalog.Proofs.Variable.NoTrace
import EngineCatalog.Proofs.Variable.Trial

/-!
# One common variable or several

A common variable can be written by itself, or among several that are written at once. The checks
come in different orders then, and the writes are different ones of the store. Main statement: it
does not matter which way a single variable goes. Both ways end alike, and leave the same behind
(`addCommon_as_addCommons`).

* `MayWrite` — no check has anything against a common variable.
* `withCommon` — what is left behind where a common variable was written.
-/

namespace EngineCatalog

open KeyValue (Store Write)

/-! ## Writes -/

namespace KeyValue.Store

/-- A transaction of one change writes what the change would write by itself. -/
theorem perform_transact_set (store : Store) {key : String} (h : isAbsolute key = true)
    (value : Text.Bytes) :
    store.perform (.transact [.set key value]) = store.perform (.put key value) := by
  have hrejections : rejections 0 [.set key value] = [] :=
    (rejections_eq_nil_iff 0 _).mpr (List.forall_mem_singleton.mpr h)
  rw [perform, perform, transact, put, write, if_pos h, hrejections]
  rfl

end KeyValue.Store

namespace Coordinator

variable (coordinator : Coordinator) (plan : Plan) (s : Trial) (name value : String)

/-! ## What is written, and when -/

/-- The names in the default secret, none where it is not there. -/
def securedNames (vault : Secret.Vault) : Names :=
  Names.ofKeys ((vault.read (coordinator.keeper.resolve coordinator.keeper.defaultName)).getD
    Dict.empty)

/-- A common variable may be written. -/
structure MayWrite : Prop where
  /-- the name is well-formed -/
  wellFormed : Variable.isWellFormed name = true
  /-- the default secret does not have it -/
  free : (coordinator.securedNames s.vault).contains name = false
  /-- its key can be written -/
  writable : isAbsolute (coordinator.catalog.layout.variableKey name) = true

/-- The write of a common variable. -/
def writing : Write :=
  .put (coordinator.catalog.layout.variableKey name) (Text.encode value)

/-- What is left behind where a common variable was written, with its value before. -/
def withCommon (found : Option String) : Trial :=
  { s with
    store := (s.store.perform (coordinator.writing name value)).2
    records := s.records ++ [.common name (if found = none then .create else .update)] }

end Coordinator

/-! ## Reads and checks -/

/-- Whatever is stored, the catalog finds something or nothing. -/
theorem Catalog.exists_finds (catalog : Catalog) (store : Store) (name : String) :
    ∃ found, catalog.Finds store name found := by
  cases hread : store.read (catalog.layout.variableKey name) false with
  | ok listing =>
    refine ⟨listing.entries.head?.map KeyValue.Entry.text, ?_⟩
    rw [Finds, findVariable, serve_readOr, hread]
  | error error =>
    refine ⟨none, ?_⟩
    rw [Finds, findVariable, serve_readOr, hread]
    rw [Store.read] at hread
    split at hread
    · cases hread
      rfl
    · cases hread

namespace Trial.Ends

variable {coordinator : Coordinator} (plan : Plan) {s : Trial} {name : String}
  {secured : Names} {found : Option String}

theorem data (secret : String) (s : Trial) :
    Ends plan s (Keeper.data secret false) (.ok ((s.vault.read secret).getD Dict.empty)) s := by
  have hread := Ends.call plan (Effect.secrets (.read secret)) id s
  change Ends plan s _ (.ok (s.vault.read secret)) s at hread
  cases hdata : s.vault.read secret with
  | none =>
    rw [hdata] at hread
    exact hread.bind (Ends.pure plan _ s)
  | some data =>
    rw [hdata] at hread
    exact hread.bind (Ends.pure plan data s)

theorem defaultNames (coordinator : Coordinator) (s : Trial) :
    Ends plan s (coordinator.defaultNames false) (.ok (coordinator.securedNames s.vault)) s :=
  Ends.locked ((Ends.data plan _ s).bind (Ends.pure plan _ s))

/-- A variable is checked that may be written. -/
theorem checkCommon (hformed : Variable.isWellFormed name = true)
    (hfree : secured.contains name = false)
    (hfound : coordinator.catalog.Finds s.store name found) (value : String) :
    Ends plan s (coordinator.checkCommon secured name value) (.ok ⟨name, value, found.isSome⟩) s := by
  have hblank : Variable.checkNotBlank .common name = .ok () := by
    rw [Variable.checkNotBlank, Variable.not_isBlank_of_isWellFormed hformed]
    rfl
  have hform : Variable.checkWellFormed name = .ok () := if_pos hformed
  rw [Coordinator.checkCommon, hfree, hblank, hform]
  exact (Ends.ofStore hfound).bind (Ends.pure plan _ s)

/-- The check of any other one fails. -/
theorem checkCommon_fails
    (h : ¬ (Variable.isWellFormed name = true ∧ secured.contains name = false))
    (coordinator : Coordinator) (s : Trial) (value : String) :
    ∃ error, Ends plan s (coordinator.checkCommon secured name value) (.error error) s := by
  rw [Coordinator.checkCommon]
  by_cases hsecured : secured.contains name = true
  · rw [if_pos hsecured]
    exact ⟨_, Ends.bind_error (Ends.fail plan _ s)⟩
  · have hform : Variable.checkWellFormed name = .error (.malformedName name) :=
      if_neg fun hformed => h ⟨hformed, Bool.eq_false_iff.mpr hsecured⟩
    rw [if_neg hsecured, hform]
    cases hblank : Variable.checkNotBlank .common name with
    | ok _ =>
      exact ⟨_, (Ends.ofOutcome plan (.ok ()) s).bind (Ends.bind_error (Ends.ofOutcome plan _ s))⟩
    | error error => exact ⟨_, Ends.bind_error (Ends.ofOutcome plan _ s)⟩

/-- Checking one variable is checking several of which there is one. -/
theorem checkCommons {value : String} {written : Coordinator.Written}
    (h : Ends plan s (coordinator.checkCommon secured name value) (.ok written) s) :
    Ends plan s (coordinator.checkCommons secured [(name, value)]) (.ok [written]) s :=
  h.bind ((Ends.pure plan [] s).bind (Ends.pure plan _ s))

end Trial.Ends

/-! ## Both ways -/

namespace Coordinator

variable {coordinator : Coordinator} (plan : Plan) {s : Trial} {name : String}
  {found : Option String}

/-- By itself a variable is written by a put. -/
theorem addCommon_ends (h : coordinator.MayWrite s name)
    (hfound : coordinator.catalog.Finds s.store name found) (value : String) :
    s.Ends plan (coordinator.addCommon name value) (.ok name)
      (coordinator.withCommon s name value found) := by
  have hform : Variable.checkWellFormed name = .ok () := if_pos h.wellFormed
  have haccepted : (coordinator.writing name value).IsAccepted := h.writable
  have hput : s.store.serve (coordinator.catalog.setVariable name value)
      = some (.ok (), (s.store.perform (coordinator.writing name value)).2) :=
    congrArg some (Prod.ext (Store.stored?_perform haccepted).1 rfl)
  rw [addCommon, hform]
  refine (Trial.Ends.ofOutcome plan (.ok ()) s).bind ?_
  refine (Trial.Ends.defaultNames plan coordinator s).bind ?_
  refine (Trial.Ends.checkCommon plan h.wellFormed h.free hfound value).bind ?_
  refine (Trial.Ends.ofStore hput).bind ?_
  refine (Trial.Ends.tell plan (Effect.record _) id _).bind ?_
  cases found <;> exact Trial.Ends.pure plan name _

/-- Among others it is written by a transaction, which is the same write if there are no others. -/
theorem addCommons_ends (h : coordinator.MayWrite s name)
    (hfound : coordinator.catalog.Finds s.store name found) (value : String) :
    s.Ends plan (coordinator.addCommons (Dict.ofList [(name, value)]) false)
      (.ok [⟨name, value, found.isSome⟩]) (coordinator.withCommon s name value found) := by
  have haccepted : (coordinator.writing name value).IsAccepted := h.writable
  have htransact : s.store.serve (coordinator.catalog.setVariables (Dict.ofList [(name, value)]))
      = some (.ok (), (s.store.perform (coordinator.writing name value)).2) := by
    have hsame := s.store.perform_transact_set h.writable (Text.encode value)
    exact congrArg some (hsame.trans (Prod.ext (Store.stored?_perform haccepted).1 rfl))
  have hcheck := Trial.Ends.checkCommon plan h.wellFormed h.free hfound value
  refine (Trial.Ends.defaultNames plan coordinator s).bind ?_
  refine (Trial.Ends.checkCommons plan hcheck).bind ?_
  refine (Trial.Ends.ofStore htransact).bind ?_
  refine (Trial.Ends.recordAll _ _).bind ?_
  cases found <;> exact Trial.Ends.pure plan _ _

theorem addCommon_fails (h : ¬ coordinator.MayWrite s name) (value : String) :
    ∃ error, s.Ends plan (coordinator.addCommon name value) (.error error) s := by
  rw [addCommon]
  by_cases hformed : Variable.isWellFormed name = true
  · have hform : Variable.checkWellFormed name = .ok () := if_pos hformed
    rw [hform]
    have hnames := Trial.Ends.defaultNames plan coordinator s
    by_cases hchecks : (coordinator.securedNames s.vault).contains name = false
    · obtain ⟨found, hfound⟩ := coordinator.catalog.exists_finds s.store name
      have hrefused : ¬ (coordinator.writing name value).IsAccepted :=
        fun hwritable => h ⟨hformed, hchecks, hwritable⟩
      obtain ⟨error, herror⟩ := s.store.perform_eq_of_not_isAccepted hrefused
      refine ⟨error, (Trial.Ends.ofOutcome plan (.ok ()) s).bind (hnames.bind ?_)⟩
      refine (Trial.Ends.checkCommon plan hformed hchecks hfound value).bind ?_
      exact Trial.Ends.bind_error (Trial.Ends.ofStore (congrArg some herror))
    · obtain ⟨error, herror⟩ := Trial.Ends.checkCommon_fails plan
        (fun hboth => hchecks hboth.2) coordinator s value
      exact ⟨error, (Trial.Ends.ofOutcome plan (.ok ()) s).bind
        (hnames.bind (Trial.Ends.bind_error herror))⟩
  · have hform : Variable.checkWellFormed name = .error (.malformedName name) := if_neg hformed
    rw [hform]
    exact ⟨_, Trial.Ends.bind_error (Trial.Ends.ofOutcome plan _ s)⟩

theorem addCommons_fails (h : ¬ coordinator.MayWrite s name) (value : String) :
    ∃ error, s.Ends plan (coordinator.addCommons (Dict.ofList [(name, value)]) false)
      (.error error) s := by
  have hnames := Trial.Ends.defaultNames plan coordinator s
  by_cases hchecks : Variable.isWellFormed name = true ∧
      (coordinator.securedNames s.vault).contains name = false
  · obtain ⟨found, hfound⟩ := coordinator.catalog.exists_finds s.store name
    have hcheck := Trial.Ends.checkCommon plan hchecks.1 hchecks.2 hfound value
    have hrefused : ¬ Write.IsAccepted (.transact
        [.set (coordinator.catalog.layout.variableKey name) (Text.encode value)]) :=
      fun hwritable => h ⟨hchecks.1, hchecks.2, hwritable _ List.mem_cons_self⟩
    obtain ⟨error, herror⟩ := s.store.perform_eq_of_not_isAccepted hrefused
    refine ⟨error, hnames.bind ((Trial.Ends.checkCommons plan hcheck).bind ?_)⟩
    exact Trial.Ends.bind_error (Trial.Ends.ofStore (congrArg some herror))
  · obtain ⟨error, herror⟩ := Trial.Ends.checkCommon_fails plan hchecks coordinator s value
    exact ⟨error, hnames.bind (Trial.Ends.bind_error (Trial.Ends.bind_error herror))⟩

/-- **One common variable or several.** Whatever is shared, a common variable is written by itself if
and only if it is written as the only one of several. Then both ways leave the same behind: both
stores, and one record which says whether it was there before. Otherwise neither changes anything. -/
theorem addCommon_as_addCommons (coordinator : Coordinator) (plan : Plan) (before : Trial)
    (name value : String) :
    (coordinator.MayWrite before name →
      ∃ found, coordinator.catalog.Finds before.store name found ∧
        before.Ends plan (coordinator.addCommon name value) (.ok name)
          (coordinator.withCommon before name value found) ∧
        before.Ends plan (coordinator.addCommons (Dict.ofList [(name, value)]) false)
          (.ok [⟨name, value, found.isSome⟩])
          (coordinator.withCommon before name value found)) ∧
      (¬ coordinator.MayWrite before name →
        ∃ error other,
          before.Ends plan (coordinator.addCommon name value) (.error error) before ∧
          before.Ends plan (coordinator.addCommons (Dict.ofList [(name, value)]) false)
            (.error other) before) := by
  constructor
  · intro h
    obtain ⟨found, hfound⟩ := coordinator.catalog.exists_finds before.store name
    exact ⟨found, hfound, addCommon_ends plan h hfound value, addCommons_ends plan h hfound value⟩
  · intro h
    obtain ⟨error, hone⟩ := addCommon_fails plan h value
    obtain ⟨other, hseveral⟩ := addCommons_fails plan h value
    exact ⟨error, other, hone, hseveral⟩

end Coordinator

end EngineCatalog
