import EngineCatalog.Proofs.Variable.Guarded
import EngineCatalog.Proofs.Variable.Task

/-!
# What tasks can write

The rights of a task are no more than it needs: where the default secret is there and empty, no key
is there, and nobody holds the lock, a task that puts names into the default secret can put all of
its names there (`Task.secures_runs`), and one that makes names common comes to the point where all
that is left is to write them (`Task.publishes_runs`).

* `Does` — an operation by itself comes to a result.
* `Open` — nothing is in the way of any task.
* `Publishing` — the next call of a program makes a name common, whatever has happened before.
-/

namespace EngineCatalog

open KeyValue (Store)
open Secret (Data Vault)

/-! ## Operations by themselves -/

/-- The operation, by itself, can come to a result. -/
def Does (faulty : Bool) (job : Nat) {α : Type} (before : Shared) (work : Work α) (result : α)
    (after : Shared) : Prop :=
  Runs faulty job work.run before (.done (.ok result)) after

namespace Does

variable {faulty : Bool} {job : Nat} {α β : Type} {s t u : Shared} {work : Work α} {result : α}

theorem pure (result : α) (s : Shared) : Does faulty job s (Pure.pure result) result s :=
  .refl _ _

theorem ofOutcome {outcome : Outcome α} (h : outcome = .ok result) (s : Shared) :
    Does faulty job s (.ofOutcome outcome) result s := by
  subst h
  exact .refl _ _

/-- What comes after an operation begins with its result. -/
theorem runs_bind {f : α → Work β} {program : Program effects (Outcome β)}
    (h : Does faulty job s work result t)
    (hf : Runs faulty job (f result).run t program u) :
    Runs faulty job (work >>= f).run s program u :=
  Runs.bind_done h hf

theorem bind {f : α → Work β} {final : β} (h : Does faulty job s work result t)
    (hf : Does faulty job t (f result) final u) : Does faulty job s (work >>= f) final u :=
  h.runs_bind hf

theorem call {effect : Effect} {outcome : effect.Answer → Outcome α} (answer : effect.Answer)
    (hanswers : Answers faulty job effect s answer t) (hresult : outcome answer = .ok result) :
    Does faulty job s (.call (σ := effects) effect outcome) result t := by
  refine .step effect answer hanswers ?_
  rw [hresult]
  exact .refl _ _

theorem locked (hfree : s.holder = none)
    (h : Does faulty job { s with holder := some job } work result t) :
    Does faulty job s (Work.locked work) result { t with holder := none } := by
  refine .step .lock () ⟨hfree, rfl⟩ (Runs.bind_done h ?_)
  exact .step .unlock () rfl (.refl _ _)

theorem recordAll (records : List Audit.Record) (s : Shared) :
    Does faulty job s (Coordinator.recordAll records) ()
      { s with records := s.records ++ records } := by
  induction records generalizing s with
  | nil =>
    rw [List.append_nil]
    exact Does.pure () s
  | cons record more ih =>
    have hrest := ih { s with records := s.records ++ [record] }
    rw [List.append_assoc] at hrest
    exact .step (.record record) () rfl hrest

/-- A secret that is there is read. -/
theorem data {secret : String} {data : Data} (h : s.vault.read secret = some data)
    (strict : Bool) : Does faulty job s (Keeper.data secret strict) data s := by
  have hread : Does faulty job s (Work.secrets (.read secret) id) (some data) s :=
    Does.call (.ok (s.vault.read secret)) (.inl ⟨rfl, rfl⟩) (congrArg Except.ok h)
  exact hread.bind (Does.pure data s)

/-- The default secret is not created again. -/
theorem create {keeper : Keeper} {secret : String} {data : Data}
    (h : s.vault.read secret = some data) : Does faulty job s (keeper.create secret) false s := by
  have hread : Does faulty job s (Work.secrets (.read secret) id) (some data) s :=
    Does.call (.ok (s.vault.read secret)) (.inl ⟨rfl, rfl⟩) (congrArg Except.ok h)
  exact hread.bind (Does.pure false s)

/-- A call that changes the secrets does so. -/
theorem secrets {call : Secret.Call} {answer : call.Answer} {vault : Vault}
    {outcome : call.Answer → Outcome α} (h : s.vault.answer call = (answer, vault))
    (hresult : outcome answer = .ok result) :
    Does faulty job s (Work.secrets call outcome) result { s with vault := vault } := by
  refine Does.call answer (.inl ?_) hresult
  rw [h]
  exact ⟨rfl, rfl⟩

/-- Something is added to a secret that is there. -/
theorem add {secret : String} {data : Data} (h : s.vault.read secret = some data)
    (values : Data) (initial : Bool) :
    ∃ vault, Does faulty job s (Keeper.add secret values initial) (data.union values)
        { s with vault := vault } ∧
      vault.read secret = some (data.union values) := by
  obtain ⟨vault, hmerge, hafter⟩ := Vault.modify_of_read h fun data => data.union values
  exact ⟨vault, Does.secrets hmerge rfl, hafter⟩

/-- Nothing but what is left is in a secret from which something is removed. -/
theorem remove {secret : String} {data : Data} (h : s.vault.read secret = some data)
    (keys : Names) :
    ∃ vault, Does faulty job s (Keeper.remove secret keys)
        (data.filter fun key _ => !keys.contains key) { s with vault := vault } ∧
      vault.read secret = some (data.filter fun key _ => !keys.contains key) := by
  obtain ⟨vault, hremove, hafter⟩ :=
    Vault.modify_of_read h fun data => data.filter fun key _ => !keys.contains key
  exact ⟨vault, Does.secrets hremove rfl, hafter⟩

/-- Names are read with the lock held, which is free again afterwards. -/
theorem names {coordinator : Coordinator} {secret : String} {data : Data}
    (hfree : s.holder = none)
    (h : s.vault.read (coordinator.keeper.resolve secret) = some data) (strict : Bool) :
    Does faulty job s (coordinator.names secret strict) (Names.ofKeys data) s := by
  let held : Shared := { s with holder := some job }
  have hlocked : Does faulty job s (coordinator.names secret strict) (Names.ofKeys data)
      { held with holder := none } :=
    Does.locked hfree (Does.bind (Does.data (s := held) h strict) (Does.pure _ held))
  rw [← hfree] at hlocked
  exact hlocked

/-- Where no key is there, there is no common variable. -/
theorem allVariables {coordinator : Coordinator} (h : s.store.entries = Dict.empty) :
    Does faulty job s (Work.ofStore coordinator.catalog.allVariables) Dict.empty s := by
  have hread : s.store.read coordinator.catalog.layout.commonVariables true
      = .error (.notFound coordinator.catalog.layout.commonVariables) := by
    rw [Store.read, Store.queryEntries, h]
    rfl
  rw [Catalog.allVariables, Catalog.variablesUnder, Catalog.ofStore_readOr]
  exact Does.call (.error (.notFound _)) (.inl ⟨hread.symm, rfl⟩) rfl

theorem checkEach {check : String → Outcome Unit} {names : List String}
    (h : ∀ name ∈ names, check name = .ok ()) : Coordinator.checkEach check names = .ok () := by
  induction names with
  | nil => rfl
  | cons name more ih =>
    rw [Coordinator.checkEach, h name List.mem_cons_self]
    exact ih fun other hother => h other (List.mem_cons_of_mem _ hother)

/-- Variables are added to a secret that is there, if none of them collides. -/
theorem addVariables {coordinator : Coordinator} {secret : String} {values : Dict String}
    {data : Data} (imported : Bool) (hfree : s.holder = none)
    (hread : s.vault.read (coordinator.keeper.resolve secret) = some data)
    (hcollision : coordinator.keeper.isDefault (coordinator.keeper.resolve secret) = true →
      Does faulty job { s with holder := some job } (coordinator.checkCollision data values) ()
        { s with holder := some job })
    (hblank : ∀ name, values.contains name = true → Text.isBlank name = false)
    (hsome : ¬ values.isEmpty = true) :
    ∃ vault records, Does faulty job s (coordinator.addVariables secret values imported)
        (Names.ofKeys values) { s with vault := vault, records := s.records ++ records } ∧
      vault.read (coordinator.keeper.resolve secret) = some (data.union values) := by
  have hcheck : Coordinator.checkEach (Variable.checkNotBlank .secured) values.keys = .ok () := by
    refine Does.checkEach fun name hname => ?_
    rw [Variable.checkNotBlank, hblank name (Dict.mem_keys_iff.mp hname)]
    rfl
  let held : Shared := { s with holder := some job }
  have hdata : Does faulty job held
      (Keeper.data (coordinator.keeper.resolve secret) true) data held :=
    Does.data (s := held) hread true
  obtain ⟨vault, hadd, hafter⟩ : ∃ vault, Does faulty job held
      (Keeper.add (coordinator.keeper.resolve secret) values data.isEmpty) (data.union values)
      { held with vault := vault } ∧
        vault.read (coordinator.keeper.resolve secret) = some (data.union values) :=
    Does.add (s := held) hread values data.isEmpty
  refine ⟨vault, values.keys.map fun name => .secured name (coordinator.keeper.resolve secret)
    (Coordinator.additionOf imported data name), ?_, hafter⟩
  rw [Coordinator.addVariables, if_neg hsome, hfree]
  refine Does.bind (Does.locked (t := { held with vault := vault }) hfree (hdata.bind ?_))
    (Does.bind (Does.recordAll _ _) (Does.pure _ _))
  dsimp only
  split
  · rename_i hdefault
    exact Does.bind (hcollision hdefault) (Does.bind (Does.ofOutcome hcheck _)
      (hadd.bind (Does.pure _ _)))
  · exact Does.bind (Does.ofOutcome hcheck _) (hadd.bind (Does.pure _ _))

end Does

/-! ## Where nothing is in the way -/

/-- The default secret is there and empty, no key is there, and nobody holds the lock. -/
structure Open (coordinator : Coordinator) (shared : Shared) : Prop where
  /-- nobody holds the lock -/
  free : shared.holder = none
  /-- the default secret is empty -/
  secret : shared.vault.read coordinator.keeper.defaultName = some Dict.empty
  /-- no key is there -/
  store : shared.store.entries = Dict.empty

namespace Task

variable {coordinator : Coordinator} {faulty : Bool} {job : Nat} {s : Shared} {name : String}

/-- Names are added to the default secret if nothing is in the way. -/
theorem does_add (hopen : Open coordinator s) {secret : String} {values : Dict String}
    (imported : Bool)
    (hdefault : coordinator.keeper.isDefault (coordinator.keeper.resolve secret) = true)
    (hblank : ∀ other, values.contains other = true → Text.isBlank other = false)
    (hname : values.contains name = true) :
    ∃ result t, Does faulty job s (coordinator.addVariables secret values imported) result t ∧
      (coordinator.securedIn t.vault).contains name = true := by
  have hsecret : coordinator.keeper.resolve secret = coordinator.keeper.defaultName :=
    (of_decide_eq_true hdefault).symm
  have hread : s.vault.read (coordinator.keeper.resolve secret) = some Dict.empty := by
    rw [hsecret]
    exact hopen.secret
  -- no common variable is there to collide with
  obtain ⟨vault, records, hadd, hafter⟩ := Does.addVariables (s := s) imported hopen.free hread
    (fun _ => Does.bind (Does.allVariables (s := { s with holder := some job }) hopen.store)
      (Does.pure () _)) hblank (Dict.not_isEmpty_of_contains hname)
  refine ⟨_, _, hadd, ?_⟩
  rw [hsecret] at hafter
  change (coordinator.securedIn vault).contains name = true
  rw [Coordinator.securedIn, hafter]
  exact Dict.contains_union.mpr (.inl hname)

/-- What a task may put into the default secret, it can. -/
theorem secures_runs (faulty : Bool) (job : Nat) {task : Task} (hopen : Open coordinator s)
    (hname : name ∈ task.secures coordinator) :
    ∃ t, Runs faulty job (task.program coordinator) s (.done ()) t ∧
      (coordinator.securedIn t.vault).contains name = true := by
  have hadd : ∀ secret values imported, name ∈ added coordinator secret values →
      ∃ t, Runs faulty job (finish (coordinator.addVariables secret values imported)) s
        (.done ()) t ∧ (coordinator.securedIn t.vault).contains name = true := by
    rintro secret values imported ⟨hdefault, hblank, hname⟩
    obtain ⟨result, t, hdoes, hholds⟩ := does_add hopen imported hdefault hblank hname
    exact ⟨t, Runs.bind_done hdoes (.refl _ _), hholds⟩
  cases task with
  | add secret values imported => exact hadd _ _ _ hname
  | addDefaults values => exact hadd _ _ _ hname
  | importVariables values => exact hadd _ _ _ hname
  | _ => cases hname

end Task

/-! ## About to publish -/

/-- The next call of the program makes the name common, whatever is shared by then. -/
def Publishing (coordinator : Coordinator) (faulty : Bool) (job : Nat) (name : String) {α : Type}
    (program : Program effects α) : Prop :=
  ∃ (effect : Effect) (next : effect.Answer → Program effects α),
    program = .ask (σ := effects) effect next ∧
    ∀ before, ∃ answer after, Answers faulty job effect before answer after ∧
      after.vault = before.vault ∧
      (coordinator.commonIn after.store).contains name = true

namespace Publishing

variable {coordinator : Coordinator} {faulty : Bool} {job : Nat} {name : String}
variable {α β : Type} {program : Program effects α}

theorem bind (h : Publishing coordinator faulty job name program)
    (f : α → Program effects β) : Publishing coordinator faulty job name (program.bind f) := by
  obtain ⟨effect, next, rfl, hanswers⟩ := h
  exact ⟨effect, fun answer => (next answer).bind f, rfl, hanswers⟩

theorem within (h : Publishing coordinator faulty job name program) (moment : Nat)
    (held : Bool) :
    Publishing coordinator faulty job name (Work.within moment held program) := by
  obtain ⟨effect, next, rfl, hanswers⟩ := h
  refine ⟨_, _, Runs.within_ask moment held effect next, fun before => ?_⟩
  obtain ⟨answer, after, hanswer, hafter⟩ := hanswers before
  exact ⟨some answer, after, hanswer, hafter⟩

theorem setVariable {value : String}
    (hsegment : isSegment name.toList = true)
    (habsolute : isAbsolute (coordinator.catalog.layout.variableKey name) = true) :
    Publishing coordinator faulty job name
      (Work.ofStore (coordinator.catalog.setVariable name value)).run := by
  refine ⟨.store (.put (coordinator.catalog.layout.variableKey name) (Text.encode value)), _, rfl,
    fun before => ⟨_, _, .inl ⟨rfl, rfl⟩, rfl, ?_⟩⟩
  refine Coordinator.contains_commonIn.mpr ⟨hsegment, ?_⟩
  exact (Store.contains_settle_put _ _).mpr (.inr ⟨habsolute, rfl⟩)

theorem setVariables {values : Dict String} (hname : values.contains name = true)
    (hsegment : isSegment name.toList = true)
    (habsolute : ∀ other, values.contains other = true →
      isAbsolute (coordinator.catalog.layout.variableKey other) = true) :
    Publishing coordinator faulty job name
      (Work.ofStore (coordinator.catalog.setVariables values)).run := by
  have hkeys : ∀ change ∈ values.entries.map (fun entry => KeyValue.Change.set
      (coordinator.catalog.layout.variableKey entry.1) (Text.encode entry.2)),
      ∃ other text, values.find? other = some text ∧ change
        = .set (coordinator.catalog.layout.variableKey other) (Text.encode text) := by
    intro change hchange
    obtain ⟨⟨other, text⟩, hmem, rfl⟩ := List.mem_map.mp hchange
    exact ⟨other, text, Dict.mem_entries_iff.mp hmem, rfl⟩
  refine ⟨.store (.transact (values.entries.map fun entry =>
      .set (coordinator.catalog.layout.variableKey entry.1) (Text.encode entry.2))), _, rfl,
    fun before => ⟨_, _, .inl ⟨rfl, rfl⟩, rfl, ?_⟩⟩
  refine Coordinator.contains_commonIn.mpr ⟨hsegment, Store.contains_answer_transact ?_ ?_ ?_⟩
  · intro change hchange
    obtain ⟨other, text, hfind, rfl⟩ := hkeys change hchange
    exact habsolute other (Dict.contains_of_find? hfind)
  · intro change hchange
    obtain ⟨other, text, -, rfl⟩ := hkeys change hchange
    exact ⟨_, _, rfl⟩
  · obtain ⟨text, hfind⟩ := Dict.contains_iff.mp hname
    exact ⟨_, List.mem_map.mpr ⟨(name, text), Dict.mem_entries_iff.mpr hfind, rfl⟩⟩

end Publishing

/-! ## Up to the write -/

namespace Does

variable {coordinator : Coordinator} {faulty : Bool} {job : Nat} {s : Shared}

/-- A read of a single key changes nothing and succeeds, whether or not it is there. -/
theorem findVariable (name : String) :
    ∃ found, Does faulty job s (Work.ofStore (coordinator.catalog.findVariable name)) found s := by
  rw [Catalog.findVariable, Catalog.ofStore_readOr]
  let path := coordinator.catalog.layout.variableKey name
  have hread : ∃ found, Catalog.readOutcome none
      (fun listing => .ok (listing.entries.head?.map KeyValue.Entry.text))
      (s.store.read path false) = .ok found := by
    rw [Store.read]
    split
    · exact ⟨none, rfl⟩
    · exact ⟨_, rfl⟩
  obtain ⟨found, hfound⟩ := hread
  exact ⟨found, Does.call (s.store.read path false) (.inl ⟨rfl, rfl⟩) hfound⟩

theorem checkCommon {name : String} (hformed : Variable.isWellFormed name = true)
    (value : String) :
    ∃ written, Does faulty job s
      (coordinator.checkCommon (Names.ofKeys (Dict.empty : Data)) name value) written s := by
  have hblank : Variable.checkNotBlank .common name = .ok () := by
    rw [Variable.checkNotBlank, Variable.not_isBlank_of_isWellFormed hformed]
    rfl
  have hcheck : Variable.checkWellFormed name = .ok () := by
    rw [Variable.checkWellFormed, hformed]
    rfl
  obtain ⟨found, hfind⟩ : ∃ found, Does faulty job s
      (Work.ofStore (coordinator.catalog.findVariable name)) found s := Does.findVariable name
  refine ⟨⟨name, value, found.isSome⟩, ?_⟩
  exact Does.bind (Does.ofOutcome hblank s) (Does.bind (Does.ofOutcome hcheck s)
    (hfind.bind (Does.pure _ s)))

theorem checkCommons {values : List (String × String)}
    (hformed : ∀ entry ∈ values, Variable.isWellFormed entry.1 = true) :
    ∃ written, Does faulty job s
      (coordinator.checkCommons (Names.ofKeys (Dict.empty : Data)) values) written s := by
  induction values with
  | nil => exact ⟨[], Does.pure _ s⟩
  | cons entry more ih =>
    obtain ⟨first, hfirst⟩ := checkCommon (hformed entry List.mem_cons_self) entry.2
    obtain ⟨rest, hrest⟩ := ih fun other hother => hformed other (List.mem_cons_of_mem _ hother)
    exact ⟨first :: rest, hfirst.bind (hrest.bind (Does.pure _ s))⟩

end Does

namespace Task

variable {coordinator : Coordinator} {faulty : Bool} {job : Nat} {s : Shared} {name : String}

/-- The names in the default secret, seen where it is empty. -/
theorem does_defaultNames (hopen : Open coordinator s) :
    Does faulty job s (coordinator.defaultNames false)
      (Names.ofKeys (Dict.empty : Data)) s := by
  refine Does.names hopen.free ?_ false
  rw [← of_decide_eq_true (Keeps.isDefault_resolve coordinator.keeper)]
  exact hopen.secret

theorem addCommon_runs (hopen : Open coordinator s) (value : String)
    (hformed : Variable.isWellFormed name = true)
    (habsolute : isAbsolute (coordinator.catalog.layout.variableKey name) = true) :
    ∃ program, Runs faulty job (coordinator.addCommon name value).run s program s ∧
      Publishing coordinator faulty job name program := by
  have hcheck : Variable.checkWellFormed name = .ok () := by
    rw [Variable.checkWellFormed, hformed]
    rfl
  obtain ⟨written, hwritten⟩ : ∃ written, Does faulty job s (coordinator.checkCommon
      (Names.ofKeys (Dict.empty : Data)) name value) written s := Does.checkCommon hformed value
  refine ⟨_, Does.runs_bind (Does.ofOutcome hcheck s) (Does.runs_bind (does_defaultNames hopen)
    (Does.runs_bind hwritten (.refl _ s))), Publishing.bind ?_ _⟩
  exact Publishing.setVariable (Variable.isSegment_of_isWellFormed hformed) habsolute

theorem addCommons_runs (hopen : Open coordinator s) {values : Dict String} (imported : Bool)
    (hname : values.contains name = true)
    (hvalid : ∀ other, values.contains other = true → Variable.isWellFormed other = true ∧
      isAbsolute (coordinator.catalog.layout.variableKey other) = true) :
    ∃ program, Runs faulty job (coordinator.addCommons values imported).run s program s ∧
      Publishing coordinator faulty job name program := by
  have hsome : ¬ values.isEmpty = true := Dict.not_isEmpty_of_contains hname
  have hformed : ∀ entry ∈ values.entries, Variable.isWellFormed entry.1 = true :=
    fun entry hentry => (hvalid entry.1 (Dict.contains_of_find? (Dict.mem_entries_iff.mp hentry))).1
  obtain ⟨written, hwritten⟩ : ∃ written, Does faulty job s (coordinator.checkCommons
      (Names.ofKeys (Dict.empty : Data)) values.entries) written s := Does.checkCommons hformed
  rw [Coordinator.addCommons, if_neg hsome]
  refine ⟨_, Does.runs_bind (does_defaultNames hopen) (Does.runs_bind hwritten (.refl _ s)),
    Publishing.bind ?_ _⟩
  exact Publishing.setVariables hname
    (Variable.isSegment_of_isWellFormed (hvalid name hname).1)
    fun other hother => (hvalid other hother).2

/-- Names are removed from a secret that is empty, and it is empty still. -/
theorem does_delete {secret : String} (hfree : s.holder = none)
    (hread : s.vault.read (coordinator.keeper.resolve secret) = some Dict.empty) (keys : Names) :
    ∃ vault, Does faulty job s (coordinator.deleteVariables secret keys false) ()
        { s with vault := vault } ∧
      vault.read (coordinator.keeper.resolve secret) = some Dict.empty := by
  rw [Coordinator.deleteVariables]
  split
  · exact ⟨s.vault, Does.pure () s, hread⟩
  · let held : Shared := { s with holder := some job }
    obtain ⟨vault, hremove, hafter⟩ : ∃ vault, Does faulty job held
        (Keeper.remove (coordinator.keeper.resolve secret) keys) Dict.empty
        { held with vault := vault } ∧
          vault.read (coordinator.keeper.resolve secret) = some Dict.empty :=
      Does.remove (s := held) hread keys
    have hreleased : { s with vault := vault } = { s with vault := vault, holder := none } := by
      rw [← hfree]
    refine ⟨vault, ?_, hafter⟩
    rw [hreleased]
    exact Does.bind (Does.locked hfree (Does.bind (Does.data (s := held) hread true)
      (hremove.bind (Does.pure Dict.empty _)))) (Does.pure () _)

theorem restoreOnce_runs (hopen : Open coordinator s) {values : Dict String}
    (hname : values.contains name = true) (hsegment : isSegment name.toList = true)
    (habsolute : ∀ other, values.contains other = true →
      isAbsolute (coordinator.catalog.layout.variableKey other) = true) :
    ∃ program t, Runs faulty job (coordinator.restoreOnce values).run s program t ∧
      Open coordinator t ∧ Publishing coordinator faulty job name program := by
  let secret := coordinator.keeper.defaultName
  have hresolve : coordinator.keeper.resolve secret = secret :=
    (of_decide_eq_true (Keeps.isDefault_resolve coordinator.keeper)).symm
  have hread : s.vault.read (coordinator.keeper.resolve secret) = some Dict.empty := by
    rw [hresolve]
    exact hopen.secret
  have hcreate : Does faulty job s (coordinator.keeper.create secret) false s :=
    Does.create hopen.secret
  obtain ⟨vault, hdelete, hafter⟩ : ∃ vault, Does faulty job s
      (coordinator.deleteVariables secret (Names.ofKeys values) false) ()
      { s with vault := vault } ∧
        vault.read (coordinator.keeper.resolve secret) = some Dict.empty :=
    does_delete hopen.free hread _
  rw [hresolve] at hafter
  -- what is left of the attempt is the write of the common variables
  exact ⟨_, { s with vault := vault }, Does.runs_bind hcreate (Does.runs_bind hdelete (.refl _ _)),
    ⟨hopen.free, hafter, hopen.store⟩, Publishing.setVariables hname hsegment habsolute⟩

/-- What a task may make common, it comes to the point of writing. -/
theorem publishes_runs (faulty : Bool) (job : Nat) {task : Task} (hopen : Open coordinator s)
    (hname : name ∈ task.publishes coordinator) :
    ∃ program t, Runs faulty job (task.program coordinator) s program t ∧ Open coordinator t ∧
      Publishing coordinator faulty job name program := by
  cases task with
  | addCommon one value =>
    obtain ⟨rfl, hformed, habsolute⟩ := hname
    obtain ⟨program, hruns, hpublishing⟩ := addCommon_runs hopen value hformed habsolute
    exact ⟨_, s, hruns.bind _, hopen, hpublishing.bind _⟩
  | addCommons values imported =>
    obtain ⟨hvalid, hname⟩ := hname
    obtain ⟨program, hruns, hpublishing⟩ := addCommons_runs hopen imported hname hvalid
    exact ⟨_, s, hruns.bind _, hopen, hpublishing.bind _⟩
  | restore values =>
    obtain ⟨hattempts, habsolute, hname, hsegment⟩ := hname
    obtain ⟨program, t, hruns, hopen, hpublishing⟩ : ∃ program t,
        Runs faulty job (coordinator.restoreOnce values).run s program t ∧ Open coordinator t ∧
          Publishing coordinator faulty job name program :=
      restoreOnce_runs hopen hname hsegment habsolute
    obtain ⟨more, hmore⟩ := Nat.exists_eq_succ_of_ne_zero (Nat.ne_of_gt hattempts)
    -- the first attempt gets that far if the clock stands still
    let moment := 0 + coordinator.restorePolicy.timeoutMillis
    obtain ⟨held, hwithin⟩ := hruns.within moment false
    rw [Task.program, finish, Coordinator.restoreDefaults, Retry.run, hmore]
    refine ⟨_, t, .step .now (0 : Nat) rfl (((hwithin.bind _).bind _).bind _), hopen, ?_⟩
    exact (((hpublishing.within moment held).bind _).bind _).bind _
  | _ => cases hname

end Task

end EngineCatalog
