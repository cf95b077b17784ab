import EngineCatalog.Proofs.Catalog.Variables
import EngineCatalog.Proofs.Variable.Performance
import EngineCatalog.Proofs.Variable.Stays

/-!
# All or nothing

An operation reads and checks, and writes once at its end; what is left then cannot fail any more.
So if it fails, wherever that is, nothing has been changed, and if it succeeds, all is done
(`AllOrNothing`).

* `AllOrNothing` — an operation that fails leaves everything as it was; `Surely` — one that does not
  fail. There is one rule for each way of putting operations together.
* `Coordinator.Added`, `Coordinator.Updated`, `Coordinator.Deleted` — what the operations on secured
  variables leave behind if they succeed (`AllOrNothing.addVariables` and so on).
-/

namespace EngineCatalog

open KeyValue (Store Change)
open Secret (Data Vault)

/-! ## What is left behind -/

namespace Coordinator

variable (coordinator : Coordinator) (secret : String) (s t : Shared)

/-- Variables were added to a secret that is there, with a record for each of them; nothing was done
where there were none. -/
def Added (values : Dict String) (imported : Bool) : Prop :=
  values.isEmpty = true ∧ t = s ∨
    ∃ current, s.vault.read (coordinator.keeper.resolve secret) = some current ∧
      t = { s with
        vault := (s.vault.merge (coordinator.keeper.resolve secret) values).2
        records := s.records ++ values.keys.map fun name =>
          .secured name (coordinator.keeper.resolve secret) (additionOf imported current name) }

/-- Variables that a secret has were overwritten, with a record for each of them. -/
def Updated (values : Dict (Option String)) : Prop :=
  ∃ current, s.vault.read (coordinator.keeper.resolve secret) = some current ∧
    (∀ name ∈ values.keys, current.contains name = true) ∧
    t = { s with
      vault := (s.vault.merge (coordinator.keeper.resolve secret)
        (values.map fun _ value => value.getD "")).2
      records := s.records ++ values.keys.map fun name =>
        .secured name (coordinator.keeper.resolve secret) .update }

/-- Variables were deleted from a secret that is there, with a record for each of them that was
there, if there are to be records; nothing was done where there were none. -/
def Deleted (names : Names) (logged : Bool) : Prop :=
  names.isEmpty = true ∧ t = s ∨
    ∃ current, s.vault.read (coordinator.keeper.resolve secret) = some current ∧
      t = { s with
        vault := (s.vault.remove (coordinator.keeper.resolve secret) names).2
        records := s.records ++ if logged then
          deletions (coordinator.keeper.resolve secret) current names else [] }

end Coordinator

/-! ## Operations -/

/-- If the operation fails, everything is as it was, and if it succeeds, what is said holds of its
result and of what is shared then. -/
def AllOrNothing (faulty coming : Bool) (s : Shared) {α : Type} (work : Work α)
    (holds : α → Shared → Prop) : Prop :=
  ∀ outcome t, Performs faulty coming s work outcome t →
    (∃ result, outcome = .ok result ∧ holds result t) ∨ ∃ error, outcome = .error error ∧ t = s

/-- The operation does not fail, and what is said holds of its result and of what is shared then. -/
def Surely (faulty coming : Bool) (s : Shared) {α : Type} (work : Work α)
    (holds : α → Shared → Prop) : Prop :=
  ∀ outcome t, Performs faulty coming s work outcome t →
    ∃ result, outcome = .ok result ∧ holds result t

variable {faulty coming : Bool} {α β : Type} {s t : Shared} {work : Work α}

namespace Surely

variable {holds : α → Shared → Prop}

theorem pure {result : α} (h : holds result s) : Surely faulty coming s (Pure.pure result) holds := by
  intro outcome t hperforms
  obtain ⟨rfl, rfl⟩ := hperforms.of_pure
  exact ⟨result, rfl, h⟩

theorem bind {f : α → Work β} {final : β → Shared → Prop}
    (h : Surely faulty coming s work fun result t => Surely faulty coming t (f result) final) :
    Surely faulty coming s (work >>= f) final := by
  intro outcome u hperforms
  rcases hperforms.of_bind with ⟨error, hwork, -⟩ | ⟨result, t, hwork, hrest⟩
  · obtain ⟨result, hok, -⟩ := h _ _ hwork
    cases hok
  · obtain ⟨first, hok, hnext⟩ := h _ _ hwork
    obtain rfl := Except.ok.inj hok
    exact hnext _ _ hrest

theorem record (hquiet : Quiet coming s) (record : Audit.Record) :
    Surely faulty coming s (Work.record record)
      fun _ t => t = { s with records := s.records ++ [record] } := by
  intro outcome t hperforms
  obtain ⟨between, ⟨⟩, hmeanwhile, rfl, rfl⟩ := hperforms.of_tell
  obtain rfl := hmeanwhile.eq_of_quiet hquiet
  exact ⟨(), rfl, rfl⟩

theorem recordAll (hquiet : Quiet coming s) (records : List Audit.Record) :
    Surely faulty coming s (Coordinator.recordAll records)
      fun _ t => t = { s with records := s.records ++ records } := by
  induction records generalizing s with
  | nil =>
    rw [List.append_nil]
    exact Surely.pure rfl
  | cons record more ih =>
    refine Surely.bind fun outcome t hperforms => ?_
    obtain ⟨result, hok, rfl⟩ := Surely.record hquiet record outcome t hperforms
    refine ⟨result, hok, ?_⟩
    have hmore := @ih { s with records := s.records ++ [record] } hquiet
    rw [List.append_assoc] at hmore
    exact hmore

/-- Records are left, and the result is given back. -/
theorem records_then (hquiet : Quiet coming s) (records : List Audit.Record) (result : α) :
    Surely faulty coming s (do Coordinator.recordAll records; Pure.pure result)
      fun final t => final = result ∧ t = { s with records := s.records ++ records } := by
  refine Surely.bind fun outcome t hperforms => ?_
  obtain ⟨⟨⟩, hok, rfl⟩ := Surely.recordAll hquiet records outcome t hperforms
  exact ⟨(), hok, Surely.pure ⟨rfl, rfl⟩⟩

end Surely

namespace AllOrNothing

variable {holds : α → Shared → Prop}

theorem mono {weaker : α → Shared → Prop} (h : AllOrNothing faulty coming s work holds)
    (himp : ∀ result t, holds result t → weaker result t) :
    AllOrNothing faulty coming s work weaker := by
  intro outcome t hperforms
  rcases h _ _ hperforms with ⟨result, hok, hholds⟩ | hnothing
  · exact .inl ⟨result, hok, himp result t hholds⟩
  · exact .inr hnothing

theorem pure {result : α} (h : holds result s) :
    AllOrNothing faulty coming s (Pure.pure result) holds := by
  intro outcome t hperforms
  obtain ⟨rfl, rfl⟩ := hperforms.of_pure
  exact .inl ⟨result, rfl, h⟩

theorem fail (error : Error) : AllOrNothing faulty coming s (.fail error) holds := by
  intro outcome t hperforms
  obtain ⟨rfl, rfl⟩ := hperforms.of_fail
  exact .inr ⟨error, rfl, rfl⟩

theorem ofOutcome {outcome : Outcome α} (h : ∀ result, outcome = .ok result → holds result s) :
    AllOrNothing faulty coming s (.ofOutcome outcome) holds := by
  intro given t hperforms
  obtain ⟨rfl, rfl⟩ := hperforms.of_ofOutcome
  cases given with
  | ok result => exact .inl ⟨result, rfl, h result rfl⟩
  | error error => exact .inr ⟨error, rfl, rfl⟩

theorem map {f : α → β} {final : β → Shared → Prop}
    (h : AllOrNothing faulty coming s work fun result t => final (f result) t) :
    AllOrNothing faulty coming s (f <$> work) final := by
  intro outcome t hperforms
  obtain ⟨given, hwork, rfl⟩ := hperforms.of_map
  rcases h _ _ hwork with ⟨result, rfl, hholds⟩ | ⟨error, rfl, hsame⟩
  · exact .inl ⟨f result, rfl, hholds⟩
  · exact .inr ⟨error, rfl, hsame⟩

/-- What only reads can be followed by anything that is all or nothing. -/
theorem bind {P : α → Prop} {f : α → Work β} {final : β → Shared → Prop}
    (h : AllOrNothing faulty coming s work fun result t => t = s ∧ P result)
    (hf : ∀ result, P result → AllOrNothing faulty coming s (f result) final) :
    AllOrNothing faulty coming s (work >>= f) final := by
  intro outcome u hperforms
  rcases hperforms.of_bind with ⟨error, hwork, rfl⟩ | ⟨result, t, hwork, hrest⟩
  · rcases h _ _ hwork with ⟨_, hok, -⟩ | ⟨_, -, hsame⟩
    · cases hok
    · exact .inr ⟨error, rfl, hsame⟩
  · rcases h _ _ hwork with ⟨seen, hok, rfl, hseen⟩ | ⟨_, herror, -⟩
    · obtain rfl := Except.ok.inj hok
      exact hf result hseen _ _ hrest
    · cases herror

/-- Once something is written, the rest must not fail. -/
theorem andThen {f : α → Work β} {final : β → Shared → Prop}
    (h : AllOrNothing faulty coming s work fun result t => Surely faulty coming t (f result) final) :
    AllOrNothing faulty coming s (work >>= f) final := by
  intro outcome u hperforms
  rcases hperforms.of_bind with ⟨error, hwork, rfl⟩ | ⟨result, t, hwork, hrest⟩
  · rcases h _ _ hwork with ⟨_, hok, -⟩ | ⟨_, -, hsame⟩
    · cases hok
    · exact .inr ⟨error, rfl, hsame⟩
  · rcases h _ _ hwork with ⟨first, hok, hnext⟩ | ⟨_, herror, -⟩
    · obtain rfl := Except.ok.inj hok
      exact .inl (hnext _ _ hrest)
    · cases herror

theorem call (hquiet : Quiet coming s) {effect : Effect} {use : effect.Answer → Outcome α}
    (h : ∀ answer t, AnswersAlone faulty effect s answer t →
      (∃ result, use answer = .ok result ∧ holds result t) ∨
        ∃ error, use answer = .error error ∧ t = s) :
    AllOrNothing faulty coming s (.call (σ := effects) effect use) holds := by
  intro outcome t hperforms
  obtain ⟨between, answer, hmeanwhile, hanswers, rfl⟩ := hperforms.of_call
  obtain rfl := hmeanwhile.eq_of_quiet hquiet
  exact h answer t hanswers

/-- The lock is free before and afterwards. -/
theorem locked (hquiet : Quiet coming s)
    (h : s.holder = none → Quiet coming { s with holder := some 0 } →
      AllOrNothing faulty coming { s with holder := some 0 } work
        fun result t => Quiet coming t ∧ holds result { t with holder := none }) :
    AllOrNothing faulty coming s (Work.locked work) holds := by
  intro outcome u hperforms
  obtain ⟨between, inner, last, hmeanwhile, hfree, hwork, hlast, rfl⟩ := hperforms.of_locked
  obtain rfl := hmeanwhile.eq_of_quiet hquiet
  rcases h hfree hquiet _ _ hwork with ⟨result, hok, hinner, hholds⟩ | ⟨error, herror, rfl⟩
  · obtain rfl := hlast.eq_of_quiet hinner
    exact .inl ⟨result, hok, hholds⟩
  · have hsame : last = { between with holder := some 0 } := hlast.eq_of_quiet hquiet
    refine .inr ⟨error, herror, ?_⟩
    rw [hsame, ← hfree]

/-! ### Calls -/

/-- A read that may find nothing changes nothing, whatever comes of it. -/
theorem readOr (hquiet : Quiet coming s) (nothing : α) (path : String) (all : Bool)
    (use : KeyValue.Listing → Outcome α) :
    AllOrNothing faulty coming s (Work.ofStore (Catalog.readOr nothing path all use))
      fun _ t => t = s ∧ True := by
  rw [Catalog.ofStore_readOr]
  refine AllOrNothing.call hquiet fun answer t hanswers => ?_
  have hsame : t = s := by
    obtain ⟨-, rfl⟩ | ⟨-, rfl, -⟩ := hanswers
    · rfl
    · rfl
  cases Catalog.readOutcome nothing use answer with
  | ok result => exact .inl ⟨result, rfl, hsame, trivial⟩
  | error error => exact .inr ⟨error, rfl, hsame⟩

/-- A call that writes to the key-value store writes, or changes nothing. -/
theorem write (hquiet : Quiet coming s) {operation : Operation KeyValue.keyValue Unit}
    (call : KeyValue.Call) {use : call.Answer → Outcome Unit} (write : KeyValue.Write)
    (hcall : Work.ofStore operation = .call (σ := effects) (Effect.store call) use)
    (hanswer : (use (s.store.answer call).1, (s.store.answer call).2) = s.store.perform write)
    (hfailure : ∀ error, use (call.failure error) = .error error) :
    AllOrNothing faulty coming s (Work.ofStore operation) fun _ t =>
      (s.store.perform write).1 = .ok () ∧
        t = { s with store := (s.store.perform write).2 } := by
  rw [hcall, ← hanswer]
  refine AllOrNothing.call hquiet ?_
  rintro answer t (⟨rfl, rfl⟩ | ⟨-, rfl, error, rfl⟩)
  · rcases s.store.done_or_same write with hdone | ⟨error, herror, hsame⟩
    · rw [← hanswer] at hdone
      exact .inl ⟨(), hdone, hdone, rfl⟩
    · rw [← hanswer] at herror hsame
      refine .inr ⟨error, herror, ?_⟩
      rw [hsame]
  · exact .inr ⟨error, hfailure error, rfl⟩

theorem put (hquiet : Quiet coming s) (path : String) (value : Text.Bytes) :
    AllOrNothing faulty coming s (Work.ofStore (KeyValue.put path value)) fun _ t =>
      (s.store.perform (.put path value)).1 = .ok () ∧
        t = { s with store := (s.store.perform (.put path value)).2 } :=
  AllOrNothing.write hquiet (.put path value) (.put path value) rfl rfl
    fun _ => rfl

theorem transact (hquiet : Quiet coming s) (changes : List Change) :
    AllOrNothing faulty coming s (Work.ofStore (KeyValue.transact changes)) fun _ t =>
      (s.store.perform (.transact changes)).1 = .ok () ∧
        t = { s with store := (s.store.perform (.transact changes)).2 } :=
  AllOrNothing.write hquiet (.transact changes) (.transact changes) rfl rfl
    fun _ => rfl

/-- A call that changes a secret changes it, or nothing. -/
theorem change (hquiet : Quiet coming s) {call : Secret.Call} {use : call.Answer → Outcome Data}
    {secret : String} {f : Data → Data}
    (hanswer : (use (s.vault.answer call).1, (s.vault.answer call).2) = s.vault.modify secret f)
    (hfailure : ∀ error, use (call.failure error) = .error error) :
    AllOrNothing faulty coming s (Work.secrets call use) fun _ t =>
      t = { s with vault := (s.vault.modify secret f).2 } := by
  rw [← hanswer]
  refine AllOrNothing.call hquiet ?_
  rintro answer t (⟨rfl, rfl⟩ | ⟨-, rfl, error, rfl⟩)
  · rcases s.vault.modify_cases secret f with ⟨data, hdone⟩ | ⟨error, herror, hsame⟩
    · rw [← hanswer] at hdone
      exact .inl ⟨data, hdone, rfl⟩
    · rw [← hanswer] at herror hsame
      refine .inr ⟨error, herror, ?_⟩
      rw [hsame]
  · exact .inr ⟨error, hfailure error, rfl⟩

theorem add (hquiet : Quiet coming s) (secret : String) (values : Data) (initial : Bool) :
    AllOrNothing faulty coming s (Keeper.add secret values initial) fun _ t =>
      t = { s with vault := (s.vault.merge secret values).2 } :=
  AllOrNothing.change (f := fun current => current.union values) hquiet rfl fun _ => rfl

theorem update (hquiet : Quiet coming s) (secret : String) (values : Data) :
    AllOrNothing faulty coming s (Keeper.update secret values) fun _ t =>
      t = { s with vault := (s.vault.merge secret values).2 } :=
  AllOrNothing.change (f := fun current => current.union values) hquiet rfl fun _ => rfl

theorem remove (hquiet : Quiet coming s) (secret : String) (keys : Names) :
    AllOrNothing faulty coming s (Keeper.remove secret keys) fun _ t =>
      t = { s with vault := (s.vault.remove secret keys).2 } :=
  AllOrNothing.change (f := fun current => current.filter fun key _ => !keys.contains key)
    hquiet rfl fun _ => rfl

theorem data (hquiet : Quiet coming s) (secret : String) (strict : Bool) :
    AllOrNothing faulty coming s (Keeper.data secret strict) fun data t =>
      t = s ∧ (strict = true → s.vault.read secret = some data) := by
  refine AllOrNothing.bind (P := fun found => s.vault.read secret = found)
    (AllOrNothing.call hquiet ?_) fun found hfound => ?_
  · rintro answer t (⟨rfl, rfl⟩ | ⟨-, rfl, error, rfl⟩)
    · exact .inl ⟨_, rfl, rfl, rfl⟩
    · exact .inr ⟨error, rfl, rfl⟩
  · cases found with
    | some data => exact AllOrNothing.pure ⟨rfl, fun _ => hfound⟩
    | none =>
      cases strict with
      | true => exact AllOrNothing.fail _
      | false => exact AllOrNothing.pure ⟨rfl, nofun⟩

/-! ### Secured variables -/

variable {coordinator : Coordinator}

theorem names (hquiet : Quiet coming s) (secret : String) (strict : Bool) :
    AllOrNothing faulty coming s (coordinator.names secret strict) fun _ t => t = s ∧ True := by
  refine AllOrNothing.locked hquiet fun hfree hheld => ?_
  refine AllOrNothing.bind (AllOrNothing.data hheld _ strict) fun data _ => ?_
  exact AllOrNothing.pure ⟨hquiet, by rw [← hfree], trivial⟩

theorem allNames (hquiet : Quiet coming s) :
    AllOrNothing faulty coming s coordinator.allNames fun _ t => t = s ∧ True := by
  refine AllOrNothing.locked hquiet fun hfree hheld => ?_
  refine AllOrNothing.bind (P := fun _ => True) (AllOrNothing.call hheld ?_) fun all _ => ?_
  · rintro answer t (⟨rfl, rfl⟩ | ⟨-, rfl, error, rfl⟩)
    · exact .inl ⟨_, rfl, rfl, trivial⟩
    · exact .inr ⟨error, rfl, rfl⟩
  · exact AllOrNothing.pure ⟨hquiet, by rw [← hfree], trivial⟩

theorem checkCollision (hquiet : Quiet coming s) (current : Data) (added : Dict String) :
    AllOrNothing faulty coming s (coordinator.checkCollision current added)
      fun _ t => t = s ∧ True := by
  refine AllOrNothing.bind (AllOrNothing.readOr hquiet _ _ _ _) fun common _ => ?_
  cases Coordinator.collision? common current added with
  | some name => exact AllOrNothing.fail _
  | none => exact AllOrNothing.pure ⟨rfl, trivial⟩

theorem addVariables (hquiet : Quiet coming s) (secret : String) (values : Dict String)
    (imported : Bool) :
    AllOrNothing faulty coming s (coordinator.addVariables secret values imported)
      fun _ t => coordinator.Added secret s t values imported := by
  rw [Coordinator.addVariables]
  split
  · rename_i hnone
    exact AllOrNothing.pure (.inl ⟨hnone, rfl⟩)
  · refine AllOrNothing.andThen (AllOrNothing.locked hquiet fun hfree hheld => ?_)
    refine AllOrNothing.bind (AllOrNothing.data hheld _ true) fun current hread => ?_
    have hadd : AllOrNothing faulty coming { s with holder := some 0 } (do
        Operation.ofOutcome (Coordinator.checkEach (Variable.checkNotBlank .secured) values.keys)
        let _ ← Keeper.add (coordinator.keeper.resolve secret) values current.isEmpty
        return current) fun before t => before = current ∧ t = { s with
          vault := (s.vault.merge (coordinator.keeper.resolve secret) values).2
          holder := some 0 } := by
      refine AllOrNothing.bind (P := fun _ => True)
        (AllOrNothing.ofOutcome fun _ _ => ⟨rfl, trivial⟩) fun _ _ => ?_
      refine AllOrNothing.andThen (AllOrNothing.mono
        (AllOrNothing.add hheld _ _ _) fun _ t ht => ?_)
      exact Surely.pure ⟨rfl, ht⟩
    have hrest : AllOrNothing faulty coming { s with holder := some 0 } (do
        if coordinator.keeper.isDefault (coordinator.keeper.resolve secret) then
          coordinator.checkCollision current values
        Operation.ofOutcome (Coordinator.checkEach (Variable.checkNotBlank .secured) values.keys)
        let _ ← Keeper.add (coordinator.keeper.resolve secret) values current.isEmpty
        return current) fun before t => before = current ∧ t = { s with
          vault := (s.vault.merge (coordinator.keeper.resolve secret) values).2
          holder := some 0 } := by
      dsimp only
      split
      · exact AllOrNothing.bind (AllOrNothing.checkCollision hheld _ _) fun _ _ => hadd
      · exact hadd
    refine AllOrNothing.mono hrest ?_
    rintro before t ⟨rfl, rfl⟩
    refine ⟨hquiet, fun outcome u hperforms => ?_⟩
    let released : Shared := { s with
      vault := (s.vault.merge (coordinator.keeper.resolve secret) values).2
      holder := none }
    obtain ⟨result, hok, -, rfl⟩ :=
      Surely.records_then (s := released) hquiet _ _ outcome u hperforms
    refine ⟨result, hok, .inr ⟨before, hread rfl, ?_⟩⟩
    rw [hfree]

theorem updateVariables (hquiet : Quiet coming s) (secret : String)
    (values : Dict (Option String)) :
    AllOrNothing faulty coming s (coordinator.updateVariables secret values)
      fun _ t => coordinator.Updated secret s t values := by
  refine AllOrNothing.andThen (AllOrNothing.locked hquiet fun hfree hheld => ?_)
  refine AllOrNothing.bind (AllOrNothing.data hheld _ true) fun current hread => ?_
  refine AllOrNothing.bind
    (P := fun _ => ∀ name ∈ values.keys, current.contains name = true)
    (AllOrNothing.ofOutcome fun _ hcheck => ⟨rfl, fun name hname =>
      Keeps.contains_of_checkPresent (Keeps.checkEach hcheck name hname)⟩) fun _ hpresent => ?_
  refine AllOrNothing.andThen (AllOrNothing.mono
    (AllOrNothing.update hheld _ _) ?_)
  rintro - t rfl
  refine Surely.pure ⟨hquiet, fun outcome u hperforms => ?_⟩
  let released : Shared := { s with
    vault := (s.vault.merge (coordinator.keeper.resolve secret)
      (values.map fun _ value => value.getD "")).2
    holder := none }
  obtain ⟨result, hok, -, rfl⟩ :=
    Surely.records_then (s := released) hquiet _ _ outcome u hperforms
  refine ⟨result, hok, current, hread rfl, hpresent, ?_⟩
  rw [hfree]

theorem deleteVariables (hquiet : Quiet coming s) (secret : String) (names : Names)
    (logged : Bool) :
    AllOrNothing faulty coming s (coordinator.deleteVariables secret names logged)
      fun _ t => coordinator.Deleted secret s t names logged := by
  rw [Coordinator.deleteVariables]
  split
  · rename_i hnone
    exact AllOrNothing.pure (.inl ⟨hnone, rfl⟩)
  · refine AllOrNothing.andThen (AllOrNothing.locked hquiet fun hfree hheld => ?_)
    refine AllOrNothing.bind (AllOrNothing.data hheld _ true) fun current hread => ?_
    refine AllOrNothing.andThen (AllOrNothing.mono
      (AllOrNothing.remove hheld _ _) ?_)
    rintro - t rfl
    refine Surely.pure ⟨hquiet, fun outcome u hperforms => ?_⟩
    let released : Shared := { s with
      vault := (s.vault.remove (coordinator.keeper.resolve secret) names).2
      holder := none }
    have hrecords : Surely faulty coming released (if logged then
        Coordinator.recordAll (Coordinator.deletions (coordinator.keeper.resolve secret) current
          names) else Pure.pure ()) fun _ u => u = { released with
          records := s.records ++ if logged then
            Coordinator.deletions (coordinator.keeper.resolve secret) current names else [] } := by
      split
      · exact Surely.recordAll (s := released) hquiet _
      · refine Surely.pure ?_
        rw [List.append_nil]
    obtain ⟨result, hok, rfl⟩ := hrecords outcome u hperforms
    refine ⟨result, hok, .inr ⟨current, hread rfl, ?_⟩⟩
    rw [hfree]

theorem updateDefault (hquiet : Quiet coming s) (name : String) (value : Option String) :
    AllOrNothing faulty coming s (coordinator.updateDefault name value) fun _ t =>
      coordinator.Updated coordinator.keeper.defaultName s t (Dict.ofList [(name, value)]) :=
  AllOrNothing.andThen (AllOrNothing.mono (AllOrNothing.updateVariables hquiet _ _)
    fun _ _ hupdated => Surely.pure hupdated)

/-! ### Common variables -/

theorem common (hquiet : Quiet coming s) :
    AllOrNothing faulty coming s coordinator.common fun _ t => t = s ∧ True :=
  AllOrNothing.readOr hquiet _ _ _ _

theorem checkCommon (hquiet : Quiet coming s) (secured : Names) (name value : String) :
    AllOrNothing faulty coming s (coordinator.checkCommon secured name value)
      fun _ t => t = s ∧ True := by
  have hcheck : ∀ outcome : Outcome Unit,
      AllOrNothing faulty coming s (.ofOutcome outcome) fun _ t => t = s ∧ True :=
    fun outcome => AllOrNothing.ofOutcome fun _ _ => ⟨rfl, trivial⟩
  rw [Coordinator.checkCommon]
  dsimp only
  split
  · exact AllOrNothing.bind (P := fun _ => False) (AllOrNothing.fail _) fun _ hnever =>
      hnever.elim
  · refine AllOrNothing.bind (hcheck _) fun _ _ => AllOrNothing.bind (hcheck _) fun _ _ => ?_
    exact AllOrNothing.bind (AllOrNothing.readOr hquiet _ _ _ _) fun _ _ =>
      AllOrNothing.pure ⟨rfl, trivial⟩

theorem checkCommons (hquiet : Quiet coming s) (secured : Names)
    (values : List (String × String)) :
    AllOrNothing faulty coming s (coordinator.checkCommons secured values)
      fun _ t => t = s ∧ True := by
  induction values with
  | nil => exact AllOrNothing.pure ⟨rfl, trivial⟩
  | cons entry more ih =>
    refine AllOrNothing.bind (AllOrNothing.checkCommon hquiet _ _ _) fun written _ => ?_
    exact AllOrNothing.bind ih fun _ _ => AllOrNothing.pure ⟨rfl, trivial⟩

/-- A common variable is written by one write of the store. -/
theorem addCommon (hquiet : Quiet coming s) (name value : String) :
    AllOrNothing faulty coming s (coordinator.addCommon name value) fun _ t =>
      (s.store.perform (.put (coordinator.catalog.layout.variableKey name)
          (Text.encode value))).1 = .ok () ∧
        ∃ records, t = { s with
          store := (s.store.perform (.put (coordinator.catalog.layout.variableKey name)
            (Text.encode value))).2
          records := s.records ++ records } := by
  refine AllOrNothing.bind (P := fun _ => True)
    (AllOrNothing.ofOutcome fun _ _ => ⟨rfl, trivial⟩) fun _ _ => ?_
  refine AllOrNothing.bind (AllOrNothing.names hquiet _ false) fun secured _ => ?_
  refine AllOrNothing.bind (AllOrNothing.checkCommon hquiet _ _ _) fun written _ => ?_
  refine AllOrNothing.andThen (AllOrNothing.mono (AllOrNothing.put hquiet _ _) ?_)
  rintro - t ⟨hdone, rfl⟩
  refine Surely.bind fun outcome u hperforms => ?_
  obtain ⟨⟨⟩, hok, rfl⟩ := Surely.record (s := { s with
    store := (s.store.perform (.put (coordinator.catalog.layout.variableKey name)
      (Text.encode value))).2 }) hquiet _ outcome u hperforms
  exact ⟨(), hok, Surely.pure ⟨hdone, _, rfl⟩⟩

/-- Common variables are written by one write of the store. -/
theorem addCommons (hquiet : Quiet coming s) (values : Dict String) (imported : Bool) :
    AllOrNothing faulty coming s (coordinator.addCommons values imported) fun _ t =>
      values.isEmpty = true ∧ t = s ∨
        (s.store.perform (.transact (values.entries.map fun entry =>
            .set (coordinator.catalog.layout.variableKey entry.1) (Text.encode entry.2)))).1
          = .ok () ∧
        ∃ records, t = { s with
          store := (s.store.perform (.transact (values.entries.map fun entry =>
            .set (coordinator.catalog.layout.variableKey entry.1) (Text.encode entry.2)))).2
          records := s.records ++ records } := by
  rw [Coordinator.addCommons]
  split
  · rename_i hnone
    exact AllOrNothing.pure (.inl ⟨hnone, rfl⟩)
  · refine AllOrNothing.bind (AllOrNothing.names hquiet _ false) fun secured _ => ?_
    refine AllOrNothing.bind (AllOrNothing.checkCommons hquiet _ _) fun written _ => ?_
    refine AllOrNothing.andThen (AllOrNothing.mono (AllOrNothing.transact hquiet _) ?_)
    rintro - t ⟨hdone, rfl⟩ outcome u hperforms
    obtain ⟨result, hok, -, rfl⟩ := Surely.records_then (s := { s with
      store := (s.store.perform (.transact (values.entries.map fun entry =>
        .set (coordinator.catalog.layout.variableKey entry.1) (Text.encode entry.2)))).2 })
      hquiet _ _ outcome u hperforms
    exact ⟨result, hok, .inr ⟨hdone, _, rfl⟩⟩

/-- Common variables are deleted by one write of the store. -/
theorem deleteCommons (hquiet : Quiet coming s) (names : List String) :
    AllOrNothing faulty coming s (coordinator.deleteCommons names) fun _ t =>
      (s.store.perform (.transact (names.map fun name =>
          .delete (coordinator.catalog.layout.variableKey name)))).1 = .ok () ∧
        ∃ records, t = { s with
          store := (s.store.perform (.transact (names.map fun name =>
            .delete (coordinator.catalog.layout.variableKey name)))).2
          records := s.records ++ records } := by
  refine AllOrNothing.andThen (AllOrNothing.mono (AllOrNothing.transact hquiet _) ?_)
  rintro - t ⟨hdone, rfl⟩ outcome u hperforms
  obtain ⟨result, hok, rfl⟩ := Surely.recordAll (s := { s with
    store := (s.store.perform (.transact (names.map fun name =>
      .delete (coordinator.catalog.layout.variableKey name)))).2 }) hquiet _ outcome u hperforms
  exact ⟨result, hok, hdone, _, rfl⟩

end AllOrNothing

end EngineCatalog
