import EngineCatalog.Proofs.Variable.Order

/-!
# What was added stays

Where all moves are in order, a variable that was added stays in its secret with its value until
another operation takes the lock, later than the one that added it had it, and deletes or overwrites
the variable (`Trace.added_stays`).

* `Operation.Returns.of_addVariables` — how variables are added, if they are: under the lock by one
  call, and nothing but records is left after the lock is released.
* `Trace.kept` — while a job holds the lock, secrets are safe from all others.
* `Trace.kept_or_lost` — a value is lost only to a job that holds the lock.
* `Displaced` — a value was lost to a job that took the lock later.
-/

namespace EngineCatalog

open Secret (Data Vault)

/-! ## Values -/

/-- The value of a name in a secret. -/
def Secret.Vault.value? (vault : Vault) (secret name : String) : Option String :=
  (vault.read secret).bind fun data => data.find? name

namespace Secret.Vault

variable {vault after : Vault} {secret name value : String}

/-- A secret that holds the same has the same values. -/
theorem value?_of_read (h : vault.value? secret name = some value)
    (hread : ∀ data, vault.read secret = some data → after.read secret = some data) :
    after.value? secret name = some value := by
  obtain ⟨data, hdata, hvalue⟩ := Option.bind_eq_some_iff.mp h
  rw [value?, hread data hdata]
  exact hvalue

/-- What is added is there afterwards. -/
theorem value?_merge {values : Data} (hvalue : values.find? name = some value)
    {data : Data} (h : (vault.merge secret values).1 = .ok data) :
    (vault.merge secret values).2.value? secret name = some value := by
  cases hread : vault.read secret with
  | none =>
    have hmissing : vault.secrets.find? secret = none := Option.map_eq_none_iff.mp hread
    rw [merge, modify, hmissing] at h
    cases h
  | some before =>
    rw [value?, merge, read_modify, if_pos rfl, hread, Option.map_some, Option.bind_some,
      Dict.find?_union, hvalue]
    rfl

/-- What is removed is not there afterwards. -/
theorem value?_remove {keys : Names} (h : keys.contains name = true) :
    (vault.remove secret keys).2.value? secret name = none := by
  rw [value?, remove, read_modify, if_pos rfl, Option.bind_eq_none_iff]
  intro data hdata
  obtain ⟨before, -, rfl⟩ := Option.map_eq_some_iff.mp hdata
  rw [Dict.find?_filter, Option.filter_eq_none_iff]
  intro value _
  rw [h]
  exact Bool.false_ne_true

end Secret.Vault

namespace Move

/-- With the move, a value is lost from a secret. -/
def Loses (move : Move) (secret name value : String) : Prop :=
  move.before.vault.value? secret name = some value ∧
    move.after.vault.value? secret name ≠ some value

/-- With the move, the job takes the lock. -/
def Takes (move : Move) (job : Nat) : Prop :=
  move.job = job ∧ move.before.holder = none ∧ move.after.holder = some job

/-- With the move, the job releases the lock. -/
def Releases (move : Move) (job : Nat) : Prop :=
  move.job = job ∧ move.before.holder = some job ∧ move.after.holder = none

/-- Whoever loses a value changes what a secret holds. -/
theorem Loses.changes {move : Move} {secret name value : String}
    (h : move.Loses secret name value) : move.Changes := by
  obtain ⟨hbefore, hafter⟩ := h
  obtain ⟨data, hread, hvalue⟩ := Option.bind_eq_some_iff.mp hbefore
  refine ⟨secret, data, hread, fun hsame => hafter ?_⟩
  rw [Vault.value?, hsame]
  exact hvalue

end Move

/-- The value was lost to another job, which had taken the lock after this one had released it. -/
def Displaced (moves : List Move) (job : Nat) (secret name value : String) : Prop :=
  ∃ released taken lost : Move, [released, taken, lost].Sublist moves ∧ released.Releases job ∧
    lost.job ≠ job ∧ taken.Takes lost.job ∧ lost.before.holder = some lost.job ∧
    lost.Loses secret name value

/-! ## How variables are added -/

namespace Operation.Returns

variable {coordinator : Coordinator} {xs : List (Exchange effects)}

/-- Of records, nothing but records is asked for. -/
theorem of_recordAll {records : List Audit.Record}
    (h : Returns (Coordinator.recordAll records) xs ()) :
    ∀ exchange ∈ xs, exchange.request.changes = false := by
  induction records generalizing xs with
  | nil =>
    obtain ⟨rfl, -⟩ := of_pure h
    exact nofun
  | cons record more ih =>
    obtain ⟨front, back, ⟨⟩, rfl, hfront, hback⟩ := of_bind h
    obtain ⟨answer, rest, rfl, hrest⟩ := Program.Follows.of_ask hfront
    obtain ⟨rfl, -⟩ := Program.Follows.of_done hrest
    intro exchange hexchange
    rcases List.mem_cons.mp hexchange with rfl | hexchange
    · rfl
    · exact ih hback exchange hexchange

/-- Variables are added under the lock by one call, which is the last one. -/
theorem of_addVariables {secret name : String} {values : Dict String} {imported : Bool}
    {names : Names} (h : Returns (coordinator.addVariables secret values imported) xs names)
    (hname : values.contains name = true) :
    ∃ front initial data records, xs = front ++
        ⟨Effect.secrets (.add (coordinator.keeper.resolve secret) values initial), .ok data⟩ ::
        ⟨Effect.unlock, ()⟩ :: records ∧
      ∀ exchange ∈ records, exchange.request.changes = false := by
  rw [Coordinator.addVariables, if_neg (Dict.not_isEmpty_of_contains hname)] at h
  obtain ⟨lock, back, before, rfl, hlock, hback⟩ := of_bind h
  obtain ⟨records, rest, ⟨⟩, rfl, hrecords, hrest⟩ := of_bind hback
  obtain ⟨rfl, -⟩ := of_pure hrest
  obtain ⟨inner, rfl, hinner⟩ := of_locked hlock
  obtain ⟨reads, more, current, rfl, -, hmore⟩ := of_bind hinner
  have hadd : ∀ {calls : List (Exchange effects)}, Returns (do
      Operation.ofOutcome (Coordinator.checkEach (Variable.checkNotBlank .secured) values.keys)
      let _ ← Keeper.add (coordinator.keeper.resolve secret) values current.isEmpty
      return current) calls before → ∃ data, calls =
        [⟨Effect.secrets (.add (coordinator.keeper.resolve secret) values current.isEmpty),
          .ok data⟩] := by
    intro calls hcalls
    obtain ⟨check, add, ⟨⟩, rfl, hcheck, hadd⟩ := of_bind hcalls
    obtain ⟨rfl, -⟩ := of_ofOutcome hcheck
    obtain ⟨added, last, data, rfl, hadded, hlast⟩ := of_bind hadd
    obtain ⟨rfl, -⟩ := of_pure hlast
    obtain ⟨answer, rfl, hanswer⟩ := of_call hadded
    obtain rfl : answer = .ok data := hanswer
    exact ⟨data, rfl⟩
  -- the check of the common variables, if there is one, comes before
  obtain ⟨check, data, rfl⟩ : ∃ check data, more = check ++
      [⟨Effect.secrets (.add (coordinator.keeper.resolve secret) values current.isEmpty),
        .ok data⟩] := by
    dsimp only at hmore
    split at hmore
    · obtain ⟨check, calls, ⟨⟩, rfl, -, hcalls⟩ := of_bind hmore
      obtain ⟨data, rfl⟩ := hadd hcalls
      exact ⟨check, data, rfl⟩
    · obtain ⟨data, rfl⟩ := hadd hmore
      exact ⟨[], data, rfl⟩
  refine ⟨⟨Effect.lock, ()⟩ :: (reads ++ check), current.isEmpty, data, records, ?_,
    of_recordAll hrecords⟩
  simp only [List.append_assoc, List.cons_append, List.nil_append, List.append_nil]

end Operation.Returns

/-! ## Moves of those who add -/

namespace System.Moves

variable {faulty : Bool} {owners : List Nat} {system later : System} {move : Move}

/-- What was added with success is there. -/
theorem value?_of_add (h : Moves faulty owners system move later) {secret name value : String}
    {values data : Data} {initial : Bool}
    (hadd : move.exchange = some ⟨Effect.secrets (.add secret values initial), .ok data⟩)
    (hvalue : values.find? name = some value) :
    move.after.vault.value? secret name = some value ∧ move.after.holder = move.before.holder := by
  obtain ⟨hanswer, hafter⟩ | ⟨-, -, error, herror⟩ := h.answers hadd
  · rw [hafter]
    exact ⟨Vault.value?_merge hvalue hanswer.symm, rfl⟩
  · cases herror

/-- Only the lock is released. -/
theorem after_of_unlock (h : Moves faulty owners system move later)
    (hunlock : move.exchange = some ⟨Effect.unlock, ()⟩) :
    move.after = { move.before with holder := none } :=
  h.answers hunlock

/-- Who asks for no change makes none. -/
theorem not_changes (h : Moves faulty owners system move later) {exchange : Exchange effects}
    (hexchange : move.exchange = some exchange) (hchanges : exchange.request.changes = false) :
    ¬ move.Changes := by
  rintro ⟨secret, data, hbefore, hafter⟩
  exact hafter ((h.answers hexchange).alters.read hchanges hbefore)

end System.Moves

/-! ## What is safe from whom -/

namespace Trace

variable {faulty : Bool} {owners : List Nat} {system later : System} {moves : List Move}
  {job : Nat} {secret name value : String}

/-- While a job holds the lock, others do not change the secrets that exist. -/
theorem kept (h : Trace faulty owners system moves later)
    (horder : ∀ move ∈ moves, move.InOrder) (hothers : ∀ move ∈ moves, move.job ≠ job)
    (hholder : system.shared.holder = some job) :
    later.shared.holder = some job ∧
      ∀ secret data, system.shared.vault.read secret = some data →
        later.shared.vault.read secret = some data := by
  induction h with
  | nil => exact ⟨hholder, fun _ _ hread => hread⟩
  | cons hmove _ ih =>
    rename_i system between later move more _
    have hfirst := horder move List.mem_cons_self
    have hne := hothers move List.mem_cons_self
    have hbefore : move.before.holder = some job := by rw [hmove.before_eq, hholder]
    -- nobody else can release the lock, or change a secret
    have hbetween : between.shared.holder = some job := by
      rw [← hmove.after_eq]
      rcases hfirst.holder with hsame | ⟨hfree, -⟩ | ⟨hother, -⟩
      · rw [hsame, hbefore]
      · rw [hbefore] at hfree
        cases hfree
      · rw [hbefore] at hother
        exact absurd (Option.some.inj hother).symm hne
    obtain ⟨hlater, hread⟩ := ih (fun other hother => horder other (List.mem_cons_of_mem _ hother))
      (fun other hother => hothers other (List.mem_cons_of_mem _ hother)) hbetween
    refine ⟨hlater, fun secret data hdata => hread secret data ?_⟩
    by_contra hlost
    have hchanges : move.Changes := by
      refine ⟨secret, data, ?_, ?_⟩
      · rw [hmove.before_eq, hdata]
      · rw [hmove.after_eq]
        exact hlost
    have hother := hfirst.changes hchanges
    rw [hbefore] at hother
    exact hne (Option.some.inj hother).symm

/-- A value is lost only to a job that holds the lock, and has taken it on the way, unless it was
held from the beginning. -/
theorem kept_or_lost (h : Trace faulty owners system moves later)
    (horder : ∀ move ∈ moves, move.InOrder)
    (hvalue : system.shared.vault.value? secret name = some value) :
    later.shared.vault.value? secret name = some value ∨
      ∃ lost ∈ moves, lost.Loses secret name value ∧ lost.before.holder = some lost.job ∧
        (system.shared.holder = some lost.job ∨
          ∃ taken : Move, [taken, lost].Sublist moves ∧ taken.Takes lost.job) := by
  induction h with
  | nil => exact .inl hvalue
  | cons hmove _ ih =>
    rename_i system between later move more _
    have hfirst := horder move List.mem_cons_self
    by_cases hbetween : between.shared.vault.value? secret name = some value
    · rcases ih (fun other hother => horder other (List.mem_cons_of_mem _ hother)) hbetween with
        hlater | ⟨lost, hmem, hloses, hholder, htook⟩
      · exact .inl hlater
      · refine .inr ⟨lost, List.mem_cons_of_mem _ hmem, hloses, hholder, ?_⟩
        rcases htook with hheld | ⟨taken, hsub, htakes⟩
        · rw [← hmove.after_eq] at hheld
          rw [← hmove.before_eq]
          rcases hfirst.holder with hsame | ⟨hfree, htaken⟩ | ⟨-, hreleased⟩
          · exact .inl (hsame ▸ hheld)
          · -- the lock was taken with this very move
            obtain hjob : move.job = lost.job := Option.some.inj (htaken.symm.trans hheld)
            exact .inr ⟨move, (List.singleton_sublist.mpr hmem).cons_cons _, hjob, hfree, hheld⟩
          · rw [hreleased] at hheld
            cases hheld
        · exact .inr ⟨taken, hsub.cons _, htakes⟩
    · have hloses : move.Loses secret name value := by
        refine ⟨?_, ?_⟩
        · rw [hmove.before_eq, hvalue]
        · rw [hmove.after_eq]
          exact hbetween
      have hholder := hfirst.changes hloses.changes
      refine .inr ⟨move, List.mem_cons_self, hloses, hholder, .inl ?_⟩
      rw [← hmove.before_eq]
      exact hholder

/-- What is written with the lock held is there when the lock is released, and then only one who
takes the lock can lose it. -/
theorem kept_or_lost_of_written {written released : Move} {between late : List Move}
    (h : Trace faulty owners system (written :: (between ++ released :: late)) later)
    (horder : ∀ move ∈ written :: (between ++ released :: late), move.InOrder)
    (hheld : written.after.holder = some job)
    (hvalue : written.after.vault.value? secret name = some value)
    (hothers : ∀ move ∈ between, move.job ≠ job) (hreleaser : released.job = job)
    (hrelease : released.exchange = some ⟨Effect.unlock, ()⟩) :
    later.shared.vault.value? secret name = some value ∨
      ∃ lost ∈ late, lost.Loses secret name value ∧ lost.before.holder = some lost.job ∧
        ∃ taken : Move, [released, taken, lost].Sublist (released :: late) ∧
          released.Releases job ∧ taken.Takes lost.job := by
  cases h with
  | cons hwritten hrest =>
    rw [hwritten.after_eq] at hheld hvalue
    obtain ⟨held, hbetween, hrest⟩ := hrest.split
    obtain ⟨hholder, hread⟩ := hbetween.kept (fun move hmem => horder move (by simp [hmem]))
      hothers hheld
    have hstill := Vault.value?_of_read hvalue (hread _)
    cases hrest with
    | cons hreleased hrest =>
      rename_i free
      have hafter := hreleased.after_of_unlock hrelease
      have hbefore : released.before.holder = some job := hreleased.before_eq ▸ hholder
      have hfree : free.shared.holder = none := by rw [← hreleased.after_eq, hafter]
      have hthere : free.shared.vault.value? secret name = some value := by
        rw [← hreleased.after_eq, hafter, hreleased.before_eq]
        exact hstill
      rcases hrest.kept_or_lost (fun move hmem => horder move (by simp [hmem])) hthere with
        hlater | ⟨lost, hmem, hloses, hholder, htook⟩
      · exact .inl hlater
      · obtain ⟨taken, hsub, htakes⟩ := htook.resolve_left (by rw [hfree]; exact nofun)
        have hreleases : released.Releases job := ⟨hreleaser, hbefore, by rw [hafter]⟩
        exact .inr ⟨lost, hmem, hloses, hholder, taken, hsub.cons_cons _, hreleases, htakes⟩

/-- **What was added stays.** Where all moves are in order and variables were added with success,
each is in the secret with its value, or was lost to another job which took the lock after the one
that added it had released it. -/
theorem added_stays {coordinator : Coordinator} {values : Dict String} {imported : Bool}
    {names : Names} (h : Trace faulty owners system moves later)
    (howners : owners.length = system.shared.started.length) (hjob : job ∉ owners)
    (horder : ∀ move ∈ moves, move.InOrder)
    (hreturns : Operation.Returns (coordinator.addVariables secret values imported)
      (exchanges job moves) names)
    (hvalue : values.find? name = some value) :
    later.shared.vault.value? (coordinator.keeper.resolve secret) name = some value ∨
      Displaced moves job (coordinator.keeper.resolve secret) name value := by
  obtain ⟨front, initial, data, records, hexchanges, hrecords⟩ :=
    hreturns.of_addVariables (Dict.contains_of_find? hvalue)
  have hsome : ∀ move ∈ moves, move.job = job → move.exchange.isSome = true := by
    refine h.isSome_exchange howners hjob fun exchange hexchange => ?_
    have hturn : InTurn false .idle (coordinator.addVariables secret values imported) :=
      InTurn.addVariables secret values imported
    obtain ⟨turn, hallows⟩ := Program.Obeys.allows_of_mem hturn hreturns exchange hexchange
    exact hallows.starts_eq_false
  obtain ⟨early, written, between, released, late, rfl, ⟨hwriter, hwrite⟩, hothers,
    ⟨hreleaser, hrelease⟩, hlate⟩ := exchanges_eq_append hsome hexchanges
  obtain ⟨start, -, hrest⟩ := h.split
  have horder' : ∀ move ∈ written :: (between ++ released :: late), move.InOrder :=
    fun move hmem => horder move (List.mem_append_right _ hmem)
  -- the variable is there once it is written
  obtain ⟨_, _, _, hwritten⟩ := hrest.moves_of_mem written List.mem_cons_self
  obtain ⟨hadded, hsame⟩ := hwritten.value?_of_add hwrite hvalue
  have hheld : written.before.holder = some job := by
    rw [← hwriter]
    exact (horder' written List.mem_cons_self).writes _ hwrite rfl
  rcases hrest.kept_or_lost_of_written horder' (hsame.trans hheld) hadded hothers hreleaser
      hrelease with hlater | ⟨lost, hmem, hloses, hholder, taken, hsub, hreleases, htakes⟩
  · exact .inl hlater
  · have hlast : [released, taken, lost].Sublist
        (early ++ written :: (between ++ released :: late)) :=
      ((hsub.trans (List.sublist_append_right _ _)).cons _).trans (List.sublist_append_right _ _)
    refine .inr ⟨released, taken, lost, hlast, hreleases, fun hjob => ?_, htakes, hholder, hloses⟩
    -- the one who added it leaves nothing but records after that
    obtain ⟨_, _, _, hlost⟩ := h.moves_of_mem lost (by simp [hmem])
    obtain ⟨exchange, hexchange⟩ := Option.isSome_iff_exists.mp (hsome lost (by simp [hmem]) hjob)
    have hrecord : exchange ∈ exchanges job late :=
      List.mem_filterMap.mpr ⟨lost, hmem, (if_pos hjob).trans hexchange⟩
    rw [hlate] at hrecord
    exact hlost.not_changes hexchange (hrecords exchange hrecord) hloses.changes

end Trace

end EngineCatalog
