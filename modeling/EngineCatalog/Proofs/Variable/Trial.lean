import EngineCatalog.Proofs.Catalog.Publication
import EngineCatalog.Proofs.Secret.Holds
import EngineCatalog.Variable.Coordinator
import Mathlib.Data.List.Nodup

/-!
# Trials

In a trial an operation has everything to itself: both stores, the lock, and a clock that moves on
only while it waits. What is to come of each removal is planned beforehand: it cannot be started, or
it is carried out at a moment, or it fails at a moment and then nothing is removed.

* `Plan` — what is to come of the removals; `Trial` — how things stand.
* `Trial.answer` — the answer to an effect. Of removals that are waited for, those come in time that
  come before the moment up to which they are waited for; they come in the order of their moments.
* `Trial.Ends` — the operation ends with an outcome.
-/

namespace EngineCatalog

open KeyValue (Store)
open Secret (Data Removal Vault)

/-! ## Plans -/

/-- What is to come of the removal from a secret. -/
inductive Fate where
  /-- it cannot be started -/
  | refused (error : Error)
  /-- it is carried out at a moment -/
  | done (moment : Nat)
  /-- at a moment the backend rejects it -/
  | rejected (moment status : Nat) (message : String)
  /-- at a moment the backend gives it up and says nothing -/
  | abandoned (moment : Nat)

namespace Fate

/-- The moment at which something comes of the removal. -/
def moment : Fate → Nat
  | .refused _ => 0
  | .done moment => moment
  | .rejected moment _ _ => moment
  | .abandoned moment => moment

/-- The reason for which the removal cannot be started, if it cannot. -/
def refusal? : Fate → Option Error
  | .refused error => some error
  | _ => none

/-- Something comes of the removal before a moment, if one is given. -/
def isTimely (bound : Option Nat) (fate : Fate) : Bool :=
  bound.all fun moment => fate.moment < moment

/-- What comes of a removal, and the secrets after it. -/
def comes (vault : Vault) (secret : String) (keys : Names) : Fate → Removal × Vault
  | .refused _ => (.abandoned, vault)
  | .done _ => vault.finish secret keys
  | .rejected _ status message => (.rejected status message, vault)
  | .abandoned _ => (.abandoned, vault)

end Fate

/-- What is to come of the removals, by secrets. -/
abbrev Plan : Type := String → Fate

/-! ## Trials -/

/-- A removal that was started. -/
structure Begun where
  /-- by what it is known -/
  ticket : Nat
  /-- the secret -/
  secret : String
  /-- what is removed -/
  keys : Names

namespace Begun

/-- What a removal is to remove. -/
def target (begun : Begun) : String × Names := (begun.secret, begun.keys)

/-- The removal as the one who started it knows it. -/
def pending (begun : Begun) : Keeper.Pending := ⟨begun.secret, begun.ticket⟩

end Begun

/-- How things stand in a trial. -/
structure Trial where
  /-- the moment -/
  clock : Nat
  /-- the key-value store -/
  store : Store
  /-- the secrets -/
  vault : Vault
  /-- the removals that were asked for, in order -/
  asked : List (String × Names)
  /-- those of them that were started -/
  begun : List Begun
  /-- what has come of them so far, in the order in which it came -/
  came : List (Nat × Removal)
  /-- the audit records -/
  records : List Audit.Record

namespace Trial

/-- The beginning of a trial. -/
def opening (clock : Nat) (store : Store) (vault : Vault) : Trial :=
  ⟨clock, store, vault, [], [], [], []⟩

/-- Starts a removal, if that is planned. -/
def start (plan : Plan) (trial : Trial) (secret : String) (keys : Names) : Outcome Nat × Trial :=
  let asked := { trial with asked := trial.asked ++ [(secret, keys)] }
  match (plan secret).refusal? with
  | some error => (.error error, asked)
  | none =>
    let ticket := trial.begun.length
    (.ok ticket, { asked with begun := trial.begun ++ [⟨ticket, secret, keys⟩] })

/-- What is planned comes of a removal. -/
def come (plan : Plan) (trial : Trial) (one : Begun) : Trial :=
  let (removal, vault) := (plan one.secret).comes trial.vault one.secret one.keys
  { trial with vault := vault, came := trial.came ++ [(one.ticket, removal)] }

/-- The removals of which something is still to come before a moment, in the order in which it
does. -/
def due (plan : Plan) (trial : Trial) (bound : Option Nat) : List Begun :=
  (trial.begun.filter fun one =>
    (trial.came.lookup one.ticket).isNone && (plan one.secret).isTimely bound).mergeSort
    fun one other => (plan one.secret).moment ≤ (plan other.secret).moment

/-- Waits until something has come of all removals, but no longer than up to a moment. -/
def wait (plan : Plan) (trial : Trial) (bound : Option Nat) : Trial :=
  let last := (trial.begun.map fun one => (plan one.secret).moment).foldl max trial.clock
  let after := (trial.due plan bound).foldl (come plan) trial
  { after with clock := (bound.map fun moment => min last (max trial.clock moment)).getD last }

/-- The answer to an effect, and how things stand after it. -/
def answer (plan : Plan) : (effect : Effect) → Trial → effect.Answer × Trial
  | .store call, trial =>
    ((trial.store.answer call).1, { trial with store := (trial.store.answer call).2 })
  | .secrets call, trial =>
    ((trial.vault.answer call).1, { trial with vault := (trial.vault.answer call).2 })
  | .startRemoval secret keys, trial => trial.start plan secret keys
  | .awaitRemovals tickets bound, trial =>
    let after := trial.wait plan bound
    (tickets.map fun ticket => after.came.lookup ticket, after)
  | .lock, trial => ((), trial)
  | .unlock, trial => ((), trial)
  | .record record, trial => ((), { trial with records := trial.records ++ [record] })
  | .now, trial => (trial.clock, trial)
  | .sleep millis, trial => ((), { trial with clock := trial.clock + millis })
  | .choose _, trial => ((0 : Nat), trial)
  | .until moment effect, trial =>
    let (answer, after) := Trial.answer plan effect trial
    if after.clock ≤ moment then (some answer, after)
    else (none, { trial with clock := max trial.clock moment })

/-- The operation ends with an outcome. -/
def Ends (plan : Plan) {α : Type} (before : Trial) (work : Work α) (outcome : Outcome α)
    (after : Trial) : Prop :=
  Program.run (σ := effects) (answer plan) work.run before = some (outcome, after)

end Trial

/-! ## How operations end -/

namespace Trial

variable {plan : Plan} {α β : Type} {s t u : Trial} {outcome : Outcome α}

namespace Ends

theorem pure (plan : Plan) (result : α) (s : Trial) :
    Ends plan s (Pure.pure result) (.ok result) s := rfl

theorem fail (plan : Plan) (error : Error) (s : Trial) :
    Ends plan s (.fail error : Work α) (.error error) s := rfl

theorem ofOutcome (plan : Plan) (outcome : Outcome α) (s : Trial) :
    Ends plan s (.ofOutcome outcome) outcome s := rfl

theorem call (plan : Plan) (effect : Effect) (use : effect.Answer → Outcome α) (s : Trial) :
    Ends plan s (.call (σ := effects) effect use) (use (answer plan effect s).1)
      (answer plan effect s).2 := rfl

theorem tell (plan : Plan) (effect : Effect) (value : effect.Answer → α) (s : Trial) :
    Ends plan s (.tell (σ := effects) effect value) (.ok (value (answer plan effect s).1))
      (answer plan effect s).2 := rfl

theorem bind {work : Work β} {f : β → Work α} {result : β} (h : Ends plan s work (.ok result) t)
    (hf : Ends plan t (f result) outcome u) : Ends plan s (work >>= f) outcome u := by
  refine (Program.run_bind (σ := effects) _ work.run _ s).trans ?_
  rw [show Program.run _ work.run s = _ from h]
  exact hf

/-- An operation that fails ends what it stands in. -/
theorem bind_error {work : Work β} {f : β → Work α} {error : Error}
    (h : Ends plan s work (.error error) t) : Ends plan s (work >>= f) (.error error) t := by
  refine (Program.run_bind (σ := effects) _ work.run _ s).trans ?_
  rw [show Program.run _ work.run s = _ from h]
  rfl

/-- What only calls the key-value store ends as it is served by the store. -/
theorem ofStore {operation : Operation KeyValue.keyValue α} {store : Store}
    (h : s.store.serve operation = some (outcome, store)) :
    Ends plan s (Work.ofStore operation) outcome { s with store := store } := by
  have hlift : ∀ (program : Program KeyValue.keyValue (Outcome α)) (s : Trial),
      s.store.serve program = some (outcome, store) →
        Program.run (σ := effects) (answer plan)
          (Program.lift (σ := KeyValue.keyValue) (τ := effects) Effect.store
            (fun _ answer => answer) program) s = some (outcome, { s with store := store }) := by
    intro program
    induction program with
    | done result =>
      rintro s ⟨⟩
      rfl
    | ask call next ih => exact fun s => ih _ { s with store := (s.store.answer call).2 }
    | overflow => nofun
  exact hlift operation s h

theorem startRemoval {secret : String} {keys : Names} {result : Outcome Nat}
    (h : s.start plan secret keys = (result, t)) :
    Ends plan s (Keeper.startRemoval secret keys).attempt
      (.ok (result.map fun ticket => ⟨secret, ticket⟩)) t := by
  have hanswer : answer plan (.startRemoval secret keys) s = (result, t) := h
  change Program.run _ (Program.ask (σ := effects) (Effect.startRemoval secret keys) _) s = _
  rw [Program.run, hanswer]
  cases result <;> rfl

theorem locked {work : Work α} (h : Ends plan s work outcome t) :
    Ends plan s (Work.locked work) outcome t := by
  refine (Program.run_bind (σ := effects) (answer plan) work.run _ s).trans ?_
  rw [show Program.run _ work.run s = _ from h]
  rfl

theorem recordAll (records : List Audit.Record) (s : Trial) :
    Ends plan s (Coordinator.recordAll records) (.ok ())
      { s with records := s.records ++ records } := by
  induction records generalizing s with
  | nil =>
    rw [List.append_nil]
    exact pure plan () s
  | cons record more ih =>
    have hmore := ih { s with records := s.records ++ [record] }
    rw [List.append_assoc] at hmore
    exact bind (tell plan (Effect.record record) id s) hmore

end Ends

end Trial

/-! ## What comes of removals -/

namespace Fate

variable {vault other : Vault} {secret : String} {keys : Names}

/-- What comes of a removal depends on its secret alone. -/
theorem comes_congr (fate : Fate) (h : vault.secrets.find? secret = other.secrets.find? secret) :
    (fate.comes vault secret keys).1 = (fate.comes other secret keys).1 ∧
      (fate.comes vault secret keys).2.secrets.find? secret
        = (fate.comes other secret keys).2.secrets.find? secret := by
  cases fate with
  | refused error => exact ⟨rfl, h⟩
  | rejected moment status message => exact ⟨rfl, h⟩
  | abandoned moment => exact ⟨rfl, h⟩
  | done moment =>
    rw [comes, comes, Vault.finish, Vault.finish, Vault.remove, Vault.remove, Vault.modify,
      Vault.modify, h]
    cases other.secrets.find? secret with
    | none => exact ⟨rfl, h⟩
    | some stored =>
      refine ⟨rfl, ?_⟩
      rw [Dict.find?_insert_self, Dict.find?_insert_self]

/-- Other secrets stay as they are. -/
theorem find?_comes_of_ne (fate : Fate) {name : String} (h : secret ≠ name) :
    (fate.comes vault secret keys).2.secrets.find? name = vault.secrets.find? name := by
  cases fate with
  | refused error => rfl
  | rejected moment status message => rfl
  | abandoned moment => rfl
  | done moment => exact Vault.find?_finish h keys

end Fate

namespace Trial

/-- Removals from different secrets come as if each of them came alone. -/
theorem foldl_come (plan : Plan) {removals : List Begun} (trial : Trial)
    (hdistinct : (removals.map Begun.secret).Nodup) :
    ∃ vault, removals.foldl (come plan) trial = { trial with
        vault := vault
        came := trial.came ++ removals.map fun one =>
          (one.ticket, ((plan one.secret).comes trial.vault one.secret one.keys).1) } ∧
      (∀ one ∈ removals, vault.secrets.find? one.secret
        = ((plan one.secret).comes trial.vault one.secret one.keys).2.secrets.find? one.secret) ∧
      ∀ secret, secret ∉ removals.map Begun.secret →
        vault.secrets.find? secret = trial.vault.secrets.find? secret := by
  induction removals generalizing trial with
  | nil => exact ⟨trial.vault, by simp, nofun, fun _ _ => rfl⟩
  | cons first more ih =>
    rw [List.map_cons, List.nodup_cons] at hdistinct
    obtain ⟨hfirst, hmore⟩ := hdistinct
    obtain ⟨vault, hfold, hmine, hothers⟩ := ih (come plan trial first) hmore
    -- what comes first leaves the other secrets as they were
    have hsame : ∀ one ∈ more, (come plan trial first).vault.secrets.find? one.secret
        = trial.vault.secrets.find? one.secret := fun one hone =>
      (plan first.secret).find?_comes_of_ne fun heq => hfirst (heq ▸ List.mem_map_of_mem hone)
    refine ⟨vault, ?_, ?_, fun secret hsecret => ?_⟩
    · rw [List.foldl_cons, hfold, List.map_cons]
      have hcame : more.map (fun one => (one.ticket, ((plan one.secret).comes
            (come plan trial first).vault one.secret one.keys).1))
          = more.map fun one => (one.ticket, ((plan one.secret).comes
            trial.vault one.secret one.keys).1) :=
        List.map_congr_left fun one hone => by
          rw [((plan one.secret).comes_congr (hsame one hone)).1]
      rw [hcame]
      simp [come]
    · intro one hone
      rcases List.mem_cons.mp hone with rfl | hone
      · exact hothers one.secret hfirst
      · rw [hmine one hone]
        exact ((plan one.secret).comes_congr (hsame one hone)).2
    · rw [List.map_cons, List.mem_cons, not_or] at hsecret
      rw [hothers secret hsecret.2]
      exact (plan first.secret).find?_comes_of_ne (Ne.symm hsecret.1)

/-- What has come of a removal, if no other one is known by its ticket. -/
theorem lookup_tickets {removals : List Begun} (hdistinct : (removals.map Begun.ticket).Nodup)
    (comes : Begun → Removal) {one : Begun} (hone : one ∈ removals) :
    (removals.map fun other => (other.ticket, comes other)).lookup one.ticket
      = some (comes one) := by
  induction removals with
  | nil => cases hone
  | cons first more ih =>
    rw [List.map_cons, List.nodup_cons] at hdistinct
    rw [List.map_cons, List.lookup_cons]
    rcases List.mem_cons.mp hone with rfl | hone
    · rw [beq_self_eq_true]
    · have hne : one.ticket ≠ first.ticket := fun heq =>
        hdistinct.1 (heq ▸ List.mem_map_of_mem hone)
      rw [beq_false_of_ne hne]
      exact ih hdistinct.2 hone

/-- Where nothing has come yet, and no two removals are from the same secret, after the wait has come
what is planned to come in time, and nothing else. -/
theorem wait_eq (plan : Plan) (trial : Trial) (bound : Option Nat) (hcame : trial.came = [])
    (hdistinct : (trial.begun.map Begun.secret).Nodup)
    (htickets : (trial.begun.map Begun.ticket).Nodup) :
    ∃ clock vault came,
      trial.wait plan bound = { trial with clock := clock, vault := vault, came := came } ∧
      (∀ one ∈ trial.begun, came.lookup one.ticket
        = if (plan one.secret).isTimely bound
          then some ((plan one.secret).comes trial.vault one.secret one.keys).1 else none) ∧
      (∀ one ∈ trial.begun, vault.secrets.find? one.secret
        = if (plan one.secret).isTimely bound
          then ((plan one.secret).comes trial.vault one.secret one.keys).2.secrets.find? one.secret
          else trial.vault.secrets.find? one.secret) ∧
      ∀ secret, secret ∉ trial.begun.map Begun.secret →
        vault.secrets.find? secret = trial.vault.secrets.find? secret := by
  have hmem : ∀ one, one ∈ trial.due plan bound ↔
      one ∈ trial.begun ∧ (plan one.secret).isTimely bound = true := by
    intro one
    rw [due, List.mem_mergeSort, List.mem_filter, hcame]
    simp
  -- those that come in time are some of those that were started, in another order
  have hperm := List.mergeSort_perm (trial.begun.filter fun one =>
    (trial.came.lookup one.ticket).isNone && (plan one.secret).isTimely bound)
    fun one other => (plan one.secret).moment ≤ (plan other.secret).moment
  have hdue : ∀ {β : Type} (f : Begun → β), (trial.begun.map f).Nodup →
      ((trial.due plan bound).map f).Nodup := fun f hnodup =>
    ((hperm.map f).nodup_iff).mpr (hnodup.sublist (List.filter_sublist.map f))
  obtain ⟨vault, hfold, hmine, hothers⟩ := foldl_come plan trial
    (hdue Begun.secret hdistinct)
  rw [hcame, List.nil_append] at hfold
  refine ⟨_, vault, _, by rw [wait, hfold], fun one hone => ?_, fun one hone => ?_,
    fun secret hsecret => ?_⟩
  · split
    · rename_i htimely
      exact lookup_tickets (hdue Begun.ticket htickets) _ ((hmem one).mpr ⟨hone, htimely⟩)
    · rename_i hlate
      rw [List.lookup_eq_none_iff]
      intro found hfound
      obtain ⟨other, hother, rfl⟩ := List.mem_map.mp hfound
      obtain ⟨hbegun, htimely⟩ := (hmem other).mp hother
      rw [bne_iff_ne]
      intro heq
      exact hlate (List.inj_on_of_nodup_map htickets hone hbegun heq ▸ htimely)
  · split
    · rename_i htimely
      exact hmine one ((hmem one).mpr ⟨hone, htimely⟩)
    · rename_i hlate
      refine hothers one.secret fun hsecret => hlate ?_
      obtain ⟨other, hother, heq⟩ := List.mem_map.mp hsecret
      obtain ⟨hbegun, htimely⟩ := (hmem other).mp hother
      exact List.inj_on_of_nodup_map hdistinct hbegun hone heq ▸ htimely
  · refine hothers secret fun hdone => ?_
    obtain ⟨one, hone, rfl⟩ := List.mem_map.mp hdone
    exact hsecret (List.mem_map_of_mem ((hmem one).mp hone).1)

end Trial

end EngineCatalog
