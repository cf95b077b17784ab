import EngineCatalog.Proofs.Variable.AuditTrail
import EngineCatalog.Proofs.Variable.Trial
import Mathlib.Data.List.Perm.Subperm

/-!
# Deleting from several secrets, some of which fail

A batch deletes from all its targets at a time, and waits for the removals no longer than up to one
deadline. Whatever the secrets are and whatever is planned to come of the removals, the batch ends;
it names exactly those targets that failed, each with the reason, deletes from the others exactly
what it was asked to, and leaves records of that and of nothing else
(`Coordinator.deleteFromSecrets_exact`).

* `Coordinator.FailsWith` — the reasons for which a target fails, with the words for each.
* `Coordinator.BatchResult` — what a batch comes to.
-/

namespace EngineCatalog

open KeyValue (Store)
open Secret (Data Removal Vault)

/-- Of two dictionaries, where one has all keys of the other, both are of one size if they have the
same keys. -/
theorem Dict.size_eq_iff {α β : Type} {dict : Dict α} {other : Dict β}
    (h : ∀ key, dict.contains key = true → other.contains key = true) :
    dict.size = other.size ↔ ∀ key, other.contains key = true → dict.contains key = true := by
  have hsub : dict.keys ⊆ other.keys := fun key hkey =>
    mem_keys_iff.mpr (h key (mem_keys_iff.mp hkey))
  have hlength : dict.size = other.size ↔ dict.keys.length = other.keys.length := by
    simp [Dict.keys, Sorted.keys, Dict.size]
  rw [hlength]
  constructor
  · intro hsame key hkey
    have hperm := (List.subperm_of_subset dict.nodup_keys hsub).perm_of_length_le hsame.ge
    exact mem_keys_iff.mp (hperm.mem_iff.mpr (mem_keys_iff.mpr hkey))
  · intro hall
    have hback : other.keys ⊆ dict.keys := fun key hkey =>
      mem_keys_iff.mpr (hall key (mem_keys_iff.mp hkey))
    have hperm := (List.perm_ext_iff_of_nodup dict.nodup_keys other.nodup_keys).mpr fun _ =>
      ⟨(hsub ·), (hback ·)⟩
    exact hperm.length_eq

namespace Coordinator

/-! ## What a batch comes to -/

section Result

variable (coordinator : Coordinator) (requested : Dict Names)

/-- The secret is one that a requested name stands for. -/
def IsTarget (secret : String) : Prop :=
  ∃ request ∈ requested.entries, coordinator.keeper.resolve request.1 = secret

/-- The variable is to be deleted from the secret, under whatever name of the secret. -/
def IsToDelete (secret name : String) : Prop :=
  ∃ request ∈ requested.entries,
    coordinator.keeper.resolve request.1 = secret ∧ request.2.contains name = true

variable (plan : Plan) (clock : Nat) (vault : Vault)

/-- The moment lies before the deadline of a batch, if it has one. -/
def IsInTime (moment : Nat) : Prop :=
  ∀ after, coordinator.batchTimeout = some after → moment < clock + after.millis

/-- The target fails, and these are the words for the reason. -/
inductive FailsWith (secret : String) : String → Prop where
  /-- there is no such secret among those of the catalog -/
  | missing (hmissing : (vault.list coordinator.keeper.label).contains secret = false) :
    FailsWith secret (Error.secretNotFound secret).message
  /-- the removal cannot be started -/
  | refused {error : Error}
    (hlisted : (vault.list coordinator.keeper.label).contains secret = true)
    (hplan : (plan secret).refusal? = some error) :
    FailsWith secret s!"Failed to delete variables from secret: {secret}"
  /-- the removal is rejected in time -/
  | rejected {moment status : Nat} {message : String}
    (hlisted : (vault.list coordinator.keeper.label).contains secret = true)
    (hplan : plan secret = .rejected moment status message)
    (htime : coordinator.IsInTime clock moment) :
    FailsWith secret (Error.secretBackend secret status message).message
  /-- the removal is given up in time -/
  | abandoned {moment : Nat}
    (hlisted : (vault.list coordinator.keeper.label).contains secret = true)
    (hplan : plan secret = .abandoned moment) (htime : coordinator.IsInTime clock moment) :
    FailsWith secret
      (Error.secretBackend secret 500 "secret update abandoned without an outcome").message
  /-- nothing comes of the removal in time -/
  | late {after : Span}
    (hlisted : (vault.list coordinator.keeper.label).contains secret = true)
    (hplan : (plan secret).refusal? = none) (hafter : coordinator.batchTimeout = some after)
    (hlate : clock + after.millis ≤ (plan secret).moment) :
    FailsWith secret (Error.secretTimeout secret after).message

/-- The target does not fail. -/
def Succeeds (secret : String) : Prop :=
  coordinator.IsTarget requested secret ∧
    ∀ message, ¬ coordinator.FailsWith plan clock vault secret message

/-- There are targets, and all of them fail. -/
def AllFail : Prop :=
  requested.isEmpty = false ∧ ∀ secret, coordinator.IsTarget requested secret →
    ∃ message, coordinator.FailsWith plan clock vault secret message

/-- What a batch comes to that is started at a moment with these secrets. -/
structure BatchResult (outcome : Outcome (List SecretFailure)) (after : Trial) : Prop where
  /-- from each target among the secrets of the catalog, all is removed together that is to be
  deleted from it -/
  asked : ∀ secret keys, (secret, keys) ∈ after.asked ↔
    coordinator.IsTarget requested secret ∧
      (vault.list coordinator.keeper.label).contains secret = true ∧
      ∀ name, keys.contains name = true ↔ coordinator.IsToDelete requested secret name
  /-- no secret has two removals -/
  once : (after.asked.map Prod.fst).Nodup
  /-- the targets that fail are named in order, each with the reason; it is an error if all do -/
  failures : ∃ failures : List SecretFailure,
    failures.Pairwise (fun one other => one.secret < other.secret) ∧
    (∀ failure, failure ∈ failures ↔ coordinator.IsTarget requested failure.secret ∧
      coordinator.FailsWith plan clock vault failure.secret failure.message) ∧
    (coordinator.AllFail requested plan clock vault ∧
        outcome = .error (.allSecretsFailed failures) ∨
      ¬ coordinator.AllFail requested plan clock vault ∧ outcome = .ok failures)
  /-- a target that does not fail keeps what was not to be deleted from it -/
  deleted : ∀ secret, coordinator.Succeeds requested plan clock vault secret →
    ∃ stored data, vault.secrets.find? secret = some stored ∧
      after.vault.secrets.find? secret = some { stored with data := data } ∧
      ∀ name value, data.find? name = some value ↔ stored.data.find? name = some value ∧
        ¬ coordinator.IsToDelete requested secret name
  /-- all other secrets are as they were -/
  kept : ∀ secret, ¬ coordinator.Succeeds requested plan clock vault secret →
    after.vault.secrets.find? secret = vault.secrets.find? secret
  /-- there is a record for each variable that was there and is deleted, in the order of the secrets
  and of the names within each of them -/
  records : ∃ deletions : List (String × String),
    after.records = deletions.map (fun one => .secured one.2 one.1 .delete) ∧
    deletions.Pairwise (fun one other => one.1 < other.1 ∨ one.1 = other.1 ∧ one.2 < other.2) ∧
    ∀ secret name, (secret, name) ∈ deletions ↔
      coordinator.Succeeds requested plan clock vault secret ∧
        coordinator.IsToDelete requested secret name ∧
        ((vault.read secret).getD Dict.empty).contains name = true

end Result

/-! ## Failures that are put together -/

section Joined

variable {said : String → Option String} {failures after : Dict String}

/-- What is said of some secrets is put over the failures so far. -/
def Joined (said : String → Option String) (secrets : List String)
    (failures after : Dict String) : Prop :=
  ∀ secret, after.find? secret =
    if secret ∈ secrets then (said secret).or (failures.find? secret) else failures.find? secret

theorem joined_nil (said : String → Option String) (failures : Dict String) :
    Joined said [] failures failures := fun _ => (if_neg List.not_mem_nil).symm

/-- What is said of one secret is put there before what is said of the others. -/
theorem Joined.cons {secret : String} {more : List String} {between : Dict String}
    (hfirst : ∀ name, between.find? name =
      if secret = name then (said name).or (failures.find? name) else failures.find? name)
    (h : Joined said more between after) : Joined said (secret :: more) failures after := by
  intro name
  rw [h name, hfirst name]
  by_cases hname : secret = name
  · subst hname
    rw [if_pos rfl, if_pos List.mem_cons_self, ← Option.or_assoc, Option.or_self, ite_self]
  · rw [if_neg hname]
    by_cases hmore : name ∈ more
    · rw [if_pos hmore, if_pos (List.mem_cons_of_mem _ hmore)]
    · rw [if_neg hmore, if_neg]
      rintro (_ | ⟨_, hmem⟩)
      · exact hname rfl
      · exact hmore hmem

/-- A failure that is put there. -/
theorem find?_insert_said {secret message : String} (hsaid : said secret = some message)
    (failures : Dict String) (name : String) :
    (failures.insert secret message).find? name =
      if secret = name then (said name).or (failures.find? name) else failures.find? name := by
  rw [Dict.find?_insert]
  by_cases hname : secret = name
  · subst hname
    rw [if_pos rfl, if_pos rfl, hsaid, Option.some_or]
  · rw [if_neg hname, if_neg hname]

/-- Where nothing is said, nothing is put there. -/
theorem find?_of_not_said {secret : String} (hsaid : said secret = none)
    (failures : Dict String) (name : String) :
    failures.find? name =
      if secret = name then (said name).or (failures.find? name) else failures.find? name := by
  by_cases hname : secret = name
  · subst hname
    rw [if_pos rfl, hsaid, Option.none_or]
  · rw [if_neg hname]

theorem joined_addFailures {outcomes : List (Keeper.Pending × Outcome Data)}
    (h : ∀ one ∈ outcomes, said one.1.secret = match one.2 with
      | .ok _ => none
      | .error error => some error.message) (failures : Dict String) :
    Joined said (outcomes.map fun one => one.1.secret) failures
      (addFailures failures outcomes) := by
  induction outcomes generalizing failures with
  | nil => exact joined_nil said failures
  | cons one more ih =>
    obtain ⟨hone, hmore⟩ := List.forall_mem_cons.mp h
    obtain ⟨pending, outcome⟩ := one
    cases outcome with
    | ok data => exact Joined.cons (find?_of_not_said hone failures) (ih hmore failures)
    | error error =>
      exact Joined.cons (find?_insert_said hone failures)
        (ih hmore (failures.insert pending.secret error.message))

end Joined

/-! ## The words for the reasons -/

/-- What is said of a target when the removals are started. -/
def refusal? (plan : Plan) (listed : Dict Data) (secret : String) : Option String :=
  if listed.contains secret then
    (plan secret).refusal?.map fun _ => s!"Failed to delete variables from secret: {secret}"
  else some (Error.secretNotFound secret).message

/-- What is said of a target when the removals have been waited for. -/
def complaint? (plan : Plan) (bound : Option (Nat × Span)) (secret : String) : Option String :=
  if (plan secret).isTimely (bound.map Prod.fst) then
    match plan secret with
    | .rejected _ status message => some (Error.secretBackend secret status message).message
    | .abandoned _ => some
      (Error.secretBackend secret 500 "secret update abandoned without an outcome").message
    | _ => none
  else some (Error.secretTimeout secret ((bound.map Prod.snd).getD ⟨0⟩)).message

/-- The moment up to which a batch waits for its removals, with the span that it lies after the
moment at which they are started. -/
def boundFrom (coordinator : Coordinator) (clock : Nat) : Option (Nat × Span) :=
  coordinator.batchTimeout.map fun after => (clock + after.millis, after)

variable {coordinator : Coordinator} {requested : Dict Names} {plan : Plan} {clock : Nat}
  {vault : Vault}

theorem isTimely_iff {fate : Fate} :
    fate.isTimely ((coordinator.boundFrom clock).map Prod.fst) = true
      ↔ coordinator.IsInTime clock fate.moment := by
  rw [Fate.isTimely, boundFrom, IsInTime]
  cases coordinator.batchTimeout <;> simp

/-- The words for the reason are what is said of a target. -/
theorem failsWith_iff {secret message : String} :
    coordinator.FailsWith plan clock vault secret message ↔
      (refusal? plan (vault.list coordinator.keeper.label) secret = some message ∨
        (vault.list coordinator.keeper.label).contains secret = true ∧
          (plan secret).refusal? = none ∧
          complaint? plan (coordinator.boundFrom clock) secret = some message) := by
  constructor
  · intro h
    cases h with
    | missing hmissing =>
      left
      rw [refusal?, if_neg (by simp [hmissing])]
    | refused hlisted hplan =>
      left
      rw [refusal?, if_pos hlisted, hplan, Option.map_some]
    | rejected hlisted hplan htime =>
      refine .inr ⟨hlisted, by rw [hplan]; rfl, ?_⟩
      rw [complaint?, hplan, if_pos (isTimely_iff.mpr htime)]
    | abandoned hlisted hplan htime =>
      refine .inr ⟨hlisted, by rw [hplan]; rfl, ?_⟩
      rw [complaint?, hplan, if_pos (isTimely_iff.mpr htime)]
    | late hlisted hplan hafter hlate =>
      refine .inr ⟨hlisted, hplan, ?_⟩
      have hnot : ¬ coordinator.IsInTime clock (plan secret).moment := fun htime =>
        absurd (htime _ hafter) (Nat.not_lt.mpr hlate)
      rw [complaint?, if_neg (mt isTimely_iff.mp hnot), boundFrom, hafter]
      rfl
  · rintro (h | ⟨hlisted, hstarts, h⟩)
    · rw [refusal?] at h
      split at h
      · rename_i hlisted
        obtain ⟨error, hplan, rfl⟩ := Option.map_eq_some_iff.mp h
        exact .refused hlisted hplan
      · rename_i hmissing
        obtain rfl := Option.some.inj h
        exact .missing (Bool.not_eq_true _ ▸ hmissing)
    · rw [complaint?] at h
      split at h
      · rename_i htimely
        have htime := isTimely_iff.mp htimely
        split at h
        · rename_i moment status text hplan
          obtain rfl := Option.some.inj h
          rw [hplan] at htime
          exact .rejected hlisted hplan htime
        · rename_i moment hplan
          obtain rfl := Option.some.inj h
          rw [hplan] at htime
          exact .abandoned hlisted hplan htime
        · cases h
      · rename_i hlate
        obtain rfl := Option.some.inj h
        cases hafter : coordinator.batchTimeout with
        | none => exact absurd (isTimely_iff.mpr fun _ hsome => by
            rw [hafter] at hsome
            cases hsome) hlate
        | some after =>
          have hbound : ((coordinator.boundFrom clock).map Prod.snd).getD ⟨0⟩ = after := by
            rw [boundFrom, hafter]
            rfl
          rw [hbound]
          refine .late hlisted hstarts hafter (Nat.not_lt.mp fun hlt => ?_)
          refine hlate (isTimely_iff.mpr fun other hother => ?_)
          obtain rfl := Option.some.inj (hafter.symm.trans hother)
          exact hlt

/-! ## The removals of a batch -/

/-- The targets that exist are asked for one after the other. Those of their removals are started
that can be, and of the other targets something is said. -/
theorem ends_issue (plan : Plan) (listed : Dict Data) (issued : Issued)
    (targets : List (String × Names)) (s : Trial) :
    ∃ begun failures,
      Trial.Ends plan s (issue listed issued targets)
        (.ok ⟨issued.pending ++ begun.map Begun.pending, failures⟩)
        { s with
          asked := s.asked ++ targets.filter fun target => listed.contains target.1
          begun := s.begun ++ begun } ∧
      begun.map Begun.target = targets.filter (fun target =>
        listed.contains target.1 && (plan target.1).refusal?.isNone) ∧
      begun.map Begun.ticket = List.range' s.begun.length begun.length ∧
      Joined (refusal? plan listed) (targets.map Prod.fst) issued.failures failures := by
  induction targets generalizing issued s with
  | nil =>
    refine ⟨[], issued.failures, ?_, rfl, rfl, joined_nil _ _⟩
    simp only [List.map_nil, List.append_nil, List.filter_nil]
    exact Trial.Ends.pure plan issued s
  | cons target more ih =>
    obtain ⟨secret, keys⟩ := target
    rw [issue]
    by_cases hlisted : listed.contains secret = true
    · rw [if_pos hlisted]
      cases hplan : (plan secret).refusal? with
      | none =>
        let one : Begun := ⟨s.begun.length, secret, keys⟩
        let between : Trial :=
          { s with asked := s.asked ++ [(secret, keys)], begun := s.begun ++ [one] }
        have hstart : s.start plan secret keys = (.ok s.begun.length, between) := by
          rw [Trial.start, hplan]
        have hsaid : refusal? plan listed secret = none := by
          rw [refusal?, if_pos hlisted, hplan, Option.map_none]
        obtain ⟨begun, failures, hends, htargets, htickets, hjoined⟩ := ih
          { issued with pending := issued.pending ++ [one.pending] } between
        refine ⟨one :: begun, failures, ?_, ?_, ?_, Joined.cons
          (find?_of_not_said hsaid issued.failures) hjoined⟩
        · rw [List.filter_cons_of_pos (by exact hlisted)]
          refine Trial.Ends.bind (Trial.Ends.startRemoval hstart) ?_
          simp only [between, List.append_assoc, List.singleton_append] at hends
          exact hends
        · rw [List.filter_cons_of_pos (by simp [hlisted, hplan]), List.map_cons, htargets]
          rfl
        · have hlength : between.begun.length = s.begun.length + 1 := List.length_append
          rw [List.map_cons, htickets, hlength, List.length_cons, List.range'_succ]
      | some error =>
        let between : Trial := { s with asked := s.asked ++ [(secret, keys)] }
        have hstart : s.start plan secret keys = (.error error, between) := by
          rw [Trial.start, hplan]
        let message := s!"Failed to delete variables from secret: {secret}"
        have hsaid : refusal? plan listed secret = some message := by
          rw [refusal?, if_pos hlisted, hplan, Option.map_some]
        obtain ⟨begun, failures, hends, htargets, htickets, hjoined⟩ := ih
          { issued with failures := issued.failures.insert secret message } between
        refine ⟨begun, failures, ?_, ?_, htickets, Joined.cons
          (find?_insert_said hsaid issued.failures) hjoined⟩
        · rw [List.filter_cons_of_pos (by exact hlisted)]
          refine Trial.Ends.bind (Trial.Ends.startRemoval hstart) ?_
          simp only [between, List.append_assoc, List.singleton_append] at hends
          exact hends
        · rw [List.filter_cons_of_neg (by simp [hplan])]
          exact htargets
    · have hsaid : refusal? plan listed secret = some (Error.secretNotFound secret).message := by
        rw [refusal?, if_neg hlisted]
      obtain ⟨begun, failures, hends, htargets, htickets, hjoined⟩ := ih
        { issued with
          failures := issued.failures.insert secret (Error.secretNotFound secret).message } s
      refine ⟨begun, failures, ?_, ?_, htickets, Joined.cons
        (find?_insert_said hsaid issued.failures) hjoined⟩
      · rw [if_neg hlisted, List.filter_cons_of_neg (by exact hlisted)]
        exact hends
      · rw [List.filter_cons_of_neg (by simp [hlisted])]
        exact htargets

/-- The bound is found out. -/
theorem ends_deadline (s : Trial) :
    Trial.Ends plan s coordinator.deadline (.ok (coordinator.boundFrom s.clock)) s := by
  rw [deadline, boundFrom]
  cases coordinator.batchTimeout <;> rfl

/-- What is said of a secret that is there are the words for what came of the removal from it, if
that was an error. -/
theorem said_of_comes {one : Begun} {stored : Secret.Stored} (bound : Option (Nat × Span))
    (hplan : (plan one.secret).refusal? = none)
    (hstored : vault.secrets.find? one.secret = some stored) :
    complaint? plan bound one.secret
      = match one.pending.outcome ((bound.map Prod.snd).getD ⟨0⟩)
          (if (plan one.secret).isTimely (bound.map Prod.fst)
            then some ((plan one.secret).comes vault one.secret one.keys).1 else none) with
        | .ok _ => none
        | .error error => some error.message := by
  rw [complaint?]
  split
  · cases hfate : plan one.secret with
    | refused error =>
      rw [hfate] at hplan
      cases hplan
    | rejected moment status message => rfl
    | abandoned moment => rfl
    | done moment =>
      rw [Fate.comes, Vault.finish, Vault.remove, Vault.modify, hstored]
      rfl
  · rfl

/-- A removal from a secret that is there has removed what it is to remove if nothing is said of its
secret, and otherwise nothing. -/
theorem find?_of_comes {one : Begun} {stored : Secret.Stored} (bound : Option (Nat × Span))
    (hplan : (plan one.secret).refusal? = none)
    (hstored : vault.secrets.find? one.secret = some stored) :
    (if (plan one.secret).isTimely (bound.map Prod.fst)
      then ((plan one.secret).comes vault one.secret one.keys).2.secrets.find? one.secret
      else vault.secrets.find? one.secret)
      = some (if complaint? plan bound one.secret = none
          then { stored with data := Batch.rest stored.data one.keys } else stored) := by
  rw [complaint?]
  split
  · cases hfate : plan one.secret with
    | refused error =>
      rw [hfate] at hplan
      cases hplan
    | rejected moment status message => exact hstored
    | abandoned moment => exact hstored
    | done moment =>
      rw [Fate.comes, Vault.finish, Vault.remove, Vault.modify, hstored]
      exact Dict.find?_insert_self _ _ _
  · exact hstored

/-- All removals are waited for, up to the bound. -/
theorem ends_awaitAll {s : Trial} (bound : Option (Nat × Span)) (hcame : s.came = [])
    (hsecrets : (s.begun.map Begun.secret).Nodup) (htickets : (s.begun.map Begun.ticket).Nodup)
    (hthere : ∀ one ∈ s.begun, (plan one.secret).refusal? = none ∧
      ∃ stored, s.vault.secrets.find? one.secret = some stored) (failures : Dict String) :
    ∃ clock vault came outcomes,
      Trial.Ends plan s (Keeper.awaitAll (s.begun.map Begun.pending) bound) (.ok outcomes)
        { s with clock := clock, vault := vault, came := came } ∧
      Joined (complaint? plan bound) (s.begun.map Begun.secret) failures
        (addFailures failures outcomes) ∧
      (∀ one ∈ s.begun, ∃ stored, s.vault.secrets.find? one.secret = some stored ∧
        vault.secrets.find? one.secret
          = some (if complaint? plan bound one.secret = none
              then { stored with data := Batch.rest stored.data one.keys } else stored)) ∧
      ∀ secret, secret ∉ s.begun.map Begun.secret →
        vault.secrets.find? secret = s.vault.secrets.find? secret := by
  obtain ⟨clock, vault, came, hwait, hlookup, hmine, hothers⟩ :=
    s.wait_eq plan (bound.map Prod.fst) hcame hsecrets htickets
  let span := (bound.map Prod.snd).getD ⟨0⟩
  let outcomes := s.begun.map fun one =>
    (one.pending, one.pending.outcome span (came.lookup one.ticket))
  have hends : Trial.Ends plan s (Keeper.awaitAll (s.begun.map Begun.pending) bound) (.ok outcomes)
      { s with clock := clock, vault := vault, came := came } := by
    refine (Trial.Ends.tell plan (Effect.awaitRemovals _ _) _ s).trans ?_
    rw [Trial.answer, hwait]
    simp [outcomes, span, List.zipWith_map_left, List.zipWith_map_right, List.zipWith_self,
      Begun.pending]
  have hsaid : ∀ one ∈ outcomes, complaint? plan bound one.1.secret = match one.2 with
      | .ok _ => none
      | .error error => some error.message := by
    intro one hone
    obtain ⟨one, hbegun, rfl⟩ := List.mem_map.mp hone
    obtain ⟨hplan, stored, hstored⟩ := hthere one hbegun
    rw [hlookup one hbegun]
    exact said_of_comes bound hplan hstored
  have hjoined := joined_addFailures hsaid failures
  rw [List.map_map] at hjoined
  refine ⟨clock, vault, came, outcomes, hends, hjoined, fun one hone => ?_, hothers⟩
  obtain ⟨hplan, stored, hstored⟩ := hthere one hone
  exact ⟨stored, hstored, (hmine one hone).trans (find?_of_comes bound hplan hstored)⟩

/-! ## The targets -/

/-- The targets are the secrets that requested names stand for. -/
theorem contains_targets_iff {secret : String} :
    (targets coordinator.keeper requested).contains secret = true
      ↔ coordinator.IsTarget requested secret := by
  have hfold : ∀ (requests : List (String × Names)) (found : Dict Names),
      (requests.foldl (fun found request =>
        found.insert (coordinator.keeper.resolve request.1)
          (((found.find? (coordinator.keeper.resolve request.1)).getD Dict.empty).union request.2))
        found).contains secret = true
      ↔ found.contains secret = true ∨
        ∃ request ∈ requests, coordinator.keeper.resolve request.1 = secret := by
    intro requests
    induction requests with
    | nil => simp
    | cons request more ih =>
      intro found
      rw [List.foldl_cons, ih, Dict.contains_insert, List.exists_mem_cons_iff, Bool.or_eq_true,
        decide_eq_true_iff]
      tauto
  refine (hfold requested.entries Dict.empty).trans ?_
  rw [Dict.contains_empty, IsTarget]
  simp

/-- The names that are to be deleted from a target. -/
theorem contains_of_find?_targets {secret name : String} {keys : Names}
    (h : (targets coordinator.keeper requested).find? secret = some keys) :
    keys.contains name = true ↔ coordinator.IsToDelete requested secret name := by
  have hcontains : (((targets coordinator.keeper requested).find? secret).getD
      Dict.empty).contains name = true ↔ coordinator.IsToDelete requested secret name :=
    contains_targets
  rwa [h, Option.getD_some] at hcontains

/-- The secrets of the catalog are those with its label. -/
theorem find?_list_of_contains {label : Secret.Label} {secret : String}
    (h : (vault.list label).contains secret = true) :
    ∃ stored, vault.secrets.find? secret = some stored ∧
      (vault.list label).find? secret = some stored.data := by
  obtain ⟨data, hdata⟩ := Dict.contains_iff.mp h
  have hfind := hdata
  rw [Vault.list, Dict.find?_map, Dict.find?_filter, Option.map_eq_some_iff] at hfind
  obtain ⟨stored, hstored, rfl⟩ := hfind
  exact ⟨stored, (Option.filter_eq_some_iff.mp hstored).1, hdata⟩

/-- The failures that are put together are those of the targets that fail. -/
theorem failures_iff {started : List String} {refused failures : Dict String}
    (hstarted : ∀ secret, secret ∈ started ↔ coordinator.IsTarget requested secret ∧
      (vault.list coordinator.keeper.label).contains secret = true ∧
      (plan secret).refusal? = none)
    (hrefused : Joined (refusal? plan (vault.list coordinator.keeper.label))
      (targets coordinator.keeper requested).keys Dict.empty refused)
    (hlate : Joined (complaint? plan (coordinator.boundFrom clock)) started refused failures)
    {secret message : String} :
    failures.find? secret = some message ↔ coordinator.IsTarget requested secret ∧
      coordinator.FailsWith plan clock vault secret message := by
  have htargets : secret ∈ (targets coordinator.keeper requested).keys ↔
      coordinator.IsTarget requested secret := Dict.mem_keys_iff.trans contains_targets_iff
  rw [hlate secret, hrefused secret, Dict.find?_empty, Option.or_none, failsWith_iff, ← htargets]
  by_cases hmem : secret ∈ started
  · obtain ⟨htarget, hlisted, hplan⟩ := (hstarted secret).mp hmem
    have hsaid : refusal? plan (vault.list coordinator.keeper.label) secret = none := by
      rw [refusal?, if_pos hlisted, hplan, Option.map_none]
    simp [hmem, htargets.mpr htarget, hlisted, hplan, hsaid]
  · by_cases htarget : secret ∈ (targets coordinator.keeper requested).keys
    · have hnot : ¬ ((vault.list coordinator.keeper.label).contains secret = true ∧
          (plan secret).refusal? = none) := fun h =>
        hmem ((hstarted secret).mpr ⟨htargets.mp htarget, h⟩)
      simp only [hmem, htarget, ← and_assoc, hnot, if_true, if_false, true_and, false_and, or_false]
    · simp [hmem, htarget]

/-- A target does not fail if its removal is started and nothing is said of it afterwards. -/
theorem succeeds_iff {secret : String} :
    coordinator.Succeeds requested plan clock vault secret ↔
      (coordinator.IsTarget requested secret ∧
        (vault.list coordinator.keeper.label).contains secret = true ∧
        (plan secret).refusal? = none) ∧
      complaint? plan (coordinator.boundFrom clock) secret = none := by
  rw [Succeeds, and_assoc]
  refine and_congr_right fun _ => ?_
  simp only [failsWith_iff, not_or, not_and, refusal?]
  by_cases hlisted : (vault.list coordinator.keeper.label).contains secret = true
  · cases hplan : (plan secret).refusal? with
    | none => simp [hlisted, Option.eq_none_iff_forall_ne_some]
    | some error => simp [hlisted]
  · simp [hlisted]

section

variable {begun : List Begun} (h : begun.map Begun.target =
  (targets coordinator.keeper requested).entries.filter fun target =>
    (vault.list coordinator.keeper.label).contains target.1 && (plan target.1).refusal?.isNone)
include h

theorem secrets_begun : begun.map Begun.secret =
    ((targets coordinator.keeper requested).entries.filter fun target =>
      (vault.list coordinator.keeper.label).contains target.1 &&
        (plan target.1).refusal?.isNone).map Prod.fst := by
  rw [← h, List.map_map]
  rfl

/-- The removals that were started are those from the targets that exist and can be asked. -/
theorem mem_begun_iff {secret : String} :
    secret ∈ begun.map Begun.secret ↔ coordinator.IsTarget requested secret ∧
      (vault.list coordinator.keeper.label).contains secret = true ∧
      (plan secret).refusal? = none := by
  rw [secrets_begun h, ← contains_targets_iff, ← Dict.mem_keys_iff, Dict.keys, Sorted.keys]
  simp only [List.mem_map, List.mem_filter, Bool.and_eq_true, Option.isNone_iff_eq_none]
  constructor
  · rintro ⟨target, ⟨hmem, hlisted, hplan⟩, rfl⟩
    exact ⟨⟨target, hmem, rfl⟩, hlisted, hplan⟩
  · rintro ⟨⟨target, hmem, rfl⟩, hlisted, hplan⟩
    exact ⟨target, ⟨hmem, hlisted, hplan⟩, rfl⟩

theorem nodup_begun : (begun.map Begun.secret).Nodup := by
  rw [secrets_begun h]
  exact (targets coordinator.keeper requested).nodup_keys.sublist (List.filter_sublist.map _)

/-- A removal that was started is from a secret that is there. -/
theorem exists_of_mem_begun {one : Begun} (hone : one ∈ begun) :
    (plan one.secret).refusal? = none ∧
      ∃ stored, vault.secrets.find? one.secret = some stored := by
  obtain ⟨-, hlisted, hplan⟩ := (mem_begun_iff h).mp (List.mem_map_of_mem hone)
  obtain ⟨stored, hstored, -⟩ := find?_list_of_contains hlisted
  exact ⟨hplan, stored, hstored⟩

end

/-! ## The batch -/

/-- How things stand when the lock is released, and these are the failures. -/
structure HasRemoved (coordinator : Coordinator) (requested : Dict Names) (plan : Plan)
    (clock : Nat) (vault : Vault) (failures : Dict String) (after : Trial) : Prop where
  /-- no record is left yet -/
  records : after.records = []
  /-- all targets that exist were asked for -/
  asked : after.asked = (targets coordinator.keeper requested).entries.filter fun target =>
    (vault.list coordinator.keeper.label).contains target.1
  /-- the failures are those of the targets that fail -/
  failures : ∀ secret message, failures.find? secret = some message ↔
    coordinator.IsTarget requested secret ∧
      coordinator.FailsWith plan clock vault secret message
  /-- from the others is deleted what is to be deleted -/
  deleted : ∀ secret, coordinator.Succeeds requested plan clock vault secret →
    ∃ stored keys, vault.secrets.find? secret = some stored ∧
      (targets coordinator.keeper requested).find? secret = some keys ∧
      after.vault.secrets.find? secret
        = some { stored with data := Batch.rest stored.data keys }
  /-- all other secrets are as they were -/
  kept : ∀ secret, ¬ coordinator.Succeeds requested plan clock vault secret →
    after.vault.secrets.find? secret = vault.secrets.find? secret

/-- What is done with the lock held. -/
theorem ends_critical (coordinator : Coordinator) (requested : Dict Names) (plan : Plan)
    (clock : Nat) (store : Store) (vault : Vault) :
    ∃ (failures : Dict String) (after : Trial),
      Trial.Ends plan (.opening clock store vault) (do
        let all ← coordinator.keeper.all
        let issued ← issue all ⟨[], Dict.empty⟩ (targets coordinator.keeper requested).entries
        let bound ← coordinator.deadline
        let outcomes ← Keeper.awaitAll issued.pending bound
        return (all, addFailures issued.failures outcomes))
        (.ok (vault.list coordinator.keeper.label, failures)) after ∧
      coordinator.HasRemoved requested plan clock vault failures after := by
  let listed := vault.list coordinator.keeper.label
  let requestedNames := targets coordinator.keeper requested
  let bound := coordinator.boundFrom clock
  obtain ⟨begun, refused, hissue, htargets, htickets, hrefused⟩ :=
    ends_issue plan listed ⟨[], Dict.empty⟩ requestedNames.entries (.opening clock store vault)
  let issued : Trial := { Trial.opening clock store vault with
    asked := requestedNames.entries.filter fun target => listed.contains target.1
    begun := begun }
  have hnumbered : (begun.map Begun.ticket).Nodup := by
    rw [htickets]
    exact List.nodup_range'
  obtain ⟨late, after, came, outcomes, hawait, hjoined, hmine, hothers⟩ :=
    ends_awaitAll (s := issued) bound rfl (nodup_begun htargets) hnumbered
      (fun _ hone => exists_of_mem_begun htargets hone) refused
  -- what is said of the targets
  have hfailures : ∀ secret message, (addFailures refused outcomes).find? secret = some message ↔
      coordinator.IsTarget requested secret ∧
        coordinator.FailsWith plan clock vault secret message :=
    fun secret message => failures_iff (fun _ => mem_begun_iff htargets) hrefused hjoined
  refine ⟨addFailures refused outcomes, { issued with clock := late, vault := after, came := came },
    ?_, rfl, rfl, hfailures, ?_, ?_⟩
  · have hall : Trial.Ends plan (.opening clock store vault) coordinator.keeper.all (.ok listed)
        (.opening clock store vault) := rfl
    exact hall.bind (hissue.bind ((ends_deadline issued).bind (hawait.bind (.pure plan _ _))))
  · intro secret hsucceeds
    obtain ⟨hstarted, hfine⟩ := succeeds_iff.mp hsucceeds
    obtain ⟨one, hone, rfl⟩ := List.mem_map.mp ((mem_begun_iff htargets).mpr hstarted)
    obtain ⟨stored, hstored, hafter⟩ := hmine one hone
    have htarget : one.target ∈ requestedNames.entries :=
      (List.mem_filter.mp (htargets ▸ List.mem_map_of_mem hone)).1
    rw [if_pos hfine] at hafter
    exact ⟨stored, one.keys, hstored, Dict.mem_entries_iff.mp htarget, hafter⟩
  · intro secret hnot
    by_cases hmem : secret ∈ begun.map Begun.secret
    · obtain ⟨one, hone, rfl⟩ := List.mem_map.mp hmem
      obtain ⟨stored, hstored, hafter⟩ := hmine one hone
      rw [if_neg fun hfine => hnot (succeeds_iff.mpr ⟨(mem_begun_iff htargets).mp hmem, hfine⟩)]
        at hafter
      exact hafter.trans hstored.symm
    · exact hothers secret hmem

/-- All targets fail if as many fail as there are. -/
theorem HasRemoved.allFail_iff {failures : Dict String} {after : Trial}
    (h : coordinator.HasRemoved requested plan clock vault failures after)
    (hsome : requested.isEmpty = false) :
    failures.size = (targets coordinator.keeper requested).size
      ↔ coordinator.AllFail requested plan clock vault := by
  have hcontains : ∀ secret, failures.contains secret = true ↔
      coordinator.IsTarget requested secret ∧
        ∃ message, coordinator.FailsWith plan clock vault secret message := by
    intro secret
    rw [Dict.contains_iff]
    simp only [h.failures, exists_and_left]
  rw [Dict.size_eq_iff fun secret hsecret =>
    contains_targets_iff.mpr ((hcontains secret).mp hsecret).1]
  simp only [AllFail, hsome, true_and, contains_targets_iff, hcontains]
  exact forall_congr' fun secret => ⟨fun h htarget => (h htarget).2, fun h htarget =>
    ⟨htarget, h htarget⟩⟩

/-- The deletions from those secrets that did not fail, each with its secret. -/
def deleted (before : Dict Data) (failures : Dict String) (targets : Dict Names) :
    List (String × String) :=
  targets.entries.flatMap fun target =>
    if failures.contains target.1 then []
    else (target.2.keys.filter ((before.find? target.1).getD Dict.empty).contains).map fun name =>
      (target.1, name)

theorem allDeletions_eq (before : Dict Data) (failures : Dict String) (targets : Dict Names) :
    allDeletions before failures targets
      = (deleted before failures targets).map fun one => .secured one.2 one.1 .delete := by
  rw [allDeletions, deleted, List.map_flatMap]
  congr 1
  funext target
  rw [deletions]
  split
  · rfl
  · rw [List.map_map]
    rfl

theorem mem_deleted {before : Dict Data} {failures : Dict String} {targets : Dict Names}
    {secret name : String} :
    (secret, name) ∈ deleted before failures targets ↔ failures.contains secret = false ∧
      ∃ keys, targets.find? secret = some keys ∧ keys.contains name = true ∧
        ((before.find? secret).getD Dict.empty).contains name = true := by
  rw [deleted, List.mem_flatMap]
  constructor
  · rintro ⟨⟨other, keys⟩, htarget, hmem⟩
    dsimp only at hmem
    split at hmem
    · cases hmem
    · rename_i hfine
      obtain ⟨found, hfound, heq⟩ := List.mem_map.mp hmem
      obtain ⟨rfl, rfl⟩ := Prod.mk.inj heq
      obtain ⟨hkey, hthere⟩ := List.mem_filter.mp hfound
      exact ⟨Bool.not_eq_true _ ▸ hfine, keys, Dict.mem_entries_iff.mp htarget,
        Dict.mem_keys_iff.mp hkey, hthere⟩
  · rintro ⟨hfine, keys, htarget, hkey, hthere⟩
    refine ⟨(secret, keys), Dict.mem_entries_iff.mpr htarget, ?_⟩
    dsimp only
    rw [if_neg (by simp [hfine])]
    exact List.mem_map_of_mem (List.mem_filter.mpr ⟨Dict.mem_keys_iff.mpr hkey, hthere⟩)

/-- Deletions come in the order of the secrets and of the names. -/
theorem pairwise_deleted (before : Dict Data) (failures : Dict String) (targets : Dict Names) :
    (deleted before failures targets).Pairwise fun one other =>
      one.1 < other.1 ∨ one.1 = other.1 ∧ one.2 < other.2 := by
  have hfirst : ∀ (target : String × Names), ∀ one ∈ (if failures.contains target.1 then []
      else (target.2.keys.filter ((before.find? target.1).getD Dict.empty).contains).map fun name =>
        (target.1, name) : List (String × String)), one.1 = target.1 := by
    intro target one hone
    split at hone
    · cases hone
    · obtain ⟨name, -, rfl⟩ := List.mem_map.mp hone
      rfl
  rw [deleted, List.pairwise_flatMap]
  refine ⟨fun target _ => ?_, ?_⟩
  · split
    · exact List.Pairwise.nil
    · rw [List.pairwise_map]
      exact (List.Pairwise.filter _ target.2.ascending).imp fun hlt => .inr ⟨rfl, hlt⟩
  · refine (List.pairwise_map.mp targets.ascending).imp ?_
    intro target other hlt one hone two htwo
    rw [hfirst target one hone, hfirst other two htwo]
    exact .inl hlt

/-- Where no secret is requested, there are no targets, and nothing happens. -/
theorem batchResult_of_isEmpty (hnone : requested.isEmpty = true) (store : Store) :
    coordinator.BatchResult requested plan clock vault (.ok []) (.opening clock store vault) := by
  have hentries : requested.entries = [] := List.isEmpty_iff.mp hnone
  have htarget : ∀ secret, ¬ coordinator.IsTarget requested secret := by
    rintro secret ⟨request, hrequest, -⟩
    rw [hentries] at hrequest
    cases hrequest
  have hsucceeds : ∀ secret, ¬ coordinator.Succeeds requested plan clock vault secret :=
    fun secret h => htarget secret h.1
  refine ⟨fun secret keys => ⟨nofun, fun h => absurd h.1 (htarget secret)⟩, List.nodup_nil,
    ⟨[], List.Pairwise.nil, fun failure => ⟨nofun, fun h => absurd h.1 (htarget failure.secret)⟩,
      .inr ⟨fun h => ?_, rfl⟩⟩,
    fun secret h => absurd h (hsucceeds secret), fun _ _ => rfl,
    ⟨[], rfl, List.Pairwise.nil, fun secret _ => ⟨nofun, fun h => absurd h.1 (hsucceeds secret)⟩⟩⟩
  rw [h.1] at hnone
  cases hnone

/-- What a target had that does not fail was seen in the listing. -/
theorem find?_list_of_succeeds {secret : String}
    (h : coordinator.Succeeds requested plan clock vault secret) :
    (vault.list coordinator.keeper.label).find? secret = vault.read secret := by
  obtain ⟨⟨-, hlisted, -⟩, -⟩ := succeeds_iff.mp h
  obtain ⟨stored, hstored, hdata⟩ := find?_list_of_contains hlisted
  rw [hdata, Vault.read, hstored, Option.map_some]

theorem HasRemoved.succeeds_iff {failures : Dict String} {after : Trial}
    (h : coordinator.HasRemoved requested plan clock vault failures after) {secret : String} :
    coordinator.Succeeds requested plan clock vault secret ↔
      coordinator.IsTarget requested secret ∧ failures.contains secret = false := by
  rw [← Bool.not_eq_true, Dict.contains_iff]
  simp only [h.failures, Succeeds, not_exists, not_and]
  exact and_congr_right fun htarget => forall_congr' fun _ => ⟨fun hnot _ => hnot, fun hnot =>
    hnot htarget⟩

/-- The deletions are those of variables that were there, from targets that do not fail. -/
theorem HasRemoved.mem_deletions_iff {failures : Dict String} {after : Trial}
    (h : coordinator.HasRemoved requested plan clock vault failures after)
    {secret name : String} :
    (secret, name) ∈ Coordinator.deleted (vault.list coordinator.keeper.label) failures
        (targets coordinator.keeper requested) ↔
      coordinator.Succeeds requested plan clock vault secret ∧
        coordinator.IsToDelete requested secret name ∧
        ((vault.read secret).getD Dict.empty).contains name = true := by
  rw [mem_deleted]
  constructor
  · rintro ⟨hnot, keys, hkeys, hname, hthere⟩
    have hsucceeds := h.succeeds_iff.mpr
      ⟨contains_targets_iff.mp (Dict.contains_of_find? hkeys), hnot⟩
    rw [find?_list_of_succeeds hsucceeds] at hthere
    exact ⟨hsucceeds, (contains_of_find?_targets hkeys).mp hname, hthere⟩
  · rintro ⟨hsucceeds, hname, hthere⟩
    obtain ⟨htarget, hnot⟩ := h.succeeds_iff.mp hsucceeds
    obtain ⟨keys, hkeys⟩ := Dict.contains_iff.mp (contains_targets_iff.mpr htarget)
    rw [← find?_list_of_succeeds hsucceeds] at hthere
    exact ⟨hnot, keys, hkeys, (contains_of_find?_targets hkeys).mpr hname, hthere⟩

/-- When the records are left, the batch has come to its result. -/
theorem HasRemoved.batchResult {failures : Dict String} {after : Trial}
    (h : coordinator.HasRemoved requested plan clock vault failures after)
    {outcome : Outcome (List SecretFailure)}
    (houtcome : coordinator.AllFail requested plan clock vault ∧ outcome =
        .error (.allSecretsFailed (failures.entries.map fun entry => ⟨entry.1, entry.2⟩)) ∨
      ¬ coordinator.AllFail requested plan clock vault ∧
        outcome = .ok (failures.entries.map fun entry => ⟨entry.1, entry.2⟩)) :
    coordinator.BatchResult requested plan clock vault outcome { after with
      records := after.records ++ allDeletions (vault.list coordinator.keeper.label) failures
        (targets coordinator.keeper requested) } := by
  refine ⟨fun secret keys => ?_, ?_, ⟨_, ?_, fun failure => ?_, houtcome⟩,
    fun secret hsucceeds => ?_, h.kept, ⟨_, by rw [h.records, List.nil_append, allDeletions_eq],
      pairwise_deleted _ _ _, fun secret name => ?_⟩⟩
  · rw [h.asked, List.mem_filter, Dict.mem_entries_iff, ← contains_targets_iff]
    constructor
    · rintro ⟨hfind, hlisted⟩
      exact ⟨Dict.contains_of_find? hfind, hlisted, fun name => contains_of_find?_targets hfind⟩
    · rintro ⟨htarget, hlisted, hkeys⟩
      obtain ⟨found, hfound⟩ := Dict.contains_iff.mp htarget
      obtain rfl : found = keys := Names.ext fun name =>
        (contains_of_find?_targets hfound).trans (hkeys name).symm
      exact ⟨hfound, hlisted⟩
  · rw [h.asked]
    exact (targets coordinator.keeper requested).nodup_keys.sublist (List.filter_sublist.map _)
  · rw [List.pairwise_map]
    exact List.pairwise_map.mp failures.ascending
  · rw [← h.failures, ← Dict.mem_entries_iff, List.mem_map]
    constructor
    · rintro ⟨entry, hentry, rfl⟩
      exact hentry
    · intro hentry
      exact ⟨_, hentry, rfl⟩
  · obtain ⟨stored, keys, hstored, hkeys, hafter⟩ := h.deleted secret hsucceeds
    refine ⟨stored, _, hstored, hafter, fun name value => ?_⟩
    rw [Batch.rest, Dict.find?_filter, Option.filter_eq_some_iff,
      ← contains_of_find?_targets hkeys]
    simp
  · exact h.mem_deletions_iff

/-- **Deleting from several secrets does exactly what it says.** Whatever is requested, whatever the
secrets are, and whatever is planned to come of the removals, the batch ends, and comes to what
`BatchResult` says. -/
theorem deleteFromSecrets_exact (coordinator : Coordinator) (requested : Dict Names) (plan : Plan)
    (clock : Nat) (store : Store) (vault : Vault) :
    ∃ outcome after,
      Trial.Ends plan (.opening clock store vault) (coordinator.deleteFromSecrets requested)
        outcome after ∧
      coordinator.BatchResult requested plan clock vault outcome after := by
  rw [deleteFromSecrets]
  cases hsome : requested.isEmpty with
  | true => exact ⟨.ok [], _, .pure plan _ _, batchResult_of_isEmpty hsome store⟩
  | false =>
    obtain ⟨failures, late, hcritical, hremoved⟩ :=
      ends_critical coordinator requested plan clock store vault
    let errors := failures.entries.map fun entry => SecretFailure.mk entry.1 entry.2
    have hall : errors.length = (targets coordinator.keeper requested).size
        ↔ coordinator.AllFail requested plan clock vault := by
      rw [← hremoved.allFail_iff hsome, List.length_map]
      rfl
    rw [if_neg Bool.false_ne_true]
    by_cases hfail : errors.length = (targets coordinator.keeper requested).size
    · refine ⟨_, _, (Trial.Ends.locked hcritical).bind ((Trial.Ends.recordAll _ late).bind ?_),
        hremoved.batchResult (.inl ⟨hall.mp hfail, rfl⟩)⟩
      dsimp only
      rw [if_pos hfail]
      exact .fail plan _ _
    · refine ⟨_, _, (Trial.Ends.locked hcritical).bind ((Trial.Ends.recordAll _ late).bind ?_),
        hremoved.batchResult (.inr ⟨mt hall.mpr hfail, rfl⟩)⟩
      dsimp only
      rw [if_neg hfail]
      exact .pure plan _ _

end Coordinator

end EngineCatalog
