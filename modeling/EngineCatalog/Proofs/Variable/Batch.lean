import EngineCatalog.Proofs.Variable.AllOrNothing
import EngineCatalog.Proofs.Variable.Removals
import Mathlib.Data.List.Nodup

/-!
# Deleting from several secrets

The removals of a batch run side by side and come in any order. Since no two of them are from the same
secret, the order does not matter: when something has come of all of them, the secrets, the records
and the outcome are what one reads off the secrets as they were before (`Batch.deleteFromSecrets`).

* `Batch` — what was seen before, and what follows from it: the failures, the secrets and the removals
  afterwards, the records and the outcome.
* `Removing` — how things stand while removals of the batch are on their way.
-/

namespace EngineCatalog

open Secret (Data Label Removal Vault)

/-! ## What comes of a batch -/

/-- The label of the secrets, what the batch is to delete from each secret, and the secrets before. -/
structure Batch where
  /-- the label of the secrets that belong to the catalog -/
  label : Label
  /-- the names to be deleted from each secret -/
  targets : Dict Names
  /-- the secrets before -/
  vault : Vault

namespace Batch

/-- What is left of a secret. -/
def rest (data : Data) (keys : Names) : Data :=
  data.filter fun key _ => !keys.contains key

variable (batch : Batch)

/-- What the secrets of the catalog hold before. -/
def all : Dict Data := batch.vault.list batch.label

/-- The failures with those of some targets: secrets that do not exist. -/
def failuresAfter (failures : Dict String) (targets : List (String × Names)) : Dict String :=
  targets.foldl (fun failures target =>
    if batch.all.contains target.1 then failures
    else failures.insert target.1 (Error.secretNotFound target.1).message) failures

/-- The secrets that do not exist, with the reason for each. -/
def failures : Dict String := batch.failuresAfter Dict.empty batch.targets.entries

/-- The targets that exist. -/
def present : List (String × Names) :=
  batch.targets.entries.filter fun target => batch.all.contains target.1

/-- The removals that are started, once they are done. -/
def removals : List Started :=
  batch.present.map fun target =>
    ⟨target.1, target.2, some (.done (rest ((batch.all.find? target.1).getD Dict.empty) target.2))⟩

/-- The secrets afterwards. -/
def vaultAfter : Vault :=
  ⟨batch.vault.secrets.map fun secret stored =>
    if stored.label = batch.label then
      { stored with data := rest stored.data ((batch.targets.find? secret).getD Dict.empty) }
    else stored⟩

/-- The records that are left. -/
def records : List Audit.Record :=
  Coordinator.allDeletions batch.all batch.failures batch.targets

/-- The outcome. -/
def outcome : Outcome (List SecretFailure) :=
  let errors := batch.failures.entries.map fun entry => SecretFailure.mk entry.1 entry.2
  if errors.length = batch.targets.size then .error (.allSecretsFailed errors) else .ok errors

/-- The secrets of the catalog are those with its label. -/
theorem find?_all (secret : String) :
    batch.all.find? secret = ((batch.vault.secrets.find? secret).filter fun stored =>
      stored.label = batch.label).map Secret.Stored.data := by
  rw [all, Vault.list, Dict.find?_map, Dict.find?_filter]

end Batch

/-! ## While removals are on their way -/

/-- How a removal stands: it is pending and its secret is as it was before, or it is done. -/
def Started.Stands (before vault : Vault) (one : Started) : Prop :=
  ∃ stored, before.secrets.find? one.secret = some stored ∧
    (one.removal = none ∧ vault.secrets.find? one.secret = some stored ∨
      one.removal = some (.done (Batch.rest stored.data one.keys)) ∧
        vault.secrets.find? one.secret
          = some { stored with data := Batch.rest stored.data one.keys })

/-- Removals from different secrets are on their way, and nothing else is changed. -/
structure Removing (before vault : Vault) (removals : List Started) : Prop where
  /-- no two are from the same secret -/
  distinct : (removals.map Started.secret).Nodup
  /-- each is pending or done -/
  stands : ∀ one ∈ removals, one.Stands before vault
  /-- other secrets are as they were -/
  others : ∀ secret, secret ∉ removals.map Started.secret →
    vault.secrets.find? secret = before.secrets.find? secret

/-- What a removal is to remove. -/
def Started.target (started : Started) : String × Names :=
  (started.secret, started.keys)

namespace Removing

variable {before vault : Vault} {removals : List Started}

theorem start (vault : Vault) : Removing vault vault [] :=
  ⟨List.nodup_nil, nofun, fun _ _ => rfl⟩

/-- One more removal is started. -/
theorem concat (h : Removing before vault removals) {secret : String} {keys : Names}
    (hnew : secret ∉ removals.map Started.secret) (hsecret : before.secrets.contains secret = true) :
    Removing before vault (removals ++ [⟨secret, keys, none⟩]) := by
  obtain ⟨stored, hstored⟩ := Dict.contains_iff.mp hsecret
  refine ⟨?_, fun one hone => ?_, fun other hother => ?_⟩
  · rw [List.map_append, List.nodup_append]
    refine ⟨h.distinct, List.nodup_singleton _, fun other hother one hone => ?_⟩
    rintro rfl
    obtain rfl : other = secret := List.mem_singleton.mp hone
    exact hnew hother
  · rcases List.mem_append.mp hone with hone | hone
    · exact h.stands one hone
    · obtain rfl := List.mem_singleton.mp hone
      exact ⟨stored, hstored, .inl ⟨rfl, (h.others secret hnew).trans hstored⟩⟩
  · refine h.others other fun hmem => hother ?_
    rw [List.map_append]
    exact List.mem_append_left _ hmem

/-- Something comes of one of them: it is done, and the others stand as they stood. -/
theorem comes {front back : List Started} {one : Started}
    (h : Removing before vault (front ++ one :: back)) (hpending : one.removal = none)
    {removal : Removal} {after : Vault} (hcomes : Comes false one vault removal after) :
    Removing before after (front ++ { one with removal := some removal } :: back) := by
  obtain ⟨stored, hstored, hstands⟩ := h.stands one (by simp)
  have hfind : vault.secrets.find? one.secret = some stored := by
    rcases hstands with ⟨-, hfind⟩ | ⟨hdone, -⟩
    · exact hfind
    · rw [hpending] at hdone
      cases hdone
  have hfinish : vault.finish one.secret one.keys
      = (.done (Batch.rest stored.data one.keys), ⟨vault.secrets.insert one.secret
          { stored with data := Batch.rest stored.data one.keys }⟩) := by
    rw [Vault.finish, Vault.remove, Vault.modify, hfind]
    rfl
  obtain ⟨rfl, rfl⟩ : removal = .done (Batch.rest stored.data one.keys) ∧
      after = ⟨vault.secrets.insert one.secret
        { stored with data := Batch.rest stored.data one.keys }⟩ := by
    rcases hcomes with hcomes | ⟨hfaulty, -⟩
    · exact Prod.mk.inj (hcomes.trans hfinish)
    · cases hfaulty
  have hsecrets : (front ++ { one with
      removal := some (.done (Batch.rest stored.data one.keys)) } :: back).map Started.secret
      = (front ++ one :: back).map Started.secret := by simp
  -- the secrets of the others are different ones
  have hne : ∀ other ∈ front ++ back, one.secret ≠ other.secret := by
    have hdistinct := h.distinct
    rw [List.map_append, List.map_cons, List.nodup_middle, List.nodup_cons,
      ← List.map_append] at hdistinct
    intro other hother heq
    exact hdistinct.1 (heq ▸ List.mem_map_of_mem hother)
  refine ⟨hsecrets ▸ h.distinct, fun other hother => ?_, fun secret hsecret => ?_⟩
  · have hcases : other = { one with
        removal := some (.done (Batch.rest stored.data one.keys)) } ∨ other ∈ front ++ back := by
      simp only [List.mem_append, List.mem_cons] at hother ⊢
      tauto
    rcases hcases with rfl | hother
    · exact ⟨stored, hstored, .inr ⟨rfl, Dict.find?_insert_self _ _ _⟩⟩
    · have hmem : other ∈ front ++ one :: back := by
        simp only [List.mem_append, List.mem_cons] at hother ⊢
        tauto
      rw [Started.Stands, Dict.find?_insert_ne (hne other hother)]
      exact h.stands other hmem
  · rw [hsecrets] at hsecret
    have hother : one.secret ≠ secret := by
      rintro rfl
      exact hsecret (by simp)
    rw [Dict.find?_insert_ne hother]
    exact h.others secret hsecret

end Removing

/-! ## The batch along its way -/

/-- The removals of a batch are on their way since a moment at which nothing was pending. -/
structure UnderWay (since : Shared) (removals : List Started) (now : Shared) : Prop where
  /-- nothing was pending -/
  settled : since.Settled
  /-- nothing but the secrets and the removals is another -/
  same : now = { since with vault := now.vault, started := since.started ++ removals }
  /-- how they stand -/
  removing : Removing since.vault now.vault removals

namespace UnderWay

variable {since now later : Shared} {removals : List Started}

/-- What comes is one of the removals. -/
theorem advances (h : UnderWay since removals now) (hadvances : now.Advances false later) :
    ∃ others, UnderWay since others later ∧
      others.map Started.target = removals.map Started.target := by
  obtain ⟨ticket, one, removal, vault, hone, hpending, hcomes, rfl⟩ := hadvances
  have hstarted : now.started = since.started ++ removals := by rw [h.same]
  have hlate : since.started.length ≤ ticket := by
    by_contra hearly
    rw [hstarted, List.getElem?_append_left (Nat.lt_of_not_le hearly)] at hone
    have hsome := h.settled one (List.mem_of_getElem? hone)
    rw [hpending] at hsome
    cases hsome
  rw [hstarted, List.getElem?_append_right hlate] at hone
  obtain ⟨hlt, hget⟩ := List.getElem?_eq_some_iff.mp hone
  have hsplit : removals = removals.take (ticket - since.started.length) ++ one ::
      removals.drop (ticket - since.started.length + 1) := by
    rw [← hget, List.getElem_cons_drop, List.take_append_drop]
  have hset : now.started.set ticket { one with removal := some removal } = since.started ++
      (removals.take (ticket - since.started.length) ++ { one with removal := some removal } ::
        removals.drop (ticket - since.started.length + 1)) := by
    rw [hstarted, List.set_append_right _ _ hlate, List.set_eq_take_append_cons_drop, if_pos hlt]
  refine ⟨removals.take (ticket - since.started.length) ++ { one with removal := some removal } ::
    removals.drop (ticket - since.started.length + 1), ⟨h.settled, ?_, ?_⟩, ?_⟩
  · rw [Shared.settle, hset, h.same]
  · exact Removing.comes (hsplit ▸ h.removing) hpending hcomes
  · conv_rhs => rw [hsplit]
    simp [Started.target]

/-- Whatever happens meanwhile, the same removals are on their way. -/
theorem meanwhile (h : UnderWay since removals now) (hmeanwhile : Meanwhile false true now later) :
    ∃ others, UnderWay since others later ∧
      others.map Started.target = removals.map Started.target := by
  induction hmeanwhile with
  | refl => exact ⟨removals, h, rfl⟩
  | tail _ hstep ih =>
    obtain ⟨others, hothers, htargets⟩ := ih
    obtain ⟨final, hfinal, hsame⟩ := hothers.advances hstep.2
    exact ⟨final, hfinal, hsame.trans htargets⟩

/-- One more removal is started. -/
theorem concat (h : UnderWay since removals now) {secret : String} (keys : Names)
    (hnew : secret ∉ removals.map Started.secret)
    (hsecret : since.vault.secrets.contains secret = true) :
    UnderWay since (removals ++ [⟨secret, keys, none⟩])
      { now with started := now.started ++ [⟨secret, keys, none⟩] } := by
  refine ⟨h.settled, ?_, h.removing.concat hnew hsecret⟩
  rw [h.same, List.append_assoc]

theorem length_started (h : UnderWay since removals now) :
    now.started.length = since.started.length + removals.length := by
  rw [h.same, List.length_append]

/-- What has come of the removals. -/
theorem removalsOf (h : UnderWay since removals now) {tickets : List Nat}
    (htickets : tickets = (List.range removals.length).map (since.started.length + ·)) :
    now.removalsOf tickets = removals.map Started.removal := by
  rw [Shared.removalsOf, htickets, List.map_map]
  apply List.ext_getElem?
  intro place
  rw [List.getElem?_map, List.getElem?_map]
  by_cases hplace : place < removals.length
  · have hone : now.started[since.started.length + place]? = removals[place]? := by
      rw [h.same, List.getElem?_append_right (Nat.le_add_right _ _), Nat.add_sub_cancel_left]
    rw [List.getElem?_range hplace, Option.map_some, Function.comp_apply, hone,
      List.getElem?_eq_getElem hplace]
    rfl
  · rw [List.getElem?_eq_none (by simpa using hplace),
      List.getElem?_eq_none (by simpa using hplace)]
    rfl

end UnderWay

/-! ## The end of the batch -/

namespace Batch

variable {batch : Batch} {since now : Shared} {removals : List Started}

/-- A secret of the catalog is there. -/
theorem contains_of_contains_all {secret : String} (h : batch.all.contains secret = true) :
    batch.vault.secrets.contains secret = true := by
  obtain ⟨data, hdata⟩ := Dict.contains_iff.mp h
  rw [find?_all, Option.map_eq_some_iff] at hdata
  obtain ⟨stored, hstored, -⟩ := hdata
  exact Dict.contains_of_find? (Option.filter_eq_some_iff.mp hstored).1

/-- What a removal that is done has left. -/
theorem removal_eq (hvault : since.vault = batch.vault) (h : Removing since.vault now.vault removals)
    (htargets : removals.map Started.target = batch.present)
    (hdone : ∀ one ∈ removals, one.removal.isSome = true) {one : Started} (hone : one ∈ removals) :
    one.removal = some (.done
        (rest ((batch.all.find? one.secret).getD Dict.empty) one.keys)) ∧
      ∃ stored, batch.vault.secrets.find? one.secret = some stored ∧
        stored.label = batch.label ∧ batch.targets.find? one.secret = some one.keys ∧
        now.vault.secrets.find? one.secret
          = some { stored with data := rest stored.data one.keys } := by
  obtain ⟨stored, hstored, ⟨hpending, -⟩ | ⟨hremoval, hnow⟩⟩ := h.stands one hone
  · have hsome := hdone one hone
    rw [hpending] at hsome
    cases hsome
  · have hpresent : one.target ∈ batch.present := htargets ▸ List.mem_map_of_mem hone
    obtain ⟨htarget, hall⟩ := List.mem_filter.mp hpresent
    obtain ⟨data, hdata⟩ := Dict.contains_iff.mp hall
    rw [hvault] at hstored
    have hfind := hdata
    rw [find?_all, Started.target, hstored, Option.map_eq_some_iff] at hfind
    obtain ⟨found, hfound, rfl⟩ := hfind
    obtain ⟨hsame, hlabel⟩ := Option.filter_eq_some_iff.mp hfound
    obtain rfl := Option.some.inj hsame
    refine ⟨?_, stored, hstored, of_decide_eq_true hlabel, Dict.mem_entries_iff.mp htarget, hnow⟩
    rw [hremoval]
    change _ = some (Removal.done (rest ((batch.all.find? one.target.1).getD Dict.empty) one.keys))
    rw [hdata]
    rfl

/-- When all removals are done, they are those of the batch. -/
theorem removals_eq (hvault : since.vault = batch.vault)
    (h : Removing since.vault now.vault removals)
    (htargets : removals.map Started.target = batch.present)
    (hdone : ∀ one ∈ removals, one.removal.isSome = true) : removals = batch.removals := by
  have hsame : ∀ one ∈ removals, one = ⟨one.secret, one.keys, some (.done
      (rest ((batch.all.find? one.secret).getD Dict.empty) one.keys))⟩ := by
    intro one hone
    obtain ⟨hremoval, -⟩ := removal_eq hvault h htargets hdone hone
    rw [← hremoval]
  calc removals
      = removals.map id := (List.map_id _).symm
    _ = removals.map fun one => ⟨one.secret, one.keys, some (.done
          (rest ((batch.all.find? one.secret).getD Dict.empty) one.keys))⟩ :=
        List.map_congr_left hsame
    _ = batch.removals := by
        rw [Batch.removals, ← htargets, List.map_map]
        rfl

/-- No name is removed where none is to be. -/
theorem rest_empty (data : Data) : rest data Dict.empty = data := by
  apply Dict.ext_find?
  intro key
  rw [rest, Dict.find?_filter]
  cases data.find? key <;> rfl

/-- When all removals are done, the secrets are as they are after the batch. -/
theorem vault_eq (hvault : since.vault = batch.vault)
    (h : Removing since.vault now.vault removals)
    (htargets : removals.map Started.target = batch.present)
    (hdone : ∀ one ∈ removals, one.removal.isSome = true) : now.vault = batch.vaultAfter := by
  have hsecrets : now.vault.secrets = batch.vaultAfter.secrets := by
    apply Dict.ext_find?
    intro secret
    rw [vaultAfter, Dict.find?_map]
    by_cases hsecret : secret ∈ removals.map Started.secret
    · obtain ⟨one, hone, rfl⟩ := List.mem_map.mp hsecret
      obtain ⟨-, stored, hstored, hlabel, htarget, hnow⟩ :=
        removal_eq hvault h htargets hdone hone
      rw [hnow, hstored, Option.map_some, if_pos hlabel, htarget]
      rfl
    · rw [h.others secret hsecret, hvault]
      cases hstored : batch.vault.secrets.find? secret with
      | none => rfl
      | some stored =>
        rw [Option.map_some]
        split
        · -- a secret of the catalog that is no target keeps all that it holds
          rename_i hlabel
          have hnone : batch.targets.find? secret = none := by
            rw [Option.eq_none_iff_forall_ne_some]
            intro keys htarget
            have hall : batch.all.contains secret = true := by
              rw [Dict.contains, find?_all, hstored, Option.filter_some,
                if_pos (by simpa using hlabel)]
              rfl
            have hpresent : (secret, keys) ∈ batch.present :=
              List.mem_filter.mpr ⟨Dict.mem_entries_iff.mpr htarget, hall⟩
            rw [← htargets] at hpresent
            obtain ⟨one, hone, heq⟩ := List.mem_map.mp hpresent
            exact hsecret (List.mem_map.mpr ⟨one, hone, congrArg Prod.fst heq⟩)
          rw [hnone, Option.getD_none, rest_empty]
        · rfl
  cases hnow : now.vault
  rw [hnow] at hsecrets
  cases hafter : batch.vaultAfter
  rw [hafter] at hsecrets
  exact congrArg _ hsecrets

end Batch

/-! ## The operation -/

/-- What the batch of some requests is about. -/
def Coordinator.batch (coordinator : Coordinator) (requested : Dict Names) (vault : Vault) : Batch :=
  ⟨coordinator.keeper.label, targets coordinator.keeper requested, vault⟩

namespace UnderWay

variable {since now later : Shared} {removals : List Started}

/-- The targets that exist are issued one after the other, and the others fail. -/
theorem issue (batch : Batch) (hvault : since.vault = batch.vault)
    {targets : List (String × Names)} (issued : Coordinator.Issued)
    (h : UnderWay since removals now) (hdistinct : (targets.map Prod.fst).Nodup)
    (hnew : ∀ target ∈ targets, target.1 ∉ removals.map Started.secret)
    (htickets : issued.pending.map Keeper.Pending.ticket
      = (List.range removals.length).map (since.started.length + ·))
    {outcome : Outcome Coordinator.Issued}
    (hperforms : Performs false true now (Coordinator.issue batch.all issued targets) outcome
      later) :
    ∃ others pending, outcome = .ok ⟨pending, batch.failuresAfter issued.failures targets⟩ ∧
      UnderWay since others later ∧
      others.map Started.target = removals.map Started.target
        ++ targets.filter (fun target => batch.all.contains target.1) ∧
      pending.map Keeper.Pending.ticket
        = (List.range others.length).map (since.started.length + ·) := by
  induction targets generalizing removals now issued with
  | nil =>
    obtain ⟨rfl, rfl⟩ := hperforms.of_pure
    exact ⟨removals, issued.pending, rfl, h, (List.append_nil _).symm, htickets⟩
  | cons target more ih =>
    obtain ⟨secret, keys⟩ := target
    rw [List.map_cons, List.nodup_cons] at hdistinct
    obtain ⟨hsecret, hmore⟩ := hdistinct
    rw [Coordinator.issue] at hperforms
    split at hperforms
    · rename_i hexists
      obtain ⟨between, answer, answered, hmeanwhile, ⟨rfl, rfl⟩ | ⟨hfaulty, -⟩, hrest⟩ :=
        Alone.of_ask hperforms
      · obtain ⟨others, hothers, hsame⟩ := h.meanwhile hmeanwhile
        have hsecrets : others.map Started.secret = removals.map Started.secret := by
          have hfirst := congrArg (List.map Prod.fst) hsame
          simpa [List.map_map, Function.comp_def, Started.target] using hfirst
        have hlength : others.length = removals.length := by
          simpa using congrArg List.length hsame
        have hnext := hothers.concat keys
          (hsecrets ▸ hnew (secret, keys) List.mem_cons_self)
          (hvault ▸ Batch.contains_of_contains_all hexists)
        let removal : Started := ⟨secret, keys, none⟩
        let ticket : Keeper.Pending := ⟨secret, between.started.length⟩
        have hstillnew : ∀ other ∈ more,
            other.1 ∉ (others ++ [removal]).map Started.secret := by
          intro other hother
          rw [List.map_append, List.mem_append, hsecrets]
          rintro (hold | hthis)
          · exact hnew other (List.mem_cons_of_mem _ hother) hold
          · have hagain : other.1 = secret := by
              rwa [List.map_singleton, List.mem_singleton] at hthis
            have hamong : other.1 ∈ more.map Prod.fst := List.mem_map_of_mem hother
            exact hsecret (hagain ▸ hamong)
        have hnumbered : (issued.pending ++ [ticket]).map Keeper.Pending.ticket
            = (List.range (others ++ [removal]).length).map (since.started.length + ·) := by
          have hticket : between.started.length = since.started.length + removals.length :=
            hothers.length_started.trans (by rw [hlength])
          rw [List.map_append, htickets, List.length_append, hlength, List.length_singleton,
            List.range_succ, List.map_append, List.map_singleton, List.map_singleton, ← hticket]
        obtain ⟨final, pending, rfl, hfinal, htargets, hpending⟩ := ih
          { issued with pending := issued.pending ++ [ticket] }
          hnext hmore hstillnew hnumbered hrest
        have hfilter : ((secret, keys) :: more).filter (fun target =>
            batch.all.contains target.1) = (secret, keys) :: more.filter fun target =>
            batch.all.contains target.1 := List.filter_cons_of_pos hexists
        refine ⟨final, pending, ?_, hfinal, ?_, hpending⟩
        · rw [Batch.failuresAfter, Batch.failuresAfter, List.foldl_cons, if_pos hexists]
        · rw [htargets, List.map_append, hsame, hfilter, List.append_assoc]
          rfl
      · cases hfaulty
    · rename_i hmissing
      obtain ⟨final, pending, rfl, hfinal, htargets, hpending⟩ := ih
        { issued with
          failures := issued.failures.insert secret (Error.secretNotFound secret).message }
        h hmore (fun other hother => hnew other (List.mem_cons_of_mem _ hother)) htickets hperforms
      refine ⟨final, pending, ?_, hfinal, ?_, hpending⟩
      · rw [Batch.failuresAfter, Batch.failuresAfter, List.foldl_cons, if_neg hmissing]
      · have hfilter : ((secret, keys) :: more).filter (fun target =>
            batch.all.contains target.1) = more.filter fun target =>
            batch.all.contains target.1 := List.filter_cons_of_neg hmissing
        rw [htargets, hfilter]

/-- The bound is found out. -/
theorem deadline {coordinator : Coordinator} (h : UnderWay since removals now)
    {outcome : Outcome (Option (Nat × Span))}
    (hperforms : Performs false true now coordinator.deadline outcome later) :
    ∃ bound others, outcome = .ok bound ∧ UnderWay since others later ∧
      others.map Started.target = removals.map Started.target := by
  rw [Coordinator.deadline] at hperforms
  split at hperforms
  · obtain ⟨rfl, rfl⟩ := hperforms.of_pure
    exact ⟨_, removals, rfl, h, rfl⟩
  · rcases hperforms.of_bind with ⟨error, hnow, -⟩ | ⟨moment, between, hnow, hrest⟩
    · obtain ⟨_, _, -, -, hnever⟩ := hnow.of_tell
      cases hnever
    · obtain ⟨_, _, hmeanwhile, rfl, -⟩ := hnow.of_tell
      obtain ⟨rfl, rfl⟩ := hrest.of_pure
      obtain ⟨others, hothers, hsame⟩ := h.meanwhile hmeanwhile
      exact ⟨_, others, rfl, hothers, hsame⟩

/-- All removals are waited for, and none of them fails. -/
theorem awaitAll (h : UnderWay since removals now) {pending : List Keeper.Pending}
    {bound : Option (Nat × Span)} {outcome : Outcome (List (Keeper.Pending × Outcome Data))}
    (hperforms : Performs false true now (Keeper.awaitAll pending bound) outcome later)
    (htickets : pending.map Keeper.Pending.ticket
      = (List.range removals.length).map (since.started.length + ·)) :
    ∃ others outcomes, outcome = .ok outcomes ∧ UnderWay since others later ∧
      others.map Started.target = removals.map Started.target ∧
      (∀ one ∈ others, one.removal.isSome = true) ∧
      ∀ one ∈ outcomes, ∃ data, one.2 = .ok data := by
  obtain ⟨between, answer, hmeanwhile, ⟨rfl, rfl, hcome⟩, rfl⟩ := hperforms.of_tell
  obtain ⟨others, hothers, hsame⟩ := h.meanwhile hmeanwhile
  have hlength : others.length = removals.length := by simpa using congrArg List.length hsame
  have hremovals := hothers.removalsOf (htickets.trans (by rw [hlength]))
  have hdone : ∀ one ∈ others, one.removal.isSome = true := by
    intro one hone
    exact hcome _ (hremovals ▸ List.mem_map_of_mem hone)
  refine ⟨others, _, rfl, hothers, hsame, hdone, fun one hone => ?_⟩
  rw [hremovals, ← List.map_uncurry_zip_eq_zipWith] at hone
  obtain ⟨⟨started, removal⟩, hzip, rfl⟩ := List.mem_map.mp hone
  obtain ⟨one, hmem, rfl⟩ := List.mem_map.mp (List.of_mem_zip hzip).2
  obtain ⟨stored, -, ⟨hpending, -⟩ | ⟨hremoval, -⟩⟩ := hothers.removing.stands one hmem
  · have hsome := hdone one hmem
    rw [hpending] at hsome
    cases hsome
  · exact ⟨Batch.rest stored.data one.keys, by rw [hremoval]; rfl⟩

end UnderWay

/-- Outcomes without an error add no failures. -/
theorem Coordinator.addFailures_of_ok (failures : Dict String)
    {outcomes : List (Keeper.Pending × Outcome Data)}
    (h : ∀ one ∈ outcomes, ∃ data, one.2 = .ok data) :
    addFailures failures outcomes = failures := by
  induction outcomes with
  | nil => rfl
  | cons one more ih =>
    obtain ⟨pending, outcome⟩ := one
    obtain ⟨data, rfl⟩ := h (pending, outcome) List.mem_cons_self
    exact ih fun other hother => h other (List.mem_cons_of_mem _ hother)

namespace Batch

variable {coordinator : Coordinator} {requested : Dict Names} {s t : Shared}

/-- What is shared after the batch. -/
def after (batch : Batch) (before : Shared) : Shared :=
  { before with
    vault := batch.vaultAfter
    started := before.started ++ batch.removals
    records := before.records ++ batch.records }

theorem settled_after (batch : Batch) {before : Shared} (h : before.Settled) :
    (batch.after before).Settled := by
  intro one hone
  rcases List.mem_append.mp hone with hone | hone
  · exact h one hone
  · obtain ⟨target, -, rfl⟩ := List.mem_map.mp hone
    rfl

/-- What is done with the lock held: when it is released, all removals are done. -/
theorem critical (hsettled : s.Settled)
    {outcome : Outcome (Dict Data × Dict String)}
    (h : Performs false true s (do
      let all ← coordinator.keeper.all
      let issued ← Coordinator.issue all ⟨[], Dict.empty⟩
        (Coordinator.targets coordinator.keeper requested).entries
      let bound ← coordinator.deadline
      let outcomes ← Keeper.awaitAll issued.pending bound
      return (all, Coordinator.addFailures issued.failures outcomes)) outcome t) :
    outcome = .ok ((coordinator.batch requested s.vault).all,
        (coordinator.batch requested s.vault).failures) ∧
      t = { s with
        vault := (coordinator.batch requested s.vault).vaultAfter
        started := s.started ++ (coordinator.batch requested s.vault).removals } := by
  let batch := coordinator.batch requested s.vault
  have hstart : UnderWay s [] s := by
    refine ⟨hsettled, ?_, Removing.start s.vault⟩
    rw [List.append_nil]
  rcases h.of_bind with ⟨error, hall, -⟩ | ⟨all, between, hall, hissue⟩
  · obtain ⟨_, _, _, ⟨rfl, -⟩ | ⟨hfaulty, -⟩, hnever⟩ := hall.of_call
    · cases hnever
    · cases hfaulty
  obtain ⟨_, _, hmeanwhile, ⟨rfl, rfl⟩ | ⟨hfaulty, -⟩, hlist⟩ := hall.of_call
  swap
  · cases hfaulty
  obtain rfl := hmeanwhile.eq_of_quiet fun _ => hsettled
  obtain rfl : all = batch.all := Except.ok.inj hlist
  have hdistinct : (batch.targets.entries.map Prod.fst).Nodup := batch.targets.nodup_keys
  rcases hissue.of_bind with ⟨error, hissued, -⟩ | ⟨issued, later, hissued, hdeadline⟩
  · obtain ⟨_, _, hnever, -⟩ := hstart.issue batch rfl _ hdistinct nofun rfl hissued
    cases hnever
  obtain ⟨removals, pending, hok, hway, htargets, htickets⟩ :=
    hstart.issue batch rfl _ hdistinct nofun rfl hissued
  obtain rfl := Except.ok.inj hok
  rcases hdeadline.of_bind with ⟨error, hbound, -⟩ | ⟨bound, late, hbound, hawait⟩
  · obtain ⟨_, _, hnever, -⟩ := hway.deadline hbound
    cases hnever
  obtain ⟨_, others, -, hlate, hothers⟩ := hway.deadline hbound
  have hlength : others.length = removals.length := by simpa using congrArg List.length hothers
  rw [← hlength] at htickets
  rcases hawait.of_bind with ⟨error, hall, -⟩ | ⟨outcomes, last, hall, hreturn⟩
  · obtain ⟨_, _, hnever, -⟩ := hlate.awaitAll hall htickets
    cases hnever
  obtain ⟨final, _, hok, hfinal, hsame, hdone, hfine⟩ := hlate.awaitAll hall htickets
  obtain rfl := Except.ok.inj hok
  obtain ⟨rfl, rfl⟩ := hreturn.of_pure
  have hpresent : final.map Started.target = batch.present :=
    hsame.trans (hothers.trans htargets)
  have hvault : t.vault = batch.vaultAfter := vault_eq rfl hfinal.removing hpresent hdone
  have hremovals : final = batch.removals := removals_eq rfl hfinal.removing hpresent hdone
  refine ⟨?_, ?_⟩
  · rw [Coordinator.addFailures_of_ok _ hfine]
    rfl
  · rw [hfinal.same, hvault, hremovals]

/-- **What a batch comes to** is read off the secrets as they were before it. -/
theorem deleteFromSecrets (hsettled : s.Settled) {outcome : Outcome (List SecretFailure)}
    (h : Performs false true s (coordinator.deleteFromSecrets requested) outcome t) :
    requested.isEmpty = true ∧ outcome = .ok [] ∧ t = s ∨
      requested.isEmpty = false ∧ outcome = (coordinator.batch requested s.vault).outcome ∧
        t = (coordinator.batch requested s.vault).after s := by
  rw [Coordinator.deleteFromSecrets] at h
  split at h
  · rename_i hnone
    obtain ⟨rfl, rfl⟩ := h.of_pure
    exact .inl ⟨hnone, rfl, rfl⟩
  rename_i hsome
  refine .inr ⟨Bool.not_eq_true _ ▸ hsome, ?_⟩
  let batch := coordinator.batch requested s.vault
  rcases h.of_bind with ⟨error, hlocked, -⟩ | ⟨⟨all, failures⟩, between, hlocked, hrest⟩
  · obtain ⟨held, _, _, hmeanwhile, -, hcritical, -⟩ := hlocked.of_locked
    obtain rfl := hmeanwhile.eq_of_quiet fun _ => hsettled
    obtain ⟨hnever, -⟩ := critical (s := { held with holder := some 0 }) hsettled hcritical
    cases hnever
  obtain ⟨held, inner, last, hmeanwhile, hfree, hcritical, hlast, rfl⟩ := hlocked.of_locked
  obtain rfl := hmeanwhile.eq_of_quiet fun _ => hsettled
  obtain ⟨hok, rfl⟩ := critical (s := { held with holder := some 0 }) hsettled hcritical
  obtain ⟨rfl, rfl⟩ := Prod.mk.inj (Except.ok.inj hok)
  -- nothing is pending when the lock is released
  let released : Shared := { held with
    vault := batch.vaultAfter, holder := none, started := held.started ++ batch.removals }
  have hdone : released.Settled := settled_after batch hsettled
  obtain rfl := hlast.eq_of_quiet fun _ => hdone
  rcases hrest.of_bind with ⟨error, hrecords, -⟩ | ⟨⟨⟩, late, hrecords, hend⟩
  · obtain ⟨_, hnever, -⟩ := Surely.recordAll (s := released) (fun _ => hdone) _ _ _ hrecords
    cases hnever
  obtain ⟨_, -, rfl⟩ := Surely.recordAll (s := released) (fun _ => hdone) _ _ _ hrecords
  have hafter : ({ released with records := released.records ++ batch.records } : Shared)
      = batch.after held := by
    rw [Batch.after, hfree]
  dsimp only at hend
  split at hend
  · rename_i hall
    obtain ⟨rfl, rfl⟩ := hend.of_fail
    exact ⟨(if_pos hall).symm, hafter⟩
  · rename_i hall
    obtain ⟨rfl, rfl⟩ := hend.of_pure
    exact ⟨(if_neg hall).symm, hafter⟩

end Batch

end EngineCatalog
