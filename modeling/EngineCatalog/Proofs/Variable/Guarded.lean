import EngineCatalog.Proofs.Concurrency.System
import EngineCatalog.Proofs.Variable.Permit
import EngineCatalog.Proofs.Layout.Key
import Mathlib.Logic.Function.Basic

/-!
# Permits keep the two halves of the namespace apart

A name is common if it is among the variables that are read back from the key-value store, and
secured if the default secret holds it. `Coordinator.Apart` says that no name is both.

* `Guarded` — the invariant: what is secured or may be put into the default secret, and what is
  common or may be made common, have no name in common.
* `Guarded.answers` — an answer that a permit allows keeps it. This is where it matters that no job
  may make common what another one may put into the default secret.
-/

namespace EngineCatalog

open KeyValue (Listing Store)
open Secret (Data Removal Vault)

namespace Coordinator

variable {coordinator : Coordinator} {store : Store} {name : String}

/-! ## The names in the two stores -/

/-- The common variables in a store. -/
def commonIn (coordinator : Coordinator) (store : Store) : Dict String :=
  Catalog.valuesOf (some coordinator.catalog.layout.commonVariables)
    (store.queryEntries coordinator.catalog.layout.commonVariables true)

/-- What the default secret holds. -/
def securedIn (coordinator : Coordinator) (vault : Vault) : Data :=
  (vault.read coordinator.keeper.defaultName).getD Dict.empty

/-- No name is both a common variable and one in the default secret. -/
def Apart (coordinator : Coordinator) (shared : Shared) : Prop :=
  ∀ name, (coordinator.commonIn shared.store).contains name = true →
    (coordinator.securedIn shared.vault).contains name = false

/-- The common variables are those whose keys are there. -/
theorem contains_commonIn :
    (coordinator.commonIn store).contains name = true
      ↔ isSegment name.toList = true ∧
        store.entries.contains (coordinator.catalog.layout.variableKey name) = true := by
  rw [commonIn, Catalog.valuesOf, Dict.contains_ofList, Sorted.keys, List.mem_map]
  constructor
  · rintro ⟨⟨found, text⟩, hmem, rfl⟩
    obtain ⟨entry, hentry, hvariable⟩ := List.mem_filterMap.mp hmem
    obtain ⟨⟨key, stored⟩, hselect, rfl⟩ := List.mem_map.mp hentry
    obtain ⟨-, hfind⟩ := Store.mem_select.mp hselect
    rw [Catalog.variableOf?] at hvariable
    split at hvariable
    · rename_i hchild
      obtain ⟨child, hchild⟩ := Option.isSome_iff_exists.mp hchild
      rw [lastSegment?_of_childKey? hchild] at hvariable
      obtain ⟨rfl, -⟩ := Prod.mk.inj (Option.some.inj hvariable)
      obtain ⟨hsegment, rfl⟩ := childKey?_variableKey_iff.mp hchild
      exact ⟨hsegment, Dict.contains_of_find? hfind⟩
    · cases hvariable
  · rintro ⟨hsegment, hkey⟩
    obtain ⟨stored, hfind⟩ := Dict.contains_iff.mp hkey
    have hchild : childKey? coordinator.catalog.layout.commonVariables
        (coordinator.catalog.layout.variableKey name) = some name :=
      childKey?_variableKey.mpr ⟨hsegment, rfl⟩
    let entry : KeyValue.Entry :=
      ⟨coordinator.catalog.layout.variableKey name, stored.value, stored.modified⟩
    refine ⟨(name, entry.text), List.mem_filterMap.mpr ⟨entry, ?_, ?_⟩, rfl⟩
    · refine List.mem_map.mpr ⟨(_, stored), Store.mem_select.mpr ⟨?_, hfind⟩, rfl⟩
      exact startsWith_of_childKey? hchild
    · rw [Catalog.variableOf?, Option.all_some, hchild, lastSegment?_of_childKey? hchild]
      rfl

/-- A read of all common variables shows those that are there. -/
theorem shown?_read :
    Permit.shown? coordinator (store.read coordinator.catalog.layout.commonVariables true)
      = some (coordinator.commonIn store) := by
  rw [Store.read]
  split
  · rename_i hnone
    rw [commonIn, List.isEmpty_iff.mp hnone]
    rfl
  · rfl

end Coordinator

/-! ## The invariant

A name is reserved while the default secret holds it or some job may put it there, and published
while it is common or some job may make it so. What may be put into the default secret is forgotten
with the lock, but what may be made common is not: a job publishes after it has released the lock.
So no check of one job can keep another one from publishing, and only the rights can. -/

section

variable (coordinator : Coordinator) (permits : Nat → Permit) (shared : Shared)

/-- The names that are secured, or that some job may put into the default secret. -/
def reserved : Set String :=
  {name | (coordinator.securedIn shared.vault).contains name = true
    ∨ ∃ job, name ∈ (permits job).secured}

/-- The names that are common, or that some job may make common. -/
def published : Set String :=
  {name | (coordinator.commonIn shared.store).contains name = true
    ∨ ∃ job, name ∈ (permits job).common}

/-- The permits of all jobs are in accord with one another and with what is shared. -/
structure Guarded (rights : Nat → Rights) : Prop where
  /-- the job that holds the lock knows that -/
  holder : ∀ job, (permits job).held = true ↔ shared.holder = some job
  /-- without the lock nothing may be put into the default secret -/
  idle : ∀ job, (permits job).held = false → (permits job).secured = ∅
  /-- what a job may make common, it has the right to -/
  bounded : ∀ job, ∀ name ∈ (permits job).common, name ∈ (rights job).publishes
  /-- no name is on both sides -/
  apart : ∀ name ∈ reserved coordinator permits shared,
    name ∉ published coordinator permits shared

end

namespace Guarded

variable {coordinator : Coordinator} {rights : Nat → Rights} {permits : Nat → Permit}
  {shared after : Shared} {job : Nat}

theorem isApart (h : Guarded coordinator permits shared rights) : coordinator.Apart shared := by
  intro name hcommon
  rw [← Bool.not_eq_true]
  intro hsecured
  exact h.apart name (.inl hsecured) (.inl hcommon)

/-- At the beginning no job has a permit. -/
theorem start (hapart : coordinator.Apart shared) (hfree : shared.holder = none) :
    Guarded coordinator (fun _ => Permit.none) shared rights := by
  refine ⟨fun job => ?_, fun _ _ => rfl, nofun, ?_⟩
  · rw [hfree]
    exact ⟨nofun, nofun⟩
  · rintro name (hsecured | ⟨job, hjob⟩) (hcommon | ⟨other, hother⟩)
    · rw [hapart name hcommon] at hsecured
      cases hsecured
    · cases hother
    · cases hjob
    · cases hjob

/-- Where no job but the holder has the lock, no other may put anything into the default secret. -/
theorem secured_eq_empty (h : Guarded coordinator permits shared rights)
    (hheld : (permits job).held = true) {other : Nat} (hne : other ≠ job) :
    (permits other).secured = ∅ := by
  apply h.idle
  rw [← Bool.not_eq_true, h.holder]
  intro hother
  rw [(h.holder job).mp hheld] at hother
  exact hne (Option.some.inj hother).symm

/-- What is shared may change, if no name comes to a side. -/
theorem mono (h : Guarded coordinator permits shared rights)
    (hholder : after.holder = shared.holder)
    (hsecured : ∀ name, (coordinator.securedIn after.vault).contains name = true →
      name ∈ reserved coordinator permits shared)
    (hcommon : ∀ name, (coordinator.commonIn after.store).contains name = true →
      name ∈ published coordinator permits shared) :
    Guarded coordinator permits after rights := by
  refine ⟨fun job => ?_, h.idle, h.bounded, ?_⟩
  · rw [hholder]
    exact h.holder job
  · rintro name hreserved hpublished
    refine h.apart name ?_ ?_
    · rcases hreserved with hname | hjob
      · exact hsecured name hname
      · exact .inr hjob
    · rcases hpublished with hname | hjob
      · exact hcommon name hname
      · exact .inr hjob

/-! ## Changes of a permit -/

theorem of_mem_published_update {later : Permit} {name : String}
    (hname : name ∈ published coordinator (Function.update permits job later) shared) :
    name ∈ published coordinator permits shared ∨ name ∈ later.common := by
  rcases hname with hcommon | ⟨other, hother⟩
  · exact .inl (.inl hcommon)
  · by_cases heq : other = job
    · subst heq
      rw [Function.update_self] at hother
      exact .inr hother
    · rw [Function.update_of_ne heq] at hother
      exact .inl (.inr ⟨other, hother⟩)

/-- With the lock held, only its holder may put anything into the default secret. -/
theorem of_mem_reserved_update (h : Guarded coordinator permits shared rights)
    (hheld : (permits job).held = true) {later : Permit} {name : String}
    (hname : name ∈ reserved coordinator (Function.update permits job later) shared) :
    (coordinator.securedIn shared.vault).contains name = true ∨ name ∈ later.secured := by
  rcases hname with hsecured | ⟨other, hother⟩
  · exact .inl hsecured
  · by_cases heq : other = job
    · subst heq
      rw [Function.update_self] at hother
      exact .inr hother
    · rw [Function.update_of_ne heq, h.secured_eq_empty hheld heq] at hother
      cases hother

/-- The permit of one job may change, and the lock with it. -/
theorem of_update (h : Guarded coordinator permits shared rights) {later : Permit}
    (hself : later.held = true ↔ after.holder = some job)
    (hothers : ∀ other, other ≠ job → ((permits other).held = true ↔ after.holder = some other))
    (hidle : later.held = false → later.secured = ∅)
    (hbounded : ∀ name ∈ later.common, name ∈ (rights job).publishes)
    (hapart : ∀ name ∈ reserved coordinator (Function.update permits job later) after,
      name ∉ published coordinator (Function.update permits job later) after) :
    Guarded coordinator (Function.update permits job later) after rights := by
  refine ⟨fun other => ?_, fun other => ?_, fun other => ?_, hapart⟩
  all_goals by_cases heq : other = job
  · subst heq
    rw [Function.update_self]
    exact hself
  · rw [Function.update_of_ne heq]
    exact hothers other heq
  · subst heq
    rw [Function.update_self]
    exact hidle
  · rw [Function.update_of_ne heq]
    exact h.idle other
  · subst heq
    rw [Function.update_self]
    exact hbounded
  · rw [Function.update_of_ne heq]
    exact h.bounded other

/-- The holder of the lock may change its permit, as long as no name is then on both sides. -/
theorem update (h : Guarded coordinator permits shared rights)
    (hheld : (permits job).held = true) {later : Permit} (hlater : later.held = true)
    (hbounded : ∀ name ∈ later.common, name ∈ (rights job).publishes)
    (hapart : ∀ name, (coordinator.securedIn shared.vault).contains name = true
        ∨ name ∈ later.secured →
      ¬ (name ∈ published coordinator permits shared ∨ name ∈ later.common)) :
    Guarded coordinator (Function.update permits job later) shared rights := by
  refine h.of_update ?_ (fun other _ => h.holder other) ?_ hbounded ?_
  · rw [hlater, ← h.holder, hheld]
  · rw [hlater]
    exact nofun
  · intro name hreserved hpublished
    exact hapart name (h.of_mem_reserved_update hheld hreserved)
      (of_mem_published_update hpublished)

/-- No name that is secured, or may be, is published. -/
theorem not_published (h : Guarded coordinator permits shared rights) (job : Nat)
    {name : String} (hname : (coordinator.securedIn shared.vault).contains name = true
      ∨ name ∈ (permits job).secured) : name ∉ published coordinator permits shared := by
  apply h.apart
  rcases hname with hsecured | hpermit
  · exact .inl hsecured
  · exact .inr ⟨job, hpermit⟩

/-- Common variables are seen: no other job may publish the names that this one may then put into
the default secret. -/
theorem seeCommon (h : Guarded coordinator permits shared rights)
    (hrights : ∀ other, ∀ name ∈ (rights job).secures, name ∉ (rights other).publishes)
    (hheld : (permits job).held = true) :
    Guarded coordinator (Function.update permits job
      ((permits job).seeCommon (rights job) (coordinator.commonIn shared.store)))
      shared rights := by
  refine h.update hheld hheld (h.bounded job) ?_
  intro name hname hpublished
  have hbefore : name ∈ published coordinator permits shared := by
    rcases hpublished with hpublished | hown
    · exact hpublished
    · exact .inr ⟨job, hown⟩
  rcases hname with hsecured | hpermit | ⟨hright, hfresh⟩
  · exact h.not_published job (.inl hsecured) hbefore
  · exact h.not_published job (.inr hpermit) hbefore
  · rcases hbefore with hcommon | ⟨other, hother⟩
    · rw [hfresh] at hcommon
      cases hcommon
    · -- another job may yet publish the name, unless it has no right to
      exact hrights other name hright (h.bounded other name hother)

/-- The default secret is seen. -/
theorem seeSecured (h : Guarded coordinator permits shared rights)
    (hheld : (permits job).held = true) :
    Guarded coordinator (Function.update permits job
      ((permits job).seeSecured (rights job) (coordinator.securedIn shared.vault)))
      shared rights := by
  refine h.update hheld hheld (fun name hname => hname.1) ?_
  intro name hname hpublished
  have hsecured : (coordinator.securedIn shared.vault).contains name = true := by
    rcases hname with hsecured | hsecured
    · exact hsecured
    · exact hsecured
  rcases hpublished with hpublished | ⟨-, hfresh⟩
  · exact h.not_published job (.inl hsecured) hpublished
  · rw [hfresh] at hsecured
    cases hsecured

/-- Names were removed from the default secret. -/
theorem seeRemoved (h : Guarded coordinator permits shared rights)
    (hheld : (permits job).held = true) {keys : Names}
    (hkeys : ∀ name, (coordinator.securedIn shared.vault).contains name = true →
      keys.contains name = false) :
    Guarded coordinator (Function.update permits job
      ((permits job).seeRemoved (rights job) keys)) shared rights := by
  refine h.update hheld hheld ?_ ?_
  · rintro name (hname | ⟨hright, -⟩)
    · exact h.bounded job name hname
    · exact hright
  · intro name hname hpublished
    have hkept : ((coordinator.securedIn shared.vault).contains name = true
        ∨ name ∈ (permits job).secured) ∧ keys.contains name = false := by
      rcases hname with hsecured | ⟨hpermit, hkey⟩
      · exact ⟨.inl hsecured, hkeys name hsecured⟩
      · exact ⟨.inr hpermit, hkey⟩
    rcases hpublished with hpublished | hown | ⟨-, hremoved⟩
    · exact h.not_published job hkept.1 hpublished
    · exact h.not_published job hkept.1 (.inr ⟨job, hown⟩)
    · rw [hkept.2] at hremoved
      cases hremoved

/-! ## The lock -/

theorem lock (h : Guarded coordinator permits shared rights) (hfree : shared.holder = none)
    (job : Nat) :
    Guarded coordinator (Function.update permits job (permits job).locked)
      { shared with holder := some job } rights := by
  have hnone : ∀ other, (permits other).held = false := by
    intro other
    rw [← Bool.not_eq_true, h.holder, hfree]
    exact nofun
  -- nobody had the lock, so nobody may put anything into the default secret
  refine h.of_update ⟨fun _ => rfl, fun _ => rfl⟩ (fun other hne => ?_) nofun (h.bounded job) ?_
  · rw [hnone other]
    exact ⟨nofun, fun hholder => absurd (Option.some.inj hholder).symm hne⟩
  · rintro name (hsecured | ⟨other, hother⟩) hpublished
    · refine h.not_published job (.inl hsecured) ?_
      rcases of_mem_published_update hpublished with hpublished | hown
      · exact hpublished
      · exact .inr ⟨job, hown⟩
    · by_cases heq : other = job
      · subst heq
        rw [Function.update_self] at hother
        cases hother
      · rw [Function.update_of_ne heq, h.idle other (hnone other)] at hother
        cases hother

theorem unlock (h : Guarded coordinator permits shared rights)
    (hheld : (permits job).held = true) :
    Guarded coordinator (Function.update permits job (permits job).released)
      { shared with holder := none } rights := by
  refine h.of_update ⟨nofun, nofun⟩ (fun other hne => ?_) (fun _ => rfl) (h.bounded job) ?_
  · rw [h.holder, (h.holder job).mp hheld]
    exact ⟨fun hholder => absurd (Option.some.inj hholder).symm hne, nofun⟩
  · intro name hreserved hpublished
    rcases h.of_mem_reserved_update hheld hreserved with hsecured | hnone
    · refine h.not_published job (.inl hsecured) ?_
      rcases of_mem_published_update hpublished with hpublished | hown
      · exact hpublished
      · exact .inr ⟨job, hown⟩
    · cases hnone

/-! ## Answers -/

section

variable {faulty : Bool}

/-- A permitted call of the key-value store brings in no name from the other side. -/
theorem callStore (h : Guarded coordinator permits shared rights) {call : KeyValue.Call}
    (hallows : (permits job).Allows coordinator false (.store call)) :
    Guarded coordinator permits { shared with store := (shared.store.answer call).2 } rights := by
  refine h.mono rfl (fun name hname => .inl hname) fun name hname => ?_
  obtain ⟨hsegment, hkey⟩ := Coordinator.contains_commonIn.mp hname
  rcases Store.contains_answer hkey with hbefore | hcreates
  · exact .inl (Coordinator.contains_commonIn.mpr ⟨hsegment, hbefore⟩)
  · exact .inr ⟨job, hallows _ name hcreates (childKey?_variableKey.mpr ⟨hsegment, rfl⟩)⟩

theorem callSecrets (h : Guarded coordinator permits shared rights) {call : Secret.Call}
    (hallows : (permits job).Allows coordinator false (.secrets call)) :
    Guarded coordinator permits { shared with vault := (shared.vault.answer call).2 } rights := by
  refine h.mono rfl (fun name hname => ?_) fun name hname => .inl hname
  rcases Vault.holds_answer hname with hbefore | hputs
  · exact .inl hbefore
  · exact .inr ⟨job, hallows name hputs⟩

/-- Whatever is answered to a permitted call, the permits that were there are kept to. -/
theorem answersSame (h : Guarded coordinator permits shared rights) {effect : Effect}
    {answer : effect.Answer} (hallows : (permits job).Allows coordinator false effect)
    (hlock : effect.holdsAfter (permits job).held = (permits job).held)
    (hanswers : Answers faulty job effect shared answer after) :
    Guarded coordinator permits after rights := by
  cases effect with
  | store call =>
    rcases hanswers with ⟨-, rfl⟩ | ⟨-, rfl, -⟩
    · exact h.callStore hallows
    · exact h
  | secrets call =>
    rcases hanswers with ⟨-, rfl⟩ | ⟨-, rfl, -⟩
    · exact h.callSecrets hallows
    · exact h
  | startRemoval name keys =>
    rcases hanswers with ⟨-, rfl⟩ | ⟨-, rfl, -⟩
    · exact h.mono rfl (fun _ => .inl) fun _ => .inl
    · exact h
  | awaitRemovals tickets moment =>
    obtain ⟨rfl, -⟩ := hanswers
    exact h
  | lock =>
    have hheld : true = (permits job).held := hlock
    have hfree : (permits job).held = false := hallows
    rw [hfree] at hheld
    cases hheld
  | unlock =>
    have hfree : false = (permits job).held := hlock
    have hheld : (permits job).held = true := hallows
    rw [hheld] at hfree
    cases hfree
  | record record =>
    obtain rfl := hanswers
    exact h.mono rfl (fun _ => .inl) fun _ => .inl
  | now =>
    obtain rfl := hanswers
    exact h
  | sleep millis =>
    obtain rfl := hanswers
    exact h
  | choose bound =>
    obtain ⟨rfl, -⟩ := hanswers
    exact h
  | «until» moment effect => cases hallows.1

/-- What a job learns from a read of the key-value store is so. -/
theorem nextStore (h : Guarded coordinator permits shared rights)
    (hrights : ∀ other, ∀ name ∈ (rights job).secures, name ∉ (rights other).publishes)
    {call : KeyValue.Call} {answer : call.Answer}
    (hallows : (permits job).Allows coordinator false (.store call))
    (hanswers : Answers faulty job (.store call) shared answer after) :
    Guarded coordinator (Function.update permits job
      ((permits job).nextStore coordinator (rights job) call answer)) after rights := by
  have hsame : Guarded coordinator (Function.update permits job (permits job)) after rights := by
    rw [Function.update_eq_self]
    exact h.answersSame hallows rfl hanswers
  cases call with
  | read path all =>
    rw [Permit.nextStore]
    split
    · rename_i hknown
      rw [Bool.and_eq_true, Bool.and_eq_true, decide_eq_true_iff] at hknown
      obtain ⟨⟨hheld, rfl⟩, rfl⟩ := hknown
      rcases hanswers with ⟨rfl, rfl⟩ | ⟨-, rfl, error, hmay, rfl⟩
      · have hshown : Permit.shown? coordinator
            (shared.store.answer (.read coordinator.catalog.layout.commonVariables true)).1
              = some (coordinator.commonIn shared.store) := Coordinator.shown?_read
        rw [hshown]
        exact h.seeCommon hrights hheld
      · have hshown : Permit.shown? coordinator (.error error) = none := by
          have hfound : error.isNotFound = false := hmay
          rw [Permit.shown?, hfound]
          rfl
        rw [KeyValue.Call.failure, hshown]
        exact hsame
    · exact hsame
  | _ => exact hsame

/-- What a job learns from the secrets' backend is so, for as long as it holds the lock. -/
theorem nextSecrets (h : Guarded coordinator permits shared rights)
    {call : Secret.Call} {answer : call.Answer}
    (hallows : (permits job).Allows coordinator false (.secrets call))
    (hanswers : Answers faulty job (.secrets call) shared answer after) :
    Guarded coordinator (Function.update permits job
      ((permits job).nextSecrets coordinator (rights job) call answer)) after rights := by
  have hsame : Guarded coordinator (Function.update permits job (permits job)) after rights := by
    rw [Function.update_eq_self]
    exact h.answersSame hallows rfl hanswers
  cases call with
  | read secret =>
    cases answer with
    | error error => exact hsame
    | ok data =>
      rw [Permit.nextSecrets]
      split
      · rename_i hknown
        rw [Permit.knows, Bool.and_eq_true, Keeper.isDefault, decide_eq_true_iff] at hknown
        obtain ⟨hheld, rfl⟩ := hknown
        rcases hanswers with ⟨hanswer, rfl⟩ | ⟨-, -, error, hanswer⟩
        · obtain rfl := Except.ok.inj hanswer
          exact h.seeSecured hheld
        · cases hanswer
      · exact hsame
  | remove secret keys =>
    cases answer with
    | error error => exact hsame
    | ok rest =>
      rw [Permit.nextSecrets]
      split
      · rename_i hknown
        rw [Permit.knows, Bool.and_eq_true, Keeper.isDefault, decide_eq_true_iff] at hknown
        obtain ⟨hheld, rfl⟩ := hknown
        rcases hanswers with ⟨-, rfl⟩ | ⟨-, -, error, hanswer⟩
        · refine (h.callSecrets hallows).seeRemoved hheld fun name hname => ?_
          exact (Vault.holds_remove hname).2 rfl
        · cases hanswer
      · exact hsame
  | _ => exact hsame

theorem nextUntimed (h : Guarded coordinator permits shared rights)
    (hrights : ∀ other, ∀ name ∈ (rights job).secures, name ∉ (rights other).publishes)
    {effect : Effect} {answer : effect.Answer}
    (hallows : (permits job).Allows coordinator false effect)
    (hanswers : Answers faulty job effect shared answer after) :
    Guarded coordinator (Function.update permits job
      ((permits job).next coordinator (rights job) effect answer)) after rights := by
  cases effect with
  | store call => exact h.nextStore hrights hallows hanswers
  | secrets call => exact h.nextSecrets hallows hanswers
  | lock =>
    obtain ⟨hfree, rfl⟩ := hanswers
    exact h.lock hfree job
  | unlock =>
    obtain rfl := hanswers
    exact h.unlock hallows
  | «until» moment effect => cases hallows.1
  | _ =>
    have hsame := h.answersSame hallows rfl hanswers
    rw [← Function.update_eq_self job permits] at hsame
    exact hsame

/-- An answer to what a permit allows keeps all permits in accord. -/
theorem next (h : Guarded coordinator permits shared rights)
    (hrights : ∀ other, ∀ name ∈ (rights job).secures, name ∉ (rights other).publishes)
    {effect : Effect} {answer : effect.Answer}
    (hallows : (permits job).Allows coordinator true effect)
    (hanswers : Answers faulty job effect shared answer after) :
    Guarded coordinator (Function.update permits job
      ((permits job).next coordinator (rights job) effect answer)) after rights := by
  cases effect with
  | «until» moment effect =>
    match answer with
    | some answer =>
      have hnext : Guarded coordinator (Function.update permits job
          ((permits job).next coordinator (rights job) effect answer)) after rights :=
        h.nextUntimed hrights hallows.2 hanswers
      exact hnext
    | none =>
      obtain rfl : after = shared := hanswers
      rw [← Function.update_eq_self job permits] at h
      exact h
  | _ => exact h.nextUntimed hrights hallows hanswers

/-- A removal that is carried out brings in no name. -/
theorem comes (h : Guarded coordinator permits shared rights) {started : Started}
    {removal : Removal} {vault : Vault} (ticket : Nat)
    (hcomes : Comes faulty started shared.vault removal vault) :
    Guarded coordinator permits (shared.settle ticket started removal vault) rights := by
  refine h.mono rfl (fun name hname => .inl ?_) fun _ => .inl
  rcases hcomes with hfinish | ⟨-, rfl, -⟩
  · obtain ⟨-, rfl⟩ := Prod.mk.inj hfinish
    exact Vault.holds_finish hname
  · exact hname

end

end Guarded

end EngineCatalog
