import EngineCatalog.Proofs.Concurrency.System
import EngineCatalog.Proofs.Secret.Holds
import EngineCatalog.Proofs.Store.Keys
import EngineCatalog.Variable.Coordinator
import Mathlib.Data.Set.Basic

/-!
# Permits

A job that is to keep the two halves of the namespace apart must know of a name that it is free
before it writes it. `Permit` is what a job knows at a moment: which names it may put into the
default secret, and which it may make common. It learns that from what it reads while it holds the
lock, and of common variables it may make use of it later.

* `Rights` — the names that a job ever writes.
* `Permit.Allows`, `Permit.next` — what a permit allows, and what it is after an answer.
* `Covers` — a permit allows all that a program ever asks for, whatever it is answered.
* `Keeps` — the same for an operation, which gives back the lock as it found it. The rules for it
  follow the ways in which operations are put together.
-/

namespace EngineCatalog

open KeyValue (Listing)
open Secret (Data)

/-! ## Permits -/

/-- The names that a job ever writes. -/
structure Rights where
  /-- those that it puts into the default secret -/
  secures : Set String
  /-- those that it makes common -/
  publishes : Set String

/-- What a job may do at a moment. -/
structure Permit where
  /-- it holds the lock -/
  held : Bool
  /-- the names that it may put into the default secret -/
  secured : Set String
  /-- the names that it may make common -/
  common : Set String

namespace Permit

/-- The permit of a job that has not begun. -/
def none : Permit := ⟨false, ∅, ∅⟩

/-- The permit when the lock is taken. -/
def locked (permit : Permit) : Permit := ⟨true, ∅, permit.common⟩

/-- The permit when the lock is released. -/
def released (permit : Permit) : Permit := ⟨false, ∅, permit.common⟩

section

variable (coordinator : Coordinator) (rights : Rights) (permit : Permit)

/-- What the permit allows. Only a program that is `timed` may give up waiting at a moment. -/
def Allows (timed : Bool) : Effect → Prop
  | .store call => ∀ key name, call.creates key →
    childKey? coordinator.catalog.layout.commonVariables key = some name → name ∈ permit.common
  | .secrets call => ∀ name, call.puts coordinator.keeper.defaultName name →
    name ∈ permit.secured
  | .lock => permit.held = false
  | .unlock => permit.held = true
  | .until _ effect => timed = true ∧ Allows false effect
  | _ => True

/-- The common variables that the answer to a read of all of them shows, if it is one. -/
def shown? : Outcome Listing → Option (Dict String)
  | .ok listing => some
    (Catalog.valuesOf (some coordinator.catalog.layout.commonVariables) listing.entries)
  | .error error => if error.isNotFound then some Dict.empty else Option.none

/-- The common variables are known. Names that are not among them may be secured. -/
def seeCommon (common : Dict String) : Permit :=
  { permit with
    secured := permit.secured ∪ {name | name ∈ rights.secures ∧ common.contains name = false} }

/-- What the default secret holds is known. Its names may be overwritten, and others may be made
common. -/
def seeSecured (data : Data) : Permit :=
  { permit with
    secured := {name | data.contains name = true}
    common := {name | name ∈ rights.publishes ∧ data.contains name = false} }

/-- Names are removed from the default secret. They may be made common. -/
def seeRemoved (keys : Names) : Permit :=
  { permit with
    secured := {name | name ∈ permit.secured ∧ keys.contains name = false}
    common := permit.common ∪ {name | name ∈ rights.publishes ∧ keys.contains name = true} }

/-- The permit after a call of the key-value store. -/
def nextStore : (call : KeyValue.Call) → call.Answer → Permit
  | .read path all, answer =>
    if permit.held && all && path = coordinator.catalog.layout.commonVariables then
      ((shown? coordinator answer).map (permit.seeCommon rights)).getD permit
    else permit
  | _, _ => permit

/-- What is read from the secret, and removed from it, is known to last. -/
def knows (secret : String) : Bool :=
  permit.held && coordinator.keeper.isDefault secret

/-- The permit after a call of the secrets' backend. -/
def nextSecrets : (call : Secret.Call) → call.Answer → Permit
  | .read secret, .ok data =>
    if permit.knows coordinator secret then permit.seeSecured rights (data.getD Dict.empty)
    else permit
  | .remove secret keys, .ok _ =>
    if permit.knows coordinator secret then permit.seeRemoved rights keys
    else permit
  | _, _ => permit

/-- The permit after an answer. -/
def next : (effect : Effect) → effect.Answer → Permit
  | .store call, answer => permit.nextStore coordinator rights call answer
  | .secrets call, answer => permit.nextSecrets coordinator rights call answer
  | .lock, _ => permit.locked
  | .unlock, _ => permit.released
  | .until _ effect, answer =>
    match (answer : Option effect.Answer) with
    | some answer => next effect answer
    | Option.none => permit
  | _, _ => permit

end

section

variable {coordinator : Coordinator} {rights : Rights} {permit : Permit}

theorem knows_iff (hheld : permit.held = true) {secret : String} :
    permit.knows coordinator secret = true ↔ coordinator.keeper.isDefault secret = true := by
  rw [knows, hheld, Bool.true_and]

theorem held_nextStore (call : KeyValue.Call) (answer : call.Answer) :
    (permit.nextStore coordinator rights call answer).held = permit.held := by
  cases call with
  | read path all =>
    rw [nextStore]
    split
    · cases shown? coordinator answer <;> rfl
    · rfl
  | _ => rfl

theorem held_nextSecrets (call : Secret.Call) (answer : call.Answer) :
    (permit.nextSecrets coordinator rights call answer).held = permit.held := by
  cases call with
  | read secret =>
    cases answer with
    | ok data =>
      rw [nextSecrets]
      split <;> rfl
    | error error => rfl
  | remove secret keys =>
    cases answer with
    | ok rest =>
      rw [nextSecrets]
      split <;> rfl
    | error error => rfl
  | _ => rfl

/-- The permit tells who holds the lock, as the effects do. -/
theorem held_next {effect : Effect} (hallows : permit.Allows coordinator false effect)
    (answer : effect.Answer) :
    (permit.next coordinator rights effect answer).held = effect.holdsAfter permit.held := by
  cases effect with
  | store call => exact held_nextStore call answer
  | secrets call => exact held_nextSecrets call answer
  | «until» moment effect => cases hallows.1
  | _ => rfl

end

end Permit

/-! ## Programs -/

/-- The permit allows all that the program ever asks for, and where it ends, the result and the
permit are as is said. -/
def Covers (coordinator : Coordinator) (rights : Rights) (timed : Bool) {α : Type} :
    Permit → Program effects α → (α → Permit → Prop) → Prop
  | permit, .done result, post => post result permit
  | _, .overflow, _ => True
  | permit, .ask effect next, post =>
    permit.Allows coordinator timed effect ∧ ∀ answer : Effect.Answer effect,
      Covers coordinator rights timed (permit.next coordinator rights effect answer)
        (next answer) post

namespace Covers

variable {coordinator : Coordinator} {rights : Rights} {timed : Bool} {permit : Permit}
variable {α β : Type}

theorem mono {program : Program effects α} {post weaker : α → Permit → Prop}
    (h : Covers coordinator rights timed permit program post)
    (hpost : ∀ result later, post result later → weaker result later) :
    Covers coordinator rights timed permit program weaker := by
  induction program generalizing permit with
  | done result => exact hpost result permit h
  | ask effect next ih => exact ⟨h.1, fun answer => ih answer (h.2 answer)⟩
  | overflow => trivial

theorem bind {program : Program effects α} {f : α → Program effects β}
    {post : β → Permit → Prop}
    (h : Covers coordinator rights timed permit program fun result later =>
      Covers coordinator rights timed later (f result) post) :
    Covers coordinator rights timed permit (program.bind f) post := by
  induction program generalizing permit with
  | done result => exact h
  | ask effect next ih => exact ⟨h.1, fun answer => ih answer (h.2 answer)⟩
  | overflow => trivial

theorem allows_timed {effect : Effect} (h : permit.Allows coordinator false effect) :
    permit.Allows coordinator timed effect := by
  cases effect with
  | «until» moment effect => cases h.1
  | _ => exact h

/-- What is done without giving up is allowed to those who may give up, too. -/
theorem of_untimed {program : Program effects α} {post : α → Permit → Prop}
    (h : Covers coordinator rights false permit program post) :
    Covers coordinator rights timed permit program post := by
  induction program generalizing permit with
  | done result => exact h
  | ask effect next ih => exact ⟨allows_timed h.1, fun answer => ih answer (h.2 answer)⟩
  | overflow => trivial

/-- A program that is given up at a moment releases the lock. -/
theorem within {program : Program effects α} {moment : Nat} {held : Bool}
    {post : α → Permit → Prop} {given : Option α → Permit → Prop}
    (hheld : permit.held = held)
    (h : Covers coordinator rights false permit program post)
    (hpost : ∀ result later, post result later → given (some result) later)
    (hgiven : ∀ later : Permit, later.held = false → given none later) :
    Covers coordinator rights true permit (Work.within moment held program) given := by
  induction program generalizing permit held with
  | done result => exact hpost result permit h
  | ask effect next ih =>
    rw [Runs.within_ask]
    refine ⟨⟨rfl, h.1⟩, fun answer => ?_⟩
    match answer with
    | some answer =>
      have hnext : (permit.next coordinator rights effect answer).held
          = Effect.holdsAfter held effect := hheld ▸ Permit.held_next h.1 answer
      exact ih answer hnext (h.2 answer)
    | none =>
      -- the program is given up, and the lock with it
      cases held with
      | true => exact ⟨hheld, fun _ => hgiven permit.released rfl⟩
      | false => exact hgiven permit hheld
  | overflow => trivial

end Covers

/-! ## Operations -/

/-- The permit allows all that the operation ever asks for. The lock is as it was in any case, and
where the operation succeeds, its result and the permit are as is said. -/
def Keeps (coordinator : Coordinator) (rights : Rights) (permit : Permit) {α : Type}
    (work : Work α) (post : α → Permit → Prop) : Prop :=
  Covers coordinator rights false permit work.run fun outcome later =>
    later.held = permit.held ∧ ∀ result, outcome = .ok result → post result later

namespace Keeps

variable {coordinator : Coordinator} {rights : Rights} {permit : Permit}
variable {α β : Type} {work : Work α} {post : α → Permit → Prop}

theorem mono {weaker : α → Permit → Prop} (h : Keeps coordinator rights permit work post)
    (hpost : ∀ result later, later.held = permit.held → post result later →
      weaker result later) :
    Keeps coordinator rights permit work weaker :=
  Covers.mono h fun _ _ hend =>
    ⟨hend.1, fun result hresult => hpost result _ hend.1 (hend.2 result hresult)⟩

theorem pure {result : α} (h : post result permit) :
    Keeps coordinator rights permit (Pure.pure result) post := by
  refine ⟨rfl, ?_⟩
  rintro other ⟨⟩
  exact h

theorem fail (error : Error) : Keeps coordinator rights permit (.fail error) post :=
  ⟨rfl, nofun⟩

theorem ofOutcome {outcome : Outcome α} (h : ∀ result, outcome = .ok result → post result permit) :
    Keeps coordinator rights permit (.ofOutcome outcome) post :=
  ⟨rfl, h⟩

theorem bind {f : α → Work β} {post : β → Permit → Prop}
    (h : Keeps coordinator rights permit work fun result later =>
      later.held = permit.held → Keeps coordinator rights later (f result) post) :
    Keeps coordinator rights permit (work >>= f) post := by
  refine Covers.bind (Covers.mono h fun outcome later hend => ?_)
  obtain ⟨hheld, hnext⟩ := hend
  cases outcome with
  | ok result =>
    have hrest := hnext result rfl hheld
    exact Covers.mono hrest fun _ _ hend => ⟨hend.1.trans hheld, hend.2⟩
  | error error => exact ⟨hheld, nofun⟩

/-- What follows an operation may rely on what is said of its result. -/
theorem andThen {f : α → Work β} {final : β → Permit → Prop}
    (h : Keeps coordinator rights permit work post)
    (hf : ∀ result later, later.held = permit.held → post result later →
      Keeps coordinator rights later (f result) final) :
    Keeps coordinator rights permit (work >>= f) final := by
  refine Keeps.bind (Keeps.mono h fun result later hheld hpost => ?_)
  exact fun _ => hf result later hheld hpost

/-- An operation that asks once and then ends. -/
theorem call {effect : Effect} {outcome : effect.Answer → Outcome α}
    (hallows : permit.Allows coordinator false effect)
    (hheld : effect.holdsAfter permit.held = permit.held)
    (h : ∀ answer result, outcome answer = .ok result →
      post result (permit.next coordinator rights effect answer)) :
    Keeps coordinator rights permit (.call (σ := effects) effect outcome) post :=
  ⟨hallows, fun answer => ⟨(Permit.held_next hallows answer).trans hheld, h answer⟩⟩

theorem tell {effect : Effect} {value : effect.Answer → α}
    (hallows : permit.Allows coordinator false effect)
    (hheld : effect.holdsAfter permit.held = permit.held)
    (h : ∀ answer, post (value answer) (permit.next coordinator rights effect answer)) :
    Keeps coordinator rights permit (.tell (σ := effects) effect value) post := by
  refine ⟨hallows, fun answer => ⟨(Permit.held_next hallows answer).trans hheld, ?_⟩⟩
  rintro result ⟨⟩
  exact h answer

theorem attempt (h : Keeps coordinator rights permit work fun _ _ => True) :
    Keeps coordinator rights permit work.attempt fun _ _ => True :=
  Covers.bind (Covers.mono h fun _ _ hend => ⟨hend.1, fun _ _ => trivial⟩)

/-- Within the lock a permit can grow; what may be put into secrets is forgotten at its end. -/
theorem locked (hfree : permit.held = false)
    (h : Keeps coordinator rights permit.locked work fun result later =>
      post result later.released) :
    Keeps coordinator rights permit (Work.locked work) post := by
  refine ⟨hfree, fun _ => Covers.bind (Covers.mono h fun outcome later hend => ?_)⟩
  obtain ⟨hheld, hpost⟩ := hend
  exact ⟨hheld, fun _ => ⟨hfree.symm, hpost⟩⟩

end Keeps

end EngineCatalog
