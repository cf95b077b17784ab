import EngineCatalog.Error

/-!
# Programs over requests

An operation of the catalog is a value that says what it asks for and how it goes on with each
answer. What answers it is no part of it: the same program can be run over a store in memory, over
recorded answers, or step by step beside other programs.

* `Signature` — the requests a program can make, each with the type of its answers.
* `Program` — a program: it is done, or it asks, or it stops at a sum that no 64-bit word holds.
* `Program.lift` — a program over one signature as one over another.
* `Operation` — a program that ends in an outcome; the first error ends it.
-/

namespace EngineCatalog

/-- The requests a program can make. -/
structure Signature where
  /-- the requests -/
  Request : Type
  /-- the answers to a request -/
  Answer : Request → Type

/-- A program that makes requests and ends in a result. -/
inductive Program (σ : Signature) (α : Type) : Type where
  /-- the program is done -/
  | done (result : α)
  /-- the program asks and goes on with the answer -/
  | ask (request : σ.Request) (next : σ.Answer request → Program σ α)
  /-- the program stops, as a sum is too large for a 64-bit word -/
  | overflow

namespace Program

variable {σ τ : Signature} {α β : Type}

/-- The program followed by another one that depends on its result. -/
protected def bind : Program σ α → (α → Program σ β) → Program σ β
  | done result, f => f result
  | ask request next, f => ask request fun answer => (next answer).bind f
  | overflow, _ => overflow

instance : Monad (Program σ) where
  pure := done
  bind := Program.bind

/-- Asks for an answer. -/
def request (r : σ.Request) : Program σ (σ.Answer r) :=
  ask r done

/-- A program as one over another signature, given what its requests are there. -/
def lift (inject : σ.Request → τ.Request)
    (answer : (r : σ.Request) → τ.Answer (inject r) → σ.Answer r) : Program σ α → Program τ α
  | done result => done result
  | ask r next => ask (inject r) fun a => lift inject answer (next (answer r a))
  | overflow => overflow

/-- Runs a program over a state that answers every request; none if it stops at an overflow. -/
def run {state : Type} (handle : (r : σ.Request) → state → σ.Answer r × state) :
    Program σ α → state → Option (α × state)
  | done result, s => some (result, s)
  | ask r next, s => run handle (next (handle r s).1) (handle r s).2
  | overflow, _ => none

theorem bind_done (result : α) (f : α → Program σ β) : (done result).bind f = f result := rfl

theorem bind_ask (r : σ.Request) (next : σ.Answer r → Program σ α) (f : α → Program σ β) :
    (ask r next).bind f = ask r fun answer => (next answer).bind f := rfl

theorem bind_pure (program : Program σ α) : program.bind done = program := by
  induction program with
  | done => rfl
  | ask r next ih => simp only [Program.bind, ih]
  | overflow => rfl

theorem bind_assoc {γ : Type} (program : Program σ α) (f : α → Program σ β)
    (g : β → Program σ γ) : (program.bind f).bind g = program.bind fun x => (f x).bind g := by
  induction program with
  | done => rfl
  | ask r next ih => simp only [Program.bind, ih]
  | overflow => rfl

/-- Two programs one after the other are run one after the other. -/
theorem run_bind {state : Type} (handle : (r : σ.Request) → state → σ.Answer r × state)
    (program : Program σ α) (f : α → Program σ β) (s : state) :
    (program.bind f).run handle s
      = (program.run handle s).bind fun found => (f found.1).run handle found.2 := by
  induction program generalizing s with
  | done result => rfl
  | ask request next ih => exact ih _ _
  | overflow => rfl

instance : LawfulMonad (Program σ) := LawfulMonad.mk' (Program σ)
  (fun program => bind_pure program)
  (fun _ _ => rfl)
  (fun program f g => bind_assoc program f g)

end Program

/-- A program that ends in an outcome. -/
abbrev Operation (σ : Signature) (α : Type) : Type := ExceptT Error (Program σ) α

namespace Operation

variable {σ τ : Signature} {α β : Type}

/-- Asks for an answer that may be an error. -/
def call (r : σ.Request) (outcome : σ.Answer r → Outcome α) : Operation σ α :=
  ExceptT.mk (Program.ask r fun answer => .done (outcome answer))

/-- Asks for an answer that is none. -/
def tell (r : σ.Request) (value : σ.Answer r → α) : Operation σ α :=
  ExceptT.mk (Program.ask r fun answer => .done (.ok (value answer)))

/-- The operation as one that always succeeds, with its outcome as result. -/
def attempt (operation : Operation σ α) : Operation σ (Outcome α) :=
  ExceptT.mk (Program.bind (ExceptT.run operation) fun outcome => .done (.ok outcome))

/-- Fails with an error. -/
def fail (error : Error) : Operation σ α := ExceptT.mk (.done (.error error))

/-- An outcome as an operation that asks for nothing. -/
def ofOutcome (outcome : Outcome α) : Operation σ α := ExceptT.mk (.done outcome)

/-- Stops, as a sum is too large for a 64-bit word. -/
def overflow : Operation σ α := ExceptT.mk .overflow

end Operation

end EngineCatalog
