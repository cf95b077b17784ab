import EngineCatalog.Proofs.Program.Follows

/-!
# Disciplines

A discipline says what a program may ask for at a state that it is in, and what its state is after an
answer. A program obeys it if, whatever it is answered, it never asks for anything else.

* `Discipline` — what is allowed at a state, and the state after an answer.
* `Program.Obeys` — a program asks for nothing but what is allowed, and where it ends, its result and
  its state are as is said.
-/

namespace EngineCatalog

/-- What may be asked for at a state, and the state after an answer. -/
structure Discipline (σ : Signature) (State : Type) where
  /-- what may be asked for -/
  allows : State → σ.Request → Prop
  /-- the state after an answer -/
  next : State → (request : σ.Request) → σ.Answer request → State

/-- The discipline allows all that the program ever asks for, and where it ends, the result and the
state are as is said. -/
def Program.Obeys {σ : Signature} {State α : Type} (discipline : Discipline σ State) :
    State → Program σ α → (α → State → Prop) → Prop
  | state, .done result, post => post result state
  | _, .overflow, _ => True
  | state, .ask request next, post =>
    discipline.allows state request ∧ ∀ answer : σ.Answer request,
      Obeys discipline (discipline.next state request answer) (next answer) post

namespace Program.Obeys

variable {σ : Signature} {State α β : Type} {discipline : Discipline σ State} {state : State}
  {program : Program σ α} {post : α → State → Prop}

theorem mono {weaker : α → State → Prop} (h : Obeys discipline state program post)
    (hpost : ∀ result later, post result later → weaker result later) :
    Obeys discipline state program weaker := by
  induction program generalizing state with
  | done result => exact hpost result state h
  | ask request next ih => exact ⟨h.1, fun answer => ih answer (h.2 answer)⟩
  | overflow => trivial

theorem bind {f : α → Program σ β} {final : β → State → Prop}
    (h : Obeys discipline state program fun result later =>
      Obeys discipline later (f result) final) :
    Obeys discipline state (program.bind f) final := by
  induction program generalizing state with
  | done result => exact h
  | ask request next ih => exact ⟨h.1, fun answer => ih answer (h.2 answer)⟩
  | overflow => trivial

/-- What obeys a discipline obeys one that allows more. -/
theorem relax {other : Discipline σ State} (h : Obeys discipline state program post)
    (hallows : ∀ state request, discipline.allows state request → other.allows state request)
    (hnext : other.next = discipline.next) : Obeys other state program post := by
  induction program generalizing state with
  | done result => exact h
  | ask request next ih =>
    refine ⟨hallows state request h.1, fun answer => ?_⟩
    rw [hnext]
    exact ih answer (h.2 answer)
  | overflow => trivial

/-- An operation that calls only the key-value store obeys a discipline by which that is always
allowed and changes no state. -/
theorem ofStore {discipline : Discipline effects State} {state : State}
    {post : Outcome α → State → Prop} (operation : Operation KeyValue.keyValue α)
    (hallows : ∀ call, discipline.allows state (.store call))
    (hnext : ∀ call (answer : (Effect.store call).Answer),
      discipline.next state (.store call) answer = state)
    (hpost : ∀ outcome, post outcome state) :
    (Work.ofStore operation).run.Obeys discipline state post := by
  have hlift : ∀ program : Program KeyValue.keyValue (Outcome α),
      (Program.lift (σ := KeyValue.keyValue) (τ := effects) Effect.store (fun _ answer => answer)
        program).Obeys discipline state post := by
    intro program
    induction program with
    | done outcome => exact hpost outcome
    | ask call next ih =>
      refine ⟨hallows call, fun answer => ?_⟩
      rw [hnext call answer]
      exact ih answer
    | overflow => trivial
  exact hlift operation.run

/-- Along its answers, a program asks for nothing but what is allowed. -/
theorem allows_of_mem {later : Program σ α} {exchanges : List (Exchange σ)}
    (h : Obeys discipline state program post) (hfollows : program.Follows exchanges later) :
    ∀ exchange ∈ exchanges, ∃ state, discipline.allows state exchange.request := by
  induction hfollows generalizing state with
  | refl => exact nofun
  | ask request answer _ ih =>
    intro exchange hexchange
    rcases List.mem_cons.mp hexchange with rfl | hexchange
    · exact ⟨state, h.1⟩
    · exact ih (h.2 answer) exchange hexchange

end Program.Obeys

end EngineCatalog
