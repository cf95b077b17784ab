import EngineCatalog.Effect

/-!
# Programs along their answers

What a program does next depends on nothing but the answers so far. `Program.Follows` says how far
it has come with some of them, and `Operation.Returns` that an operation has returned with success.
The rules for both are inversions: an exchange that brought an operation to its end falls into those
of its parts.
-/

namespace EngineCatalog

/-- A request with its answer. -/
structure Exchange (σ : Signature) where
  /-- the request -/
  request : σ.Request
  /-- its answer -/
  answer : σ.Answer request

/-! ## Programs -/

/-- With these answers, the program has come so far. -/
inductive Program.Follows {σ : Signature} {α : Type} :
    Program σ α → List (Exchange σ) → Program σ α → Prop where
  /-- it has not been answered -/
  | refl (program : Program σ α) : Follows program [] program
  /-- it is answered, and goes on -/
  | ask (request : σ.Request) (answer : σ.Answer request) {next : σ.Answer request → Program σ α}
    {more : List (Exchange σ)} {later : Program σ α} (h : Follows (next answer) more later) :
    Follows (.ask request next) (⟨request, answer⟩ :: more) later

namespace Program.Follows

variable {σ : Signature} {α β : Type} {program later : Program σ α} {f : α → Program σ β}
  {exchanges : List (Exchange σ)}

/-- A program that has come to a request is answered once more. -/
theorem concat {request : σ.Request} {next : σ.Answer request → Program σ α}
    (h : Follows program exchanges (.ask request next)) (answer : σ.Answer request) :
    Follows program (exchanges ++ [⟨request, answer⟩]) (next answer) := by
  generalize hlater : Program.ask request next = later at h
  induction h with
  | refl program =>
    subst hlater
    exact .ask request answer (.refl _)
  | ask first given _ ih => exact .ask first given (ih hlater)

/-- A program that is done is not answered any more. -/
theorem of_done {result final : α} (h : Follows (.done result : Program σ α) exchanges
    (.done final)) : exchanges = [] ∧ result = final := by
  cases h
  exact ⟨rfl, rfl⟩

/-- A program that asks is done only after it was answered. -/
theorem of_ask {request : σ.Request} {next : σ.Answer request → Program σ α} {final : α}
    (h : Follows (.ask request next) exchanges (.done final)) :
    ∃ answer more, exchanges = ⟨request, answer⟩ :: more ∧
      Follows (next answer) more (.done final) := by
  cases h with
  | ask _ answer h => exact ⟨answer, _, rfl, h⟩

/-- Two programs one after the other are done one after the other. -/
theorem of_bind {final : β} (h : Follows (program.bind f) exchanges (.done final)) :
    ∃ front back result, exchanges = front ++ back ∧ Follows program front (.done result) ∧
      Follows (f result) back (.done final) := by
  induction program generalizing exchanges with
  | done result => exact ⟨[], exchanges, result, rfl, .refl _, h⟩
  | ask request next ih =>
    obtain ⟨answer, more, rfl, hmore⟩ := of_ask h
    obtain ⟨front, back, result, rfl, hfront, hback⟩ := ih answer hmore
    exact ⟨⟨request, answer⟩ :: front, back, result, rfl, .ask request answer hfront, hback⟩
  | overflow => cases h

end Program.Follows

/-! ## Operations -/

/-- With these answers, the operation returned this result. -/
def Operation.Returns {σ : Signature} {α : Type} (operation : Operation σ α)
    (exchanges : List (Exchange σ)) (result : α) : Prop :=
  Program.Follows operation.run exchanges (.done (.ok result))

namespace Operation.Returns

variable {σ : Signature} {α β : Type} {exchanges : List (Exchange σ)}

theorem of_pure {result final : α}
    (h : Returns (Pure.pure result : Operation σ α) exchanges final) :
    exchanges = [] ∧ result = final := by
  obtain ⟨hnone, hresult⟩ := Program.Follows.of_done h
  exact ⟨hnone, Except.ok.inj hresult⟩

theorem of_ofOutcome {outcome : Outcome α} {final : α}
    (h : Returns (.ofOutcome outcome : Operation σ α) exchanges final) :
    exchanges = [] ∧ outcome = .ok final :=
  Program.Follows.of_done h

theorem of_call {request : σ.Request} {outcome : σ.Answer request → Outcome α} {final : α}
    (h : Returns (.call request outcome) exchanges final) :
    ∃ answer, exchanges = [⟨request, answer⟩] ∧ outcome answer = .ok final := by
  obtain ⟨answer, more, rfl, hmore⟩ := Program.Follows.of_ask h
  obtain ⟨rfl, hresult⟩ := Program.Follows.of_done hmore
  exact ⟨answer, rfl, hresult⟩

theorem of_bind {operation : Operation σ α} {f : α → Operation σ β} {final : β}
    (h : Returns (operation >>= f) exchanges final) :
    ∃ front back result, exchanges = front ++ back ∧ Returns operation front result ∧
      Returns (f result) back final := by
  obtain ⟨front, back, outcome, rfl, hfront, hback⟩ := Program.Follows.of_bind h
  cases outcome with
  | ok result => exact ⟨front, back, result, rfl, hfront, hback⟩
  | error error =>
    -- an operation that fails ends what it stands in
    obtain ⟨-, hfinal⟩ := Program.Follows.of_done hback
    cases hfinal

/-- The exchanges of an operation with the lock held lie between its taking and its release. -/
theorem of_locked {operation : Work α} {exchanges : List (Exchange effects)} {final : α}
    (h : Returns (Work.locked operation) exchanges final) :
    ∃ inner, exchanges = ⟨Effect.lock, ()⟩ :: (inner ++ [⟨Effect.unlock, ()⟩]) ∧
      Returns operation inner final := by
  obtain ⟨⟨⟩, more, rfl, hmore⟩ := Program.Follows.of_ask h
  obtain ⟨inner, back, outcome, rfl, hinner, hback⟩ := Program.Follows.of_bind hmore
  obtain ⟨⟨⟩, rest, rfl, hrest⟩ := Program.Follows.of_ask hback
  obtain ⟨rfl, rfl⟩ := Program.Follows.of_done hrest
  exact ⟨inner, rfl, hinner⟩

end Operation.Returns

end EngineCatalog
