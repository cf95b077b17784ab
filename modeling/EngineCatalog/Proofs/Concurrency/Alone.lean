import EngineCatalog.Proofs.Concurrency.System

/-!
# A job with everything to itself

Where there is one job only, the order of things is that of its program. Two things are left open.
Calls may fail, if they are faulty; and something may come of removals that were started, at any
moment before an answer, if removals come at all.

* `AnswersAlone` — what may be answered then. Unlike beside others, a read may fail with any error,
  and a wait for removals lasts until something has come of all of them.
* `Alone` — how the program goes on; `Performs` — how an operation comes to its outcome. The rules
  are inversions, one for each way of putting operations together.
* `Shared.Settled` — something has come of all removals, so that nothing is left to come.
-/

namespace EngineCatalog

open Secret (Removal Vault)

/-! ## What may happen -/

/-- What may be answered to the only job, and what is shared then. -/
def AnswersAlone (faulty : Bool) : (effect : Effect) → Shared → effect.Answer → Shared → Prop
  | .store call, before, answer, after =>
    (answer = (before.store.answer call).1 ∧
        after = { before with store := (before.store.answer call).2 })
      ∨ (faulty = true ∧ after = before ∧ ∃ error, answer = call.failure error)
  | .awaitRemovals tickets _, before, answer, after =>
    after = before ∧ answer = before.removalsOf tickets ∧
      ∀ removal ∈ before.removalsOf tickets, removal.isSome = true
  | effect, before, answer, after => Answers faulty 0 effect before answer after

/-- Something comes of a removal that was started. -/
def Shared.Advances (faulty : Bool) (before after : Shared) : Prop :=
  ∃ ticket started removal vault, before.started[ticket]? = some started ∧
    started.removal = none ∧ Comes faulty started before.vault removal vault ∧
    after = before.settle ticket started removal vault

/-- What may happen between two answers: removals come, if they do at all. -/
def Meanwhile (faulty coming : Bool) : Shared → Shared → Prop :=
  Relation.ReflTransGen fun before after => coming = true ∧ before.Advances faulty after

/-- Something has come of all removals that were started. -/
def Shared.Settled (shared : Shared) : Prop :=
  ∀ started ∈ shared.started, started.removal.isSome = true

/-- Nothing is stored, and nobody holds the lock. -/
def Shared.fresh : Shared :=
  ⟨KeyValue.Store.fresh KeyValue.Store.usualLimit, Vault.empty, none, [], []⟩

/-- Nothing is left to come. -/
def Quiet (coming : Bool) (shared : Shared) : Prop :=
  coming = true → shared.Settled

theorem Shared.Settled.not_advances {faulty : Bool} {before after : Shared}
    (h : before.Settled) : ¬ before.Advances faulty after := by
  rintro ⟨ticket, started, removal, vault, hstarted, hpending, -, -⟩
  have hsome := h started (List.mem_of_getElem? hstarted)
  rw [hpending] at hsome
  cases hsome

/-- Where nothing is left to come, nothing happens in between. -/
theorem Meanwhile.eq_of_quiet {faulty coming : Bool} {before after : Shared}
    (h : Meanwhile faulty coming before after) (hquiet : Quiet coming before) : after = before := by
  rcases Relation.ReflTransGen.cases_head h with heq | ⟨between, ⟨hcoming, hadvances⟩, -⟩
  · exact heq.symm
  · exact absurd hadvances (hquiet hcoming).not_advances

/-! ## Programs -/

/-- The program of the only job goes on. -/
inductive Alone (faulty coming : Bool) {α : Type} :
    Program effects α → Shared → Program effects α → Shared → Prop where
  /-- so far it has not gone on -/
  | refl (program : Program effects α) (shared : Shared) :
    Alone faulty coming program shared program shared
  /-- it is answered, and goes on -/
  | step (effect : Effect) (answer : effect.Answer)
    {next : effect.Answer → Program effects α} {program : Program effects α}
    {before between answered after : Shared}
    (hmeanwhile : Meanwhile faulty coming before between)
    (hanswers : AnswersAlone faulty effect between answer answered)
    (halone : Alone faulty coming (next answer) answered program after) :
    Alone faulty coming (.ask (σ := effects) effect next) before program after

namespace Alone

variable {faulty coming : Bool} {α β : Type} {p q r : Program effects α} {s t u : Shared}

theorem trans (hpq : Alone faulty coming p s q t) (hqr : Alone faulty coming q t r u) :
    Alone faulty coming p s r u := by
  induction hpq with
  | refl => exact hqr
  | step effect answer hmeanwhile hanswers _ ih =>
    exact .step effect answer hmeanwhile hanswers (ih hqr)

/-- What a program does, it does with whatever follows it. -/
theorem bind (h : Alone faulty coming p s q t) (f : α → Program effects β) :
    Alone faulty coming (p.bind f) s (q.bind f) t := by
  induction h with
  | refl => exact .refl _ _
  | step effect answer hmeanwhile hanswers _ ih =>
    exact .step effect answer hmeanwhile hanswers ih

/-- A program that is done does not go on. -/
theorem of_done {result final : α}
    (h : Alone faulty coming (.done result : Program effects α) s (.done final) t) :
    result = final ∧ t = s := by
  cases h
  exact ⟨rfl, rfl⟩

/-- A program that asks is done only after it was answered. -/
theorem of_ask {effect : Effect} {next : effect.Answer → Program effects α} {final : α}
    (h : Alone faulty coming (.ask (σ := effects) effect next) s (.done final) u) :
    ∃ between answer answered, Meanwhile faulty coming s between ∧
      AnswersAlone faulty effect between answer answered ∧
      Alone faulty coming (next answer) answered (.done final) u := by
  cases h with
  | step _ answer hmeanwhile hanswers hmore => exact ⟨_, answer, _, hmeanwhile, hanswers, hmore⟩

/-- Two programs one after the other are done one after the other. -/
theorem of_bind {f : α → Program effects β} {final : β}
    (h : Alone faulty coming (p.bind f) s (.done final) u) :
    ∃ result between, Alone faulty coming p s (.done result) between ∧
      Alone faulty coming (f result) between (.done final) u := by
  induction p generalizing s with
  | done result => exact ⟨result, s, .refl _ _, h⟩
  | ask effect next ih =>
    obtain ⟨between, answer, answered, hmeanwhile, hanswers, hmore⟩ := of_ask h
    obtain ⟨result, later, hfirst, hsecond⟩ := ih answer hmore
    exact ⟨result, later, .step effect answer hmeanwhile hanswers hfirst, hsecond⟩
  | overflow => cases h

end Alone

/-! ## Operations -/

/-- The operation of the only job comes to an outcome. -/
def Performs (faulty coming : Bool) {α : Type} (before : Shared) (work : Work α)
    (outcome : Outcome α) (after : Shared) : Prop :=
  Alone faulty coming work.run before (.done outcome) after

namespace Performs

variable {faulty coming : Bool} {α β : Type} {s t u : Shared} {outcome : Outcome α}

theorem of_pure {result : α} (h : Performs faulty coming s (Pure.pure result) outcome t) :
    outcome = .ok result ∧ t = s := by
  obtain ⟨hresult, hsame⟩ := Alone.of_done h
  exact ⟨hresult.symm, hsame⟩

theorem of_fail {error : Error} (h : Performs faulty coming s (.fail error) outcome t) :
    outcome = .error error ∧ t = s := by
  obtain ⟨herror, hsame⟩ := Alone.of_done h
  exact ⟨herror.symm, hsame⟩

theorem of_ofOutcome {given : Outcome α}
    (h : Performs faulty coming s (.ofOutcome given) outcome t) : outcome = given ∧ t = s := by
  obtain ⟨hgiven, hsame⟩ := Alone.of_done h
  exact ⟨hgiven.symm, hsame⟩

/-- An operation that fails ends what it stands in; otherwise the rest goes on with its result. -/
theorem of_bind {work : Work β} {f : β → Work α}
    (h : Performs faulty coming s (work >>= f) outcome u) :
    (∃ error, Performs faulty coming s work (.error error) u ∧ outcome = .error error) ∨
      ∃ result between, Performs faulty coming s work (.ok result) between ∧
        Performs faulty coming between (f result) outcome u := by
  obtain ⟨first, between, hfirst, hrest⟩ := Alone.of_bind h
  cases first with
  | ok result => exact .inr ⟨result, between, hfirst, hrest⟩
  | error error =>
    obtain ⟨hsame, rfl⟩ := Alone.of_done hrest
    exact .inl ⟨error, hfirst, hsame.symm⟩

theorem of_map {work : Work β} {f : β → α}
    (h : Performs faulty coming s (f <$> work) outcome t) :
    ∃ given, Performs faulty coming s work given t ∧ outcome = given.map f := by
  rw [← bind_pure_comp] at h
  rcases of_bind h with ⟨error, hwork, rfl⟩ | ⟨result, between, hwork, hrest⟩
  · exact ⟨.error error, hwork, rfl⟩
  · obtain ⟨rfl, rfl⟩ := of_pure hrest
    exact ⟨.ok result, hwork, rfl⟩

theorem of_call {effect : Effect} {use : effect.Answer → Outcome α}
    (h : Performs faulty coming s (.call (σ := effects) effect use) outcome t) :
    ∃ between answer, Meanwhile faulty coming s between ∧
      AnswersAlone faulty effect between answer t ∧ outcome = use answer := by
  obtain ⟨between, answer, answered, hmeanwhile, hanswers, hmore⟩ := Alone.of_ask h
  obtain ⟨houtcome, rfl⟩ := Alone.of_done hmore
  exact ⟨between, answer, hmeanwhile, hanswers, houtcome.symm⟩

theorem of_tell {effect : Effect} {value : effect.Answer → α}
    (h : Performs faulty coming s (.tell (σ := effects) effect value) outcome t) :
    ∃ between answer, Meanwhile faulty coming s between ∧
      AnswersAlone faulty effect between answer t ∧ outcome = .ok (value answer) := by
  obtain ⟨between, answer, answered, hmeanwhile, hanswers, hmore⟩ := Alone.of_ask h
  obtain ⟨houtcome, rfl⟩ := Alone.of_done hmore
  exact ⟨between, answer, hmeanwhile, hanswers, houtcome.symm⟩

/-- The lock is taken when it is free, and free again in the end. -/
theorem of_locked {work : Work α} (h : Performs faulty coming s (Work.locked work) outcome u) :
    ∃ between inner last, Meanwhile faulty coming s between ∧ between.holder = none ∧
      Performs faulty coming { between with holder := some 0 } work outcome inner ∧
      Meanwhile faulty coming inner last ∧ u = { last with holder := none } := by
  obtain ⟨between, ⟨⟩, held, hmeanwhile, ⟨hfree, rfl⟩, hmore⟩ := Alone.of_ask h
  obtain ⟨given, inner, hwork, hmore⟩ := Alone.of_bind hmore
  obtain ⟨last, ⟨⟩, released, hlast, rfl, hmore⟩ := Alone.of_ask hmore
  obtain ⟨rfl, rfl⟩ := Alone.of_done hmore
  exact ⟨between, inner, last, hmeanwhile, hfree, hwork, hlast, rfl⟩

end Performs

end EngineCatalog
