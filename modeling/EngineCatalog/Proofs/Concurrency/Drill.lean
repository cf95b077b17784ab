import EngineCatalog.Proofs.Concurrency.System

/-!
# Drills

In a drill an operation has everything to itself, and every call is answered at once. Which calls
fail, and how, is planned beforehand; a call that fails leaves everything as it was. The clock moves
on only while the operation sleeps.

* `Drill` — the plan; `Stand` — how things stand; `Drill.answer` — the answer to an effect.
* `Drill.Does` — a program comes to a result without sleeping, and so before any deadline.
* `Drill.Tries` — an operation does the whole of something, or a part of it if one of its calls
  fails. The rules put such operations together.
-/

namespace EngineCatalog

open KeyValue (Store)
open Secret (Vault)

/-- What is planned for a drill. -/
structure Drill where
  /-- the error with which a call fails, if it does, by the number of calls before it -/
  fails : Nat → Option Error
  /-- what is chosen as far as it is within its bound, by the number of choices before it -/
  chosen : Nat → Nat

/-- How things stand in a drill. -/
structure Stand where
  /-- both stores, the lock, the removals and the audit records -/
  shared : Shared
  /-- the moment -/
  clock : Nat
  /-- how many calls there were -/
  calls : Nat
  /-- how many choices there were -/
  choices : Nat

/-- How things stand after one more call. -/
def Stand.called (stand : Stand) (shared : Shared) : Stand :=
  { stand with shared := shared, calls := stand.calls + 1 }

namespace Drill

/-! ## Answers -/

/-- Starts a removal, which is carried out at once. -/
def started (shared : Shared) (secret : String) (keys : Names) : Shared :=
  let (removal, vault) := shared.vault.finish secret keys
  { shared with vault := vault, started := shared.started ++ [⟨secret, keys, some removal⟩] }

/-- The answer to an effect, and how things stand after it. -/
def answer (drill : Drill) : (effect : Effect) → Stand → effect.Answer × Stand
  | .store call, stand =>
    match drill.fails stand.calls with
    | some error => (call.failure error, stand.called stand.shared)
    | none =>
      let (answer, store) := stand.shared.store.answer call
      (answer, stand.called { stand.shared with store := store })
  | .secrets call, stand =>
    match drill.fails stand.calls with
    | some error => (call.failure error, stand.called stand.shared)
    | none =>
      let (answer, vault) := stand.shared.vault.answer call
      (answer, stand.called { stand.shared with vault := vault })
  | .startRemoval secret keys, stand =>
    match drill.fails stand.calls with
    | some error => (.error error, stand.called stand.shared)
    | none => (.ok stand.shared.started.length, stand.called (started stand.shared secret keys))
  | .awaitRemovals tickets _, stand => (stand.shared.removalsOf tickets, stand)
  | .lock, stand => ((), { stand with shared := { stand.shared with holder := some 0 } })
  | .unlock, stand => ((), { stand with shared := { stand.shared with holder := none } })
  | .record record, stand =>
    ((), { stand with shared := { stand.shared with records := stand.shared.records ++ [record] } })
  | .now, stand => (stand.clock, stand)
  | .sleep millis, stand => ((), { stand with clock := stand.clock + millis })
  | .choose bound, stand =>
    (min (drill.chosen stand.choices) bound, { stand with choices := stand.choices + 1 })
  | .until moment effect, stand =>
    let (answer, after) := Drill.answer drill effect stand
    if after.clock ≤ moment then (some answer, after)
    else (none, { stand with clock := max stand.clock moment })

/-- The operation ends with an outcome. -/
def Ends (drill : Drill) {α : Type} (before : Stand) (work : Work α) (outcome : Outcome α)
    (after : Stand) : Prop :=
  Program.run (σ := effects) drill.answer work.run before = some (outcome, after)

/-- None of the calls from one number up to another fails. -/
def Spares (drill : Drill) (first last : Nat) : Prop :=
  ∀ n, first ≤ n → n < last → drill.fails n = none

/-- One of these calls fails with the error. -/
def Hits (drill : Drill) (first last : Nat) (error : Error) : Prop :=
  ∃ n, first ≤ n ∧ n < last ∧ drill.fails n = some error

variable {drill : Drill} {α β : Type} {s t u : Stand}

theorem spares_self (drill : Drill) (calls : Nat) : drill.Spares calls calls :=
  fun _ hfirst hlast => absurd hlast (Nat.not_lt.mpr hfirst)

theorem Hits.not_spares {first last : Nat} {error : Error} (h : drill.Hits first last error) :
    ¬ drill.Spares first last := by
  intro hspares
  obtain ⟨n, hfirst, hlast, hfails⟩ := h
  rw [hspares n hfirst hlast] at hfails
  cases hfails

/-! ## Programs that do not sleep -/

/-- The program comes to a result, and the clock does not move meanwhile. -/
inductive Does (drill : Drill) {α : Type} : Program effects α → Stand → α → Stand → Prop where
  /-- it is done -/
  | done (result : α) (stand : Stand) : Does drill (.done result) stand result stand
  /-- it is answered at once, and goes on -/
  | ask {effect : Effect} {next : effect.Answer → Program effects α} {before after : Stand}
    {result : α} (hclock : (drill.answer effect before).2.clock = before.clock)
    (h : Does drill (next (drill.answer effect before).1) (drill.answer effect before).2
      result after) :
    Does drill (.ask (σ := effects) effect next) before result after

namespace Does

variable {p : Program effects α} {result : α}

theorem run (h : drill.Does p s result t) :
    Program.run (σ := effects) drill.answer p s = some (result, t) := by
  induction h with
  | done => rfl
  | ask _ _ ih => exact ih

theorem bind {f : α → Program effects β} {final : β} (h : drill.Does p s result t)
    (hf : drill.Does (f result) t final u) : drill.Does (p.bind f) s final u := by
  induction h with
  | done => exact hf
  | ask hclock _ ih => exact .ask hclock (ih hf)

/-- A program that does not sleep comes to its result before any deadline that is not over. -/
theorem within (h : drill.Does p s result t) {moment : Nat} (held : Bool)
    (hmoment : s.clock ≤ moment) :
    Program.run (σ := effects) drill.answer (Work.within moment held p) s
      = some (some result, t) := by
  induction h generalizing held with
  | done =>
    rw [Work.within.eq_def]
    rfl
  | @ask effect next before after result hclock h ih =>
    have hanswer : drill.answer (.until moment effect) before
        = (some (drill.answer effect before).1, (drill.answer effect before).2) := by
      rw [answer]
      exact if_pos (hclock.symm ▸ hmoment)
    rw [Runs.within_ask, Program.run, hanswer]
    exact ih (effect.holdsAfter held) (hclock.symm ▸ hmoment)

end Does

/-! ## Operations whose calls may fail -/

/-- Where things are shared as they were before, the operation gives back the result and they are as
they are to be after; or one of its calls fails, it fails with the same error, and what it has done
till then is a part. -/
def Tries (drill : Drill) (before : Shared) (work : Work α) (result : α) (after : Shared)
    (part : Shared → Prop) : Prop :=
  ∀ s : Stand, s.shared = before → ∃ outcome t, drill.Does work.run s outcome t ∧
    s.calls ≤ t.calls ∧
      (outcome = .ok result ∧ drill.Spares s.calls t.calls ∧ t.shared = after ∨
        ∃ error, outcome = .error error ∧ drill.Hits s.calls t.calls error ∧ part t.shared)

namespace Tries

variable {a b c : Shared} {work : Work α} {result : α} {part other : Shared → Prop}

theorem mono (h : drill.Tries a work result b part) (hpart : ∀ x, part x → other x) :
    drill.Tries a work result b other := by
  intro s hs
  obtain ⟨outcome, t, hdoes, hcalls, hdone | ⟨error, houtcome, hhits, hsome⟩⟩ := h s hs
  · exact ⟨outcome, t, hdoes, hcalls, .inl hdone⟩
  · exact ⟨outcome, t, hdoes, hcalls, .inr ⟨error, houtcome, hhits, hpart _ hsome⟩⟩

theorem pure (drill : Drill) (result : α) (a : Shared) :
    drill.Tries a (Pure.pure result : Work α) result a fun _ => False :=
  fun s hs => ⟨_, s, .done _ _, Nat.le_refl _, .inl ⟨rfl, drill.spares_self _, hs⟩⟩

/-- What is done first is done in part where the rest fails. -/
theorem bind {work : Work β} {f : β → Work α} {found : β}
    (h : drill.Tries a work found b part) (hf : drill.Tries b (f found) result c other) :
    drill.Tries a (work >>= f) result c fun x => part x ∨ other x := by
  intro s hs
  obtain ⟨first, t, hdoes, hcalls, ⟨rfl, hspares, hb⟩ | ⟨error, rfl, hhits, hpart⟩⟩ := h s hs
  · obtain ⟨outcome, u, hrest, hmore, hcases⟩ := hf t hb
    refine ⟨outcome, u, hdoes.bind hrest, Nat.le_trans hcalls hmore, ?_⟩
    rcases hcases with ⟨rfl, hlater, hc⟩ | ⟨error, rfl, ⟨n, hfirst, hlast, hfails⟩, hother⟩
    · refine .inl ⟨rfl, fun n hfirst hlast => ?_, hc⟩
      by_cases hn : n < t.calls
      · exact hspares n hfirst hn
      · exact hlater n (Nat.le_of_not_lt hn) hlast
    · exact .inr ⟨error, rfl, ⟨n, Nat.le_trans hcalls hfirst, hlast, hfails⟩, .inr hother⟩
  · exact ⟨.error error, t, hdoes.bind (.done _ _), hcalls,
      .inr ⟨error, rfl, hhits, .inl hpart⟩⟩

/-- A call does what it does, or it fails and does nothing. -/
theorem of_answer {effect : Effect} {use : effect.Answer → Outcome α} (answered : effect.Answer)
    (failed : Error → effect.Answer)
    (hspared : ∀ s : Stand, s.shared = a → drill.fails s.calls = none →
      drill.answer effect s = (answered, s.called b))
    (hhit : ∀ (s : Stand) error, s.shared = a → drill.fails s.calls = some error →
      drill.answer effect s = (failed error, s.called a))
    (hdone : use answered = .ok result) (hfailed : ∀ error, use (failed error) = .error error) :
    drill.Tries a (.call (σ := effects) effect use) result b fun x => x = a := by
  intro s hs
  have hdoes : ∀ {answer : effect.Answer} {shared : Shared},
      drill.answer effect s = (answer, s.called shared) →
      drill.Does (Operation.call (σ := effects) effect use).run s (use answer)
        (s.called shared) := by
    intro answer shared hanswer
    have hask : drill.Does (.ask (σ := effects) effect fun answer => .done (use answer)) s
        (use (drill.answer effect s).1) (drill.answer effect s).2 :=
      .ask (by rw [hanswer]; rfl) (.done _ _)
    rwa [hanswer] at hask
  have hcalls : s.calls ≤ (s.called b).calls := Nat.le_succ _
  cases hfails : drill.fails s.calls with
  | none =>
    refine ⟨_, _, hdoes (hspared s hs hfails), hcalls, .inl ⟨hdone, fun n hfirst hlast => ?_, rfl⟩⟩
    obtain rfl : n = s.calls := Nat.le_antisymm (Nat.lt_succ_iff.mp hlast) hfirst
    exact hfails
  | some error =>
    exact ⟨_, _, hdoes (hhit s error hs hfails), hcalls, .inr ⟨error, hfailed error,
      ⟨s.calls, Nat.le_refl _, Nat.lt_succ_self _, hfails⟩, rfl⟩⟩

theorem store {call : KeyValue.Call} {use : call.Answer → Outcome α} {answered : call.Answer}
    {store : Store} (hanswer : a.store.answer call = (answered, store))
    (hdone : use answered = .ok result)
    (hfailed : ∀ error, use (call.failure error) = .error error) :
    drill.Tries a (.call (σ := effects) (Effect.store call) use) result
      { a with store := store } fun x => x = a := by
  refine of_answer answered call.failure ?_ ?_ hdone hfailed
  · rintro s rfl hfails
    rw [answer, hfails]
    exact congrArg (fun found => (found.1, s.called { s.shared with store := found.2 })) hanswer
  · rintro s error rfl hfails
    rw [answer, hfails]

theorem secrets {call : Secret.Call} {use : call.Answer → Outcome α} {answered : call.Answer}
    {vault : Vault} (hanswer : a.vault.answer call = (answered, vault))
    (hdone : use answered = .ok result)
    (hfailed : ∀ error, use (call.failure error) = .error error) :
    drill.Tries a (Work.secrets call use) result { a with vault := vault } fun x => x = a := by
  refine of_answer answered call.failure ?_ ?_ hdone hfailed
  · rintro s rfl hfails
    rw [answer, hfails]
    exact congrArg (fun found => (found.1, s.called { s.shared with vault := found.2 })) hanswer
  · rintro s error rfl hfails
    rw [answer, hfails]

theorem record (drill : Drill) (record : Audit.Record) (a : Shared) :
    drill.Tries a (Work.record record) () { a with records := a.records ++ [record] }
      fun _ => False := by
  rintro s rfl
  exact ⟨_, _, .ask rfl (.done _ _), Nat.le_refl _, .inl ⟨rfl, drill.spares_self _, rfl⟩⟩

/-- The lock is free again in the end, whatever was done with it held. -/
theorem locked (h : drill.Tries { a with holder := some 0 } work result b part) :
    drill.Tries a (Work.locked work) result { b with holder := none }
      fun x => ∃ y, part y ∧ x = { y with holder := none } := by
  rintro s rfl
  obtain ⟨outcome, t, hdoes, hcalls, hcases⟩ :=
    h { s with shared := { s.shared with holder := some 0 } } rfl
  refine ⟨outcome, { t with shared := { t.shared with holder := none } },
    .ask rfl (hdoes.bind (.ask rfl (.done _ _))), hcalls, ?_⟩
  rcases hcases with ⟨houtcome, hspares, rfl⟩ | ⟨error, houtcome, hhits, hpart⟩
  · exact .inl ⟨houtcome, hspares, rfl⟩
  · exact .inr ⟨error, houtcome, hhits, t.shared, hpart, rfl⟩

end Tries

end Drill

end EngineCatalog
