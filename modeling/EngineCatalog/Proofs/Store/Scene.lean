import EngineCatalog.KeyValue.Waiter
import EngineCatalog.Proofs.Store.QueryIndex

/-!
# One who waits among others

While one waits for a change, others write. Time passes only where nobody can do anything, but at
one moment everything may happen in any order: writes fall before the first look, between a look and
the listening after it, and between a wake-up and the look after it, and each is announced at some
time after it was made.

* `Scheduled` — the writes that others make, each with its moment.
* `Waiter.Scene`, `Waiter.Moves` — one who waits among others, and what may happen next.
* `Waiter.Scene.left` — how many moves are left at most: every wait comes to an end
  (`Runs.count_le`), and nothing stands still before (`exists_moves`).
* `exists_runs_rest` — all steps that the waiter can take by himself are a run of moves.
-/

namespace EngineCatalog.KeyValue

/-! ## Writes on schedule -/

/-- Writes with their moments, in order. They begin when a wait begins, and none is made at the very
moment of its deadline. -/
structure Scheduled (start deadline : Nat) (schedule : List (Nat × Write)) : Prop where
  /-- they are in the order of their moments -/
  ordered : schedule.Pairwise fun a b => a.1 ≤ b.1
  /-- none is made before the start -/
  start_le : ∀ one ∈ schedule, start ≤ one.1
  /-- none is made at the deadline -/
  ne_deadline : ∀ one ∈ schedule, one.1 ≠ deadline

namespace Waiter

variable {waiter : Waiter} {store : Store} {schedule : List (Nat × Write)}

/-! ## The scene -/

/-- One who waits, and what there is around him. -/
structure Scene where
  /-- the moment -/
  moment : Nat
  /-- how many writes of the schedule are made -/
  made : Nat
  /-- the store -/
  store : Store
  /-- how many announcements there were -/
  announced : Nat
  /-- how many changes of the store's index are still to be announced -/
  pending : Nat
  /-- how far the waiter has come -/
  stage : Stage

/-- The scene after a write: where it moves the index of the store, that is to be announced. -/
def Scene.write (scene : Scene) (write : Write) : Scene :=
  let after := (scene.store.perform write).2
  { scene with
    made := scene.made + 1
    store := after
    pending := scene.pending + (after.index - scene.store.index) }

/-- What may happen next. -/
inductive Moves (waiter : Waiter) (schedule : List (Nat × Write)) : Scene → Scene → Prop where
  /-- a write is made, at its moment -/
  | write {scene : Scene} {write : Write}
    (hnext : schedule[scene.made]? = some (scene.moment, write)) :
    Moves waiter schedule scene (scene.write write)
  /-- a change of the index is announced -/
  | announce {scene : Scene} (hpending : 0 < scene.pending) :
    Moves waiter schedule scene
      { scene with announced := scene.announced + 1, pending := scene.pending - 1 }
  /-- the waiter takes a step -/
  | step {scene : Scene} {stage : Stage}
    (hstep : waiter.step scene.store scene.announced scene.moment scene.stage = some stage) :
    Moves waiter schedule scene { scene with stage := stage }
  /-- time passes, as nobody can do anything else and the wait is not over -/
  | tick {scene : Scene}
    (hstep : waiter.step scene.store scene.announced scene.moment scene.stage = none)
    (hwaits : ∀ listing, scene.stage ≠ .returned listing)
    (hpending : scene.pending = 0)
    (hnext : ∀ write, schedule[scene.made]? ≠ some (scene.moment, write)) :
    Moves waiter schedule scene { scene with moment := scene.moment + 1 }

/-- So many moves lead from one scene to another. -/
inductive Runs (waiter : Waiter) (schedule : List (Nat × Write)) :
    Nat → Scene → Scene → Prop where
  /-- no move -/
  | refl (scene : Scene) : Runs waiter schedule 0 scene scene
  /-- a move, and then some more -/
  | cons {count : Nat} {scene between later : Scene} (hmove : Moves waiter schedule scene between)
    (hmore : Runs waiter schedule count between later) :
    Runs waiter schedule (count + 1) scene later

/-- The waiter is called at a moment. Of the changes made before, some may be announced only now. -/
def opening (start : Nat) (store : Store) (announced pending : Nat) : Scene :=
  ⟨start, 0, store, announced, pending, .called⟩

/-! ## Steps of the waiter -/

/-- The waiter has to wait for others where he listens, has heard of everything and has time left;
and he takes no step when he is done. -/
theorem step_eq_none_iff {announced moment : Nat} {stage : Stage} :
    waiter.step store announced moment stage = none ↔
      (stage = .listening announced ∧ moment < waiter.deadline) ∨
        ∃ listing, stage = .returned listing := by
  cases stage with
  | called => simp [step]
  | looking heard => cases hover : store.isOver waiter.path waiter.all waiter.since <;>
      simp [step, hover]
  | listening heard =>
    by_cases hheard : announced = heard
    · simp [step, hheard]
    · simp [step, hheard, Ne.symm hheard]
  | leaving => simp [step]
  | returned listing => simp [step]

/-! ## A wait ends -/

section Progress

variable {scene later : Scene}

theorem rank_step {announced moment : Nat} {stage next : Stage}
    (h : waiter.step store announced moment stage = some next) :
    next.rank announced < stage.rank announced := by
  cases stage with
  | called =>
    obtain rfl := Option.some.inj h
    simp [Stage.rank]
  | looking heard =>
    rw [step] at h
    split at h <;> obtain rfl := Option.some.inj h <;> simp only [Stage.rank] <;> split <;> simp
  | listening heard =>
    rw [step] at h
    split at h
    · obtain rfl := Option.some.inj h
      simp [Stage.rank, *]
    · split at h
      · obtain rfl := Option.some.inj h
        simp [Stage.rank, *]
      · cases h
  | leaving =>
    obtain rfl := Option.some.inj h
    simp [Stage.rank]
  | returned listing => cases h

theorem rank_succ_le (stage : Stage) (announced : Nat) :
    stage.rank (announced + 1) ≤ stage.rank announced + 2 := by
  cases stage <;> simp only [Stage.rank] <;> repeat' split
  all_goals omega

/-- As many moves as are left at most: those of the clock up to the deadline, those of others, and
the steps of the waiter, who takes two more for each announcement at most. -/
def Scene.left (waiter : Waiter) (schedule : List (Nat × Write)) (scene : Scene) : Nat :=
  (waiter.deadline - scene.moment) + 4 * (schedule.length - scene.made) + 3 * scene.pending
    + scene.stage.rank scene.announced

theorem Moves.left_lt (h : Moves waiter schedule scene later) :
    later.left waiter schedule < scene.left waiter schedule := by
  cases h with
  | @write write hnext =>
    have hlt := (List.getElem?_eq_some_iff.mp hnext).1
    have hindex : (scene.store.perform write).2.index - scene.store.index ≤ 1 := by
      obtain hsame | hindex := scene.store.perform_eq_or_index write
      · rw [hsame]
        omega
      · omega
    simp only [Scene.left, Scene.write]
    omega
  | announce hpending =>
    have hrank := rank_succ_le scene.stage scene.announced
    simp only [Scene.left]
    omega
  | step hstep =>
    have hrank := rank_step hstep
    simp only [Scene.left]
    omega
  | tick hstep hwaits _ _ =>
    obtain ⟨-, htime⟩ | ⟨listing, hreturned⟩ := step_eq_none_iff.mp hstep
    · simp only [Scene.left]
      omega
    · exact absurd hreturned (hwaits listing)

theorem Runs.count_le {count : Nat} (h : Runs waiter schedule count scene later) :
    count + later.left waiter schedule ≤ scene.left waiter schedule := by
  induction h with
  | refl _ => exact Nat.le_of_eq (Nat.zero_add _)
  | cons hmove _ ih =>
    have hlt := hmove.left_lt
    omega

/-- Something can happen as long as the wait is not over. -/
theorem exists_moves (waiter : Waiter) (schedule : List (Nat × Write)) (scene : Scene)
    (hwaits : ∀ listing, scene.stage ≠ .returned listing) :
    ∃ later, Moves waiter schedule scene later := by
  cases hstep : waiter.step scene.store scene.announced scene.moment scene.stage with
  | some stage => exact ⟨_, .step hstep⟩
  | none =>
    by_cases hpending : scene.pending = 0
    · by_cases hnext : ∃ write, schedule[scene.made]? = some (scene.moment, write)
      · obtain ⟨write, hnext⟩ := hnext
        exact ⟨_, .write hnext⟩
      · exact ⟨_, .tick hstep hwaits hpending fun write heq => hnext ⟨write, heq⟩⟩
    · exact ⟨_, .announce (Nat.pos_of_ne_zero hpending)⟩

/-- As many steps as the rank of a stage lead to where the waiter has to wait or is done. -/
theorem step_proceed {announced moment steps : Nat} {stage : Stage}
    (h : stage.rank announced ≤ steps) :
    waiter.step store announced moment (waiter.proceed store announced moment steps stage)
      = none := by
  induction steps generalizing stage with
  | zero =>
    cases hstep : waiter.step store announced moment stage with
    | none => exact hstep
    | some next =>
      have hrank := rank_step hstep
      omega
  | succ steps ih =>
    rw [proceed]
    cases hstep : waiter.step store announced moment stage with
    | none => exact hstep
    | some next =>
      have hrank := rank_step hstep
      exact ih (by omega)

theorem step_rest (waiter : Waiter) (store : Store) (announced moment : Nat) (stage : Stage) :
    waiter.step store announced moment (waiter.rest store announced moment stage) = none :=
  step_proceed (Nat.le_refl _)

theorem exists_runs_proceed (waiter : Waiter) (schedule : List (Nat × Write)) (steps : Nat)
    (scene : Scene) :
    ∃ count, Runs waiter schedule count scene
      { scene with
        stage := waiter.proceed scene.store scene.announced scene.moment steps scene.stage } := by
  induction steps generalizing scene with
  | zero => exact ⟨0, .refl scene⟩
  | succ steps ih =>
    rw [proceed]
    cases hstep : waiter.step scene.store scene.announced scene.moment scene.stage with
    | none => exact ⟨0, .refl scene⟩
    | some next =>
      obtain ⟨count, hmore⟩ := ih { scene with stage := next }
      exact ⟨count + 1, .cons (.step hstep) hmore⟩

/-- Where others do nothing meanwhile, the waiter comes to his rest by moves of his own. -/
theorem exists_runs_rest (waiter : Waiter) (schedule : List (Nat × Write)) (scene : Scene) :
    ∃ count, Runs waiter schedule count scene
      { scene with
        stage := waiter.rest scene.store scene.announced scene.moment scene.stage } :=
  exists_runs_proceed waiter schedule _ scene

end Progress

end Waiter

end EngineCatalog.KeyValue
