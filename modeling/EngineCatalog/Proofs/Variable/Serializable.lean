import EngineCatalog.Proofs.Concurrency.Trace
import EngineCatalog.Proofs.Variable.Exclusion
import EngineCatalog.Proofs.Variable.UnderLock
import Mathlib.Algebra.BigOperators.Group.Finset.Piecewise

/-!
# Tasks side by side

Tasks on secured variables that run side by side come to what they come to one after the other, in
the order in which they take the lock (`Coordinator.serializable`).

* `Stage` — where a job stands: it has not taken the lock, it holds it, or it has released it and
  leaves its records.
* `Simulates` — how the jobs stand beside the tasks that were performed one after the other: all but
  the records is as it is there, if the lock is free, and the records that are missing are still
  owed.
-/

namespace EngineCatalog

open Secret (Removal Vault)

/-! ## Waits that are not given up -/

/-- The answer to a wait for removals says what has come of each of them. -/
def Exchange.inTime : Exchange effects → Bool
  | ⟨.awaitRemovals _ _, removals⟩ => List.all removals Option.isSome
  | _ => true

/-- No wait for removals is given up. -/
def Move.inTime (move : Move) : Bool :=
  move.exchange.all Exchange.inTime

/-- The job that takes the lock with the move, if one does. -/
def Move.taker? (move : Move) : Option Nat :=
  if move.before.holder = none then move.after.holder else none

/-- The jobs that take the lock, in order. -/
def takers (moves : List Move) : List Nat :=
  moves.filterMap Move.taker?

theorem takers_concat (moves : List Move) (move : Move) :
    takers (moves ++ [move]) = takers moves ++ move.taker?.toList := by
  rw [takers, List.filterMap_append, List.filterMap_cons]
  cases move.taker? <;> rfl

/-- Nobody takes the lock where the holder stays the same. -/
theorem takers_concat_of_same {moves : List Move} {move : Move}
    (h : move.after.holder = move.before.holder) : takers (moves ++ [move]) = takers moves := by
  have hnone : move.taker? = none := by
    rw [Move.taker?, h]
    split <;> first | assumption | rfl
  rw [takers_concat, hnone, Option.toList_none, List.append_nil]

/-! ## Where jobs stand -/

/-- Where a job stands. -/
inductive Stage where
  /-- it has not taken the lock -/
  | aside
  /-- it holds the lock, and this is left of what it does with it -/
  | inside (rest : Program effects (List Audit.Record × Outcome Reply))
  /-- it has released the lock; it leaves these records, and then it is done -/
  | leaving (records : List Audit.Record) (outcome : Outcome Reply)

namespace Stage

/-- What is left of a program at the stage. -/
def program (first : Program effects (Outcome Reply)) : Stage → Program effects (Outcome Reply)
  | aside => first
  | inside rest => rest.bind release
  | leaving records outcome => leave records outcome

/-- The records that are still to be left. -/
def owed : Stage → Multiset Audit.Record
  | leaving records _ => records
  | _ => 0

@[simp] theorem owed_aside : aside.owed = 0 := rfl

@[simp] theorem owed_inside (rest : Program effects (List Audit.Record × Outcome Reply)) :
    (inside rest).owed = 0 := rfl

@[simp] theorem owed_leaving (records : List Audit.Record) (outcome : Outcome Reply) :
    (leaving records outcome).owed = records := rfl

/-- When one job goes on to another stage, it owes other records than before. -/
theorem sum_owed_update (stage : Nat → Stage) {count job : Nat} (hjob : job < count)
    (later : Stage) :
    ∑ other ∈ Finset.range count, (Function.update stage job later other).owed + (stage job).owed
      = ∑ other ∈ Finset.range count, (stage other).owed + later.owed := by
  have hmem : job ∈ Finset.range count := Finset.mem_range.mpr hjob
  have hupdate : (fun other => (Function.update stage job later other).owed)
      = Function.update (fun other => (stage other).owed) job later.owed :=
    funext fun other => Function.apply_update (fun _ => owed) stage job later other
  rw [hupdate, Finset.sum_update_of_mem hmem, Finset.sdiff_singleton_eq_erase,
    ← Finset.add_sum_erase _ _ hmem]
  ac_rfl

/-- When one job leaves its records, no other has begun to hold the lock. -/
theorem inside_of_update {stage : Nat → Stage} {job other : Nat} {records : List Audit.Record}
    {outcome : Outcome Reply} {rest : Program effects (List Audit.Record × Outcome Reply)}
    (h : Function.update stage job (.leaving records outcome) other = .inside rest) :
    other ≠ job ∧ stage other = .inside rest := by
  by_cases hother : other = job
  · rw [hother, Function.update_self] at h
    cases h
  · rw [Function.update_of_ne hother] at h
    exact ⟨hother, h⟩

end Stage

/-- The jobs stand where it is said, along the moves so far. -/
structure Staged (coordinator : Coordinator) (tasks : List Task) (moves : List Move)
    (stage : Nat → Stage) (jobs : List (Program effects Unit)) : Prop where
  /-- what is left of each -/
  jobs : ∀ job, jobs[job]? = tasks[job]?.map fun task : Task =>
    ((stage job).program (task.work coordinator).run).bind fun _ => .done ()
  /-- what each was answered -/
  follows : ∀ (job : Nat) (task : Task), tasks[job]? = some task →
    (task.work coordinator).run.Follows (exchanges job moves)
      ((stage job).program (task.work coordinator).run)

namespace Staged

variable {coordinator : Coordinator} {tasks : List Task} {moves : List Move} {stage : Nat → Stage}
  {jobs : List (Program effects Unit)}

/-- In the beginning all jobs stand aside. -/
theorem start (coordinator : Coordinator) (tasks : List Task) :
    Staged coordinator tasks [] (fun _ => .aside) (tasks.map (Task.program coordinator)) := by
  refine ⟨fun job => ?_, fun _ _ _ => .refl _⟩
  rw [List.getElem?_map]
  congr 1
  funext task
  exact Task.program_eq_finish coordinator task

/-- Something comes of a removal, and all jobs stand where they stood. -/
theorem removed (h : Staged coordinator tasks moves stage jobs) (job : Nat) (before after : Shared) :
    Staged coordinator tasks (moves ++ [⟨job, none, before, after⟩]) stage jobs := by
  refine ⟨h.jobs, fun other task htask => ?_⟩
  have hnone : exchanges other [⟨job, none, before, after⟩] = [] := by simp [exchanges]
  rw [exchanges_append, hnone, List.append_nil]
  exact h.follows other task htask

/-- A job that is answered was at a request, and goes on to another stage. -/
theorem answered (h : Staged coordinator tasks moves stage jobs) {job : Nat} {effect : Effect}
    {rest : effect.Answer → Program effects Unit}
    (hjob : jobs[job]? = some (.ask (σ := effects) effect rest)) :
    ∃ (task : Task) (next : effect.Answer → Program effects (Outcome Reply)),
      tasks[job]? = some task ∧
      (stage job).program (task.work coordinator).run = .ask (σ := effects) effect next ∧
      ∀ (answer : effect.Answer) (before after : Shared) (later : Stage),
        later.program (task.work coordinator).run = next answer →
        Staged coordinator tasks (moves ++ [⟨job, some ⟨effect, answer⟩, before, after⟩])
          (Function.update stage job later) (jobs.set job (rest answer)) := by
  obtain ⟨task, htask, hprogram⟩ := Option.map_eq_some_iff.mp ((h.jobs job).symm.trans hjob)
  cases hstage : (stage job).program (task.work coordinator).run with
  | done outcome =>
    rw [hstage] at hprogram
    cases hprogram
  | overflow =>
    rw [hstage] at hprogram
    cases hprogram
  | ask _ next =>
    rw [hstage] at hprogram
    cases hprogram
    refine ⟨task, next, htask, hstage,
      fun answer before after later hlater => ⟨fun other => ?_, ?_⟩⟩
    · by_cases hother : other = job
      · subst hother
        rw [List.getElem?_set_self (List.getElem?_eq_some_iff.mp hjob).1, htask,
          Function.update_self, Option.map_some, hlater]
      · rw [List.getElem?_set_ne (Ne.symm hother), Function.update_of_ne hother]
        exact h.jobs other
    · intro other one hone
      rw [exchanges_append]
      by_cases hother : other = job
      · subst hother
        obtain rfl := Option.some.inj (htask.symm.trans hone)
        have hanswered : exchanges other [⟨other, some ⟨effect, answer⟩, before, after⟩]
            = [⟨effect, answer⟩] := by simp [exchanges]
        rw [hanswered, Function.update_self, hlater]
        exact Program.Follows.concat (hstage ▸ h.follows other task htask) answer
      · have hnone : exchanges other [⟨job, some ⟨effect, answer⟩, before, after⟩] = [] := by
          simp [exchanges, Ne.symm hother]
        rw [hnone, List.append_nil, Function.update_of_ne hother]
        exact h.follows other one hone

end Staged

/-! ## Who holds the lock -/

/-- What is shared, as the only job would see it that holds the lock, with other records. -/
def Shared.seen (shared : Shared) (records : List Audit.Record) : Shared :=
  { shared with holder := some 0, records := records }

/-- What a job that holds the lock is answered, it is answered alone. -/
theorem Answers.seen {job : Nat} {effect : Effect} {answer : effect.Answer} {before after : Shared}
    (h : Answers false job effect before answer after) (hcall : effect.isCall true = true)
    (hintime : Exchange.inTime ⟨effect, answer⟩ = true) (records : List Audit.Record) :
    AnswersAlone false effect (before.seen records) answer (after.seen records) ∧
      after.holder = before.holder ∧ after.records = before.records := by
  cases effect with
  | store call =>
    obtain ⟨rfl, rfl⟩ | ⟨hfaulty, -⟩ := h
    · exact ⟨.inl ⟨rfl, rfl⟩, rfl, rfl⟩
    · cases hfaulty
  | secrets call =>
    obtain ⟨rfl, rfl⟩ | ⟨hfaulty, -⟩ := h
    · exact ⟨.inl ⟨rfl, rfl⟩, rfl, rfl⟩
    · cases hfaulty
  | startRemoval name keys =>
    obtain ⟨rfl, rfl⟩ | ⟨hfaulty, -⟩ := h
    · exact ⟨.inl ⟨rfl, rfl⟩, rfl, rfl⟩
    · cases hfaulty
  | awaitRemovals tickets moment =>
    obtain ⟨rfl, rfl, -⟩ := h
    exact ⟨⟨rfl, rfl, List.all_eq_true.mp hintime⟩, rfl, rfl⟩
  | now =>
    obtain rfl := h
    exact ⟨rfl, rfl, rfl⟩
  | _ => cases hcall

/-- Records are left by the only job. -/
theorem Alone.leave {α : Type} (records : List Audit.Record) (outcome : Outcome α) (s : Shared) :
    Alone false true (leave records outcome) s (.done outcome)
      { s with records := s.records ++ records } := by
  induction records generalizing s with
  | nil =>
    rw [List.append_nil]
    exact .refl _ _
  | cons record more ih =>
    have hmore := ih { s with records := s.records ++ [record] }
    rw [List.append_assoc] at hmore
    exact .step (.record record) () .refl rfl hmore

/-- The lock is free, and all but the records is as it is after the tasks that were performed; or a
job holds it, and has done nothing but what it does alone. -/
inductive Locking (coordinator : Coordinator) (tasks : List Task) (stage : Nat → Stage)
    (reached shared : Shared) : Prop where
  /-- the lock is free -/
  | free (hfree : shared.holder = none) (hnobody : ∀ job rest, stage job ≠ .inside rest)
    (hsame : { shared with records := reached.records } = reached)
  /-- a job holds it -/
  | held {job : Nat} {task : Task}
    {critical rest : Program effects (List Audit.Record × Outcome Reply)} {now : Shared}
    (hholder : shared.holder = some job) (htask : tasks[job]? = some task)
    (hcritical : (task.work coordinator).run = underLock critical)
    (hcalls : rest.Obeys (Effect.only (Effect.isCall true)) () fun _ _ => True)
    (hinside : stage job = .inside rest)
    (hothers : ∀ other later, stage other = .inside later → other = job)
    (halone : Alone false true critical { reached with holder := some 0 } rest now)
    (hmeanwhile : Meanwhile false true now (shared.seen reached.records))

/-- Beside the jobs, tasks were performed one after the other. -/
structure Simulates (coordinator : Coordinator) (tasks : List Task) (origin : Shared)
    (moves : List Move) (stage : Nat → Stage) (served : List (Nat × Performance)) (reached : Shared)
    (system : System) : Prop where
  /-- the jobs stand where it is said -/
  staged : Staged coordinator tasks moves stage system.jobs
  /-- the tasks were performed -/
  serial : Serial coordinator origin (served.map Prod.snd) reached
  /-- nothing is left to come -/
  settled : reached.Settled
  /-- the lock is free after them -/
  free : reached.holder = none
  /-- they are those of jobs that have released the lock, with the same outcome -/
  of_served : ∀ one ∈ served, tasks[one.1]? = some one.2.task ∧
    ∃ records, stage one.1 = .leaving records one.2.outcome
  /-- no job that has released the lock is missing -/
  left : ∀ job records outcome, stage job = .leaving records outcome → job ∈ served.map Prod.fst
  /-- none is there twice -/
  distinct : (served.map Prod.fst).Nodup
  /-- who holds the lock -/
  locking : Locking coordinator tasks stage reached system.shared
  /-- the records that are missing are owed -/
  records : (system.shared.records : Multiset Audit.Record)
    + ∑ job ∈ Finset.range tasks.length, (stage job).owed = reached.records
  /-- the lock was taken in this order -/
  order : takers moves = served.map Prod.fst ++ system.shared.holder.toList

namespace Simulates

variable {coordinator : Coordinator} {tasks : List Task} {origin reached : Shared}
  {moves : List Move} {stage : Nat → Stage} {served : List (Nat × Performance)} {s : Shared}
  {jobs : List (Program effects Unit)}

/-- In the beginning nothing was performed. -/
theorem start (coordinator : Coordinator) (tasks : List Task) {origin : Shared}
    (hfree : origin.holder = none) (hsettled : origin.Settled) :
    Simulates coordinator tasks origin [] (fun _ => .aside) [] origin
      ⟨origin, tasks.map (Task.program coordinator)⟩ := by
  refine {
    staged := .start coordinator tasks
    serial := .nil origin
    settled := hsettled
    free := hfree
    of_served := fun _ hnone => absurd hnone List.not_mem_nil
    left := nofun
    distinct := List.nodup_nil
    locking := .free hfree (fun _ _ => nofun) rfl
    records := ?_
    order := ?_ }
  · rw [Finset.sum_eq_zero fun _ _ => Stage.owed_aside, add_zero]
  · rw [hfree]
    rfl

/-- Something comes of a removal: a job holds the lock. -/
theorem removed (h : Simulates coordinator tasks origin moves stage served reached ⟨s, jobs⟩)
    (job : Nat) {ticket : Nat} {started : Started} {removal : Removal} {vault : Vault}
    (hstarted : s.started[ticket]? = some started) (hpending : started.removal = none)
    (hcomes : Comes false started s.vault removal vault) :
    Simulates coordinator tasks origin
      (moves ++ [⟨job, none, s, s.settle ticket started removal vault⟩])
      stage served reached ⟨s.settle ticket started removal vault, jobs⟩ := by
  refine { h with staged := h.staged.removed _ _ _, locking := ?_, order := ?_ }
  · cases h.locking with
    | free _ _ hsame =>
      -- where the lock is free, nothing is left to come
      have hsome : started.removal.isSome = true := by
        refine h.settled started ?_
        rw [← hsame]
        exact List.mem_of_getElem? hstarted
      rw [hpending] at hsome
      cases hsome
    | held hholder htask hcritical hcalls hinside hothers halone hmeanwhile =>
      exact .held hholder htask hcritical hcalls hinside hothers halone (hmeanwhile.tail
        ⟨rfl, ticket, started, removal, vault, hstarted, hpending, hcomes, rfl⟩)
  · rw [takers_concat_of_same rfl]
    exact h.order

/-! ### A job is answered -/

variable {job : Nat} {task : Task} {later : Stage} {exchange : Option (Exchange effects)}
  {others : List (Program effects Unit)}

/-- A job that has not released the lock is none of those that were served. -/
theorem ne_of_served (h : Simulates coordinator tasks origin moves stage served reached ⟨s, jobs⟩)
    (hstage : ∀ records outcome, stage job ≠ .leaving records outcome) {one : Nat × Performance}
    (hone : one ∈ served) : one.1 ≠ job := by
  rintro rfl
  obtain ⟨-, records, hleaving⟩ := h.of_served one hone
  exact hstage _ _ hleaving

/-- Those that were served stand where they stood. -/
theorem of_served_update
    (h : Simulates coordinator tasks origin moves stage served reached ⟨s, jobs⟩)
    (hstage : ∀ records outcome, stage job ≠ .leaving records outcome) (later : Stage)
    (one : Nat × Performance) (hone : one ∈ served) :
    tasks[one.1]? = some one.2.task ∧
      ∃ records, Function.update stage job later one.1 = .leaving records one.2.outcome := by
  rw [Function.update_of_ne (h.ne_of_served hstage hone)]
  exact h.of_served one hone

/-- A job that is inside has not released the lock. -/
theorem left_inside (h : Simulates coordinator tasks origin moves stage served reached ⟨s, jobs⟩)
    (rest : Program effects (List Audit.Record × Outcome Reply)) (other : Nat)
    (records : List Audit.Record) (outcome : Outcome Reply)
    (hother : Function.update stage job (.inside rest) other = .leaving records outcome) :
    other ∈ served.map Prod.fst := by
  by_cases heq : other = job
  · subst heq
    rw [Function.update_self] at hother
    cases hother
  · rw [Function.update_of_ne heq] at hother
    exact h.left other records outcome hother

/-- A job that is inside owes no records. -/
theorem records_inside (h : Simulates coordinator tasks origin moves stage served reached ⟨s, jobs⟩)
    (htask : tasks[job]? = some task) (hstage : (stage job).owed = 0)
    (rest : Program effects (List Audit.Record × Outcome Reply)) :
    (s.records : Multiset Audit.Record) + ∑ other ∈ Finset.range tasks.length,
      (Function.update stage job (.inside rest) other).owed = reached.records := by
  have hsum := Stage.sum_owed_update stage (List.getElem?_eq_some_iff.mp htask).1
    (.inside rest)
  rw [hstage, Stage.owed_inside, add_zero, add_zero] at hsum
  rw [hsum]
  exact h.records

/-- A job takes the lock. -/
theorem taken (h : Simulates coordinator tasks origin moves stage served reached ⟨s, jobs⟩)
    (htask : tasks[job]? = some task) (hstage : stage job = .aside)
    {critical : Program effects (List Audit.Record × Outcome Reply)}
    (hcritical : (task.work coordinator).run = underLock critical)
    (hcalls : critical.Obeys (Effect.only (Effect.isCall true)) () fun _ _ => True)
    (hfree : s.holder = none)
    (hstaged : Staged coordinator tasks (moves ++ [⟨job, exchange, s,
      { s with holder := some job }⟩]) (Function.update stage job (.inside critical))
      others) :
    Simulates coordinator tasks origin (moves ++ [⟨job, exchange, s,
      { s with holder := some job }⟩]) (Function.update stage job (.inside critical))
      served reached ⟨{ s with holder := some job }, others⟩ := by
  cases h.locking with
  | held hholder =>
    rw [hfree] at hholder
    cases hholder
  | free _ hnobody hsame =>
    have hseen : ({ s with holder := some job } : Shared).seen reached.records
        = { reached with holder := some 0 } :=
      congrArg (fun shared : Shared => { shared with holder := some 0 }) hsame
    have hnone : ∀ records outcome, stage job ≠ .leaving records outcome := by
      rw [hstage]
      exact fun _ _ => nofun
    refine { h with
      staged := hstaged
      of_served := h.of_served_update hnone _
      left := h.left_inside _
      locking := .held rfl htask hcritical hcalls (Function.update_self ..)
        (fun other later hother => ?_) (.refl critical _) (hseen ▸ .refl)
      records := h.records_inside htask (by rw [hstage]; rfl) critical
      order := ?_ }
    · by_contra heq
      rw [Function.update_of_ne heq] at hother
      exact hnobody other later hother
    · have htakers := h.order
      rw [hfree, Option.toList_none, List.append_nil] at htakers
      rw [takers_concat, htakers, Move.taker?, if_pos hfree]

/-- The job that holds the lock makes a call. -/
theorem called (h : Simulates coordinator tasks origin moves stage served reached ⟨s, jobs⟩)
    {effect : Effect} {next : effect.Answer → Program effects (List Audit.Record × Outcome Reply)}
    (hstage : stage job = .inside (.ask (σ := effects) effect next)) {answer : effect.Answer}
    {after : Shared} (hanswers : Answers false job effect s answer after)
    (hintime : Exchange.inTime ⟨effect, answer⟩ = true)
    (hstaged : Staged coordinator tasks (moves ++ [⟨job, exchange, s, after⟩])
      (Function.update stage job (.inside (next answer))) others) :
    Simulates coordinator tasks origin (moves ++ [⟨job, exchange, s, after⟩])
      (Function.update stage job (.inside (next answer))) served reached ⟨after, others⟩ := by
  cases h.locking with
  | free _ hnobody => exact absurd hstage (hnobody _ _)
  | held hholder htask hcritical hcalls hinside hothers halone hmeanwhile =>
    obtain rfl := hothers job _ hstage
    obtain rfl := Stage.inside.inj (hstage.symm.trans hinside)
    obtain ⟨hanswered, hsame, hrecords⟩ := hanswers.seen hcalls.1 hintime reached.records
    have hnone : ∀ records outcome, stage job ≠ .leaving records outcome := by
      rw [hstage]
      exact fun _ _ => nofun
    refine { h with
      staged := hstaged
      of_served := h.of_served_update hnone _
      left := h.left_inside _
      locking := .held (hsame.trans hholder) htask hcritical (hcalls.2 answer)
        (Function.update_self ..) (fun other later hother => ?_)
        (halone.trans (.step effect answer hmeanwhile hanswered (.refl _ _))) .refl
      records := ?_
      order := ?_ }
    · by_contra heq
      rw [Function.update_of_ne heq] at hother
      exact heq (hothers other later hother)
    · rw [hrecords]
      exact h.records_inside htask (by rw [hstage]; rfl) (next answer)
    · rw [takers_concat_of_same hsame, hsame]
      exact h.order

/-- The job that holds the lock releases it: its task was performed. -/
theorem released (h : Simulates coordinator tasks origin moves stage served reached ⟨s, jobs⟩)
    (hsecured : ∀ task ∈ tasks, task.IsSecured) (htask : tasks[job]? = some task)
    {records : List Audit.Record} {outcome : Outcome Reply}
    (hstage : stage job = .inside (.done (records, outcome)))
    (hstaged : Staged coordinator tasks (moves ++ [⟨job, exchange, s,
      { s with holder := none }⟩])
      (Function.update stage job (.leaving records outcome)) others) :
    ∃ performance final, Simulates coordinator tasks origin (moves ++ [⟨job, exchange, s,
      { s with holder := none }⟩]) (Function.update stage job (.leaving records outcome))
      (served ++ [(job, performance)]) final ⟨{ s with holder := none }, others⟩ := by
  cases h.locking with
  | free _ hnobody => exact absurd hstage (hnobody _ _)
  | @held _ one critical rest now hholder hone hcritical hcalls hinside hothers halone hmeanwhile =>
    obtain rfl := hothers job _ hstage
    obtain rfl := Stage.inside.inj (hstage.symm.trans hinside)
    obtain rfl := Option.some.inj (htask.symm.trans hone)
    let final : Shared := { s with holder := none, records := reached.records ++ records }
    -- what the job did is what it does alone
    have hperforms : Performs false true reached (task.work coordinator) outcome final := by
      have hrelease : Alone false true (release (records, outcome)) now (.done outcome) final :=
        .step .unlock () hmeanwhile rfl
          (Alone.leave records outcome { s with holder := none, records := reached.records })
      rw [Performs, hcritical]
      exact .step .lock () .refl ⟨h.free, rfl⟩ ((halone.bind release).trans hrelease)
    have hsettled : final.Settled := (Task.deterministic (hsecured task (List.mem_of_getElem? htask))
      h.settled hperforms hperforms).2.2
    have hnone : ∀ records outcome, stage job ≠ .leaving records outcome := by
      rw [hstage]
      exact fun _ _ => nofun
    refine ⟨⟨task, outcome, reached, final⟩, final, {
      staged := hstaged
      serial := ?_
      settled := hsettled
      free := rfl
      of_served := fun one hone => ?_
      left := fun other records result hother => ?_
      distinct := ?_
      locking := .free rfl (fun other rest hother => ?_) rfl
      records := ?_
      order := ?_ }⟩
    · rw [List.map_append]
      exact h.serial.concat hperforms
    · rcases List.mem_append.mp hone with hone | hone
      · exact h.of_served_update hnone _ one hone
      · obtain rfl := List.mem_singleton.mp hone
        exact ⟨htask, records, Function.update_self ..⟩
    · rw [List.map_append, List.mem_append]
      by_cases heq : other = job
      · exact .inr (List.mem_singleton.mpr heq)
      · rw [Function.update_of_ne heq] at hother
        exact .inl (h.left other records result hother)
    · rw [List.map_append, List.nodup_append]
      refine ⟨h.distinct, List.nodup_singleton _, fun other hother one hone => ?_⟩
      obtain ⟨entry, hentry, rfl⟩ := List.mem_map.mp hother
      obtain rfl : one = job := List.mem_singleton.mp hone
      exact h.ne_of_served hnone hentry
    · obtain ⟨hne, hother⟩ := Stage.inside_of_update hother
      exact hne (hothers other rest hother)
    · have hsum := Stage.sum_owed_update stage
        (List.getElem?_eq_some_iff.mp htask).1 (.leaving records outcome)
      rw [hstage, Stage.owed_inside, Stage.owed_leaving, add_zero] at hsum
      rw [hsum, ← add_assoc, h.records, Multiset.coe_add]
    · have htaker : Move.taker? ⟨job, exchange, s, { s with holder := none }⟩ = none :=
        if_neg (by rw [hholder]; exact nofun)
      rw [takers_concat, htaker, h.order, hholder, List.map_append]
      rfl

/-- A job leaves a record. -/
theorem recorded (h : Simulates coordinator tasks origin moves stage served reached ⟨s, jobs⟩)
    (htask : tasks[job]? = some task) {record : Audit.Record} {more : List Audit.Record}
    {outcome : Outcome Reply} (hstage : stage job = .leaving (record :: more) outcome)
    (hstaged : Staged coordinator tasks (moves ++ [⟨job, exchange, s,
      { s with records := s.records ++ [record] }⟩])
      (Function.update stage job (.leaving more outcome)) others) :
    Simulates coordinator tasks origin (moves ++ [⟨job, exchange, s,
      { s with records := s.records ++ [record] }⟩])
      (Function.update stage job (.leaving more outcome)) served reached
      ⟨{ s with records := s.records ++ [record] }, others⟩ := by
  have hlt : job < tasks.length := (List.getElem?_eq_some_iff.mp htask).1
  refine { h with
    staged := hstaged
    of_served := fun one hone => ?_
    left := fun other records result hother => ?_
    locking := ?_
    records := ?_
    order := ?_ }
  · obtain ⟨hone, records, hleaving⟩ := h.of_served one hone
    refine ⟨hone, ?_⟩
    by_cases heq : one.1 = job
    · rw [heq, hstage] at hleaving
      obtain ⟨-, houtcome⟩ := Stage.leaving.inj hleaving
      rw [heq, Function.update_self, houtcome]
      exact ⟨more, rfl⟩
    · rw [Function.update_of_ne heq]
      exact ⟨records, hleaving⟩
  · by_cases heq : other = job
    · rw [heq]
      exact h.left job _ _ hstage
    · rw [Function.update_of_ne heq] at hother
      exact h.left other records result hother
  · cases h.locking with
    | free hfree hnobody hsame =>
      exact .free hfree
        (fun other rest hother => hnobody other rest (Stage.inside_of_update hother).2) hsame
    | @held holder _ _ rest _ hholder hone hcritical hcalls hinside hothers halone hmeanwhile =>
      have hne : holder ≠ job := by
        rintro rfl
        rw [hstage] at hinside
        cases hinside
      exact .held hholder hone hcritical hcalls ((Function.update_of_ne hne ..).trans hinside)
        (fun other rest hother => hothers other rest (Stage.inside_of_update hother).2) halone
        hmeanwhile
  · -- the record is not owed any more
    have hsum := Stage.sum_owed_update stage hlt (.leaving more outcome)
    rw [hstage, Stage.owed_leaving, Stage.owed_leaving, ← Multiset.cons_coe,
      ← Multiset.singleton_add, ← add_assoc] at hsum
    rw [← h.records, ← add_right_cancel hsum, ← Multiset.coe_add, Multiset.coe_singleton]
    ac_rfl
  · exact (takers_concat_of_same rfl).trans h.order

/-- Whatever a job is answered, it goes on beside the tasks that were performed. -/
theorem answered (h : Simulates coordinator tasks origin moves stage served reached ⟨s, jobs⟩)
    (hsecured : ∀ task ∈ tasks, task.IsSecured) {effect : Effect}
    {rest : effect.Answer → Program effects Unit}
    (hjob : jobs[job]? = some (.ask (σ := effects) effect rest)) {answer : effect.Answer}
    {after : Shared} (hanswers : Answers false job effect s answer after)
    (hintime : Exchange.inTime ⟨effect, answer⟩ = true) :
    ∃ stage served reached, Simulates coordinator tasks origin
      (moves ++ [⟨job, some ⟨effect, answer⟩, s, after⟩]) stage served reached
      ⟨after, jobs.set job (rest answer)⟩ := by
  obtain ⟨task, next, htask, hprogram, hstaged⟩ := h.staged.answered hjob
  cases hstage : stage job with
  | aside =>
    rw [hstage] at hprogram
    have hshape := Task.isUnderLock coordinator (hsecured task (List.mem_of_getElem? htask))
    rcases hshape.eq_done_or with ⟨outcome, hdone⟩ | ⟨critical, hcritical, hcalls⟩
    · cases hdone.symm.trans hprogram
    · cases hcritical.symm.trans hprogram
      obtain ⟨hfree, rfl⟩ := hanswers
      exact ⟨_, _, _, h.taken htask hstage hcritical hcalls hfree
        (hstaged answer _ _ (.inside critical) rfl)⟩
  | inside left =>
    rw [hstage] at hprogram
    cases left with
    | done last =>
      cases hprogram
      obtain rfl := hanswers
      obtain ⟨performance, final, hfinal⟩ := h.released hsecured htask hstage
        (hstaged answer _ _ (.leaving last.1 last.2) rfl)
      exact ⟨_, _, _, hfinal⟩
    | ask _ following =>
      cases hprogram
      exact ⟨_, _, _, h.called hstage hanswers hintime
        (hstaged answer _ _ (.inside (following answer)) rfl)⟩
    | overflow => cases hprogram
  | leaving records outcome =>
    rw [hstage] at hprogram
    cases records with
    | nil => cases hprogram
    | cons record more =>
      cases hprogram
      obtain rfl := hanswers
      exact ⟨_, _, _, h.recorded htask hstage (hstaged answer _ _ (.leaving more outcome) rfl)⟩

/-- Whatever moves are made, the jobs go on beside the tasks that were performed. -/
theorem trace {system later : System} {owners : List Nat} {more : List Move}
    (htrace : Trace false owners system more later)
    (h : Simulates coordinator tasks origin moves stage served reached system)
    (hsecured : ∀ task ∈ tasks, task.IsSecured) (hintime : ∀ move ∈ more, move.inTime = true) :
    ∃ stage served reached,
      Simulates coordinator tasks origin (moves ++ more) stage served reached later := by
  induction htrace generalizing moves stage served reached with
  | nil => exact ⟨stage, served, reached, (List.append_nil moves).symm ▸ h⟩
  | cons hmove _ ih =>
    obtain ⟨hfirst, hrest⟩ := List.forall_mem_cons.mp hintime
    rw [List.append_cons]
    cases hmove with
    | answered hjob hanswers =>
      obtain ⟨stage, served, reached, hnext⟩ := h.answered hsecured hjob hanswers hfirst
      exact ih hnext hrest
    | removed _ hstarted hpending hcomes =>
      exact ih (h.removed _ hstarted hpending hcomes) hrest

/-! ### All jobs are done -/

/-- A job that is done either has no use for the lock, or has left all its records. -/
theorem stage_of_done (h : Simulates coordinator tasks origin moves stage served reached ⟨s, jobs⟩)
    (hdone : ∀ program ∈ jobs, program = .done ()) (htask : tasks[job]? = some task) :
    (stage job = .aside ∧ ∃ outcome, (task.work coordinator).run = .done outcome) ∨
      ∃ outcome, stage job = .leaving [] outcome := by
  have hjob := h.staged.jobs job
  rw [htask, Option.map_some] at hjob
  have hprogram := hdone _ (List.mem_of_getElem? hjob)
  cases hstage : stage job with
  | aside =>
    rw [hstage, Stage.program] at hprogram
    refine .inl ⟨rfl, ?_⟩
    cases hwork : (task.work coordinator).run with
    | done outcome => exact ⟨outcome, rfl⟩
    | ask effect next =>
      rw [hwork] at hprogram
      cases hprogram
    | overflow =>
      rw [hwork] at hprogram
      cases hprogram
  | inside rest =>
    rw [hstage] at hprogram
    cases rest <;> cases hprogram
  | leaving records outcome =>
    rw [hstage] at hprogram
    cases records with
    | nil => exact .inr ⟨outcome, rfl⟩
    | cons record more => cases hprogram

/-- When all jobs are done, the lock is free and no record is owed. -/
theorem same_of_done (h : Simulates coordinator tasks origin moves stage served reached ⟨s, jobs⟩)
    (hdone : ∀ program ∈ jobs, program = .done ()) :
    takers moves = served.map Prod.fst ∧ s.vault = reached.vault ∧
      s.records.Perm reached.records := by
  cases h.locking with
  | held _ htask _ _ hinside =>
    rcases h.stage_of_done hdone htask with ⟨haside, -⟩ | ⟨outcome, hleaving⟩
    · cases hinside.symm.trans haside
    · cases hinside.symm.trans hleaving
  | free hfree _ hsame =>
    have hnone : ∑ job ∈ Finset.range tasks.length, (stage job).owed = 0 := by
      refine Finset.sum_eq_zero fun job hjob => ?_
      have htask := List.getElem?_eq_getElem (Finset.mem_range.mp hjob)
      rcases h.stage_of_done hdone htask with ⟨haside, -⟩ | ⟨outcome, hleaving⟩
      · rw [haside, Stage.owed_aside]
      · rw [hleaving, Stage.owed_leaving, Multiset.coe_nil]
    refine ⟨?_, ?_, ?_⟩
    · have htakers := h.order
      rw [hfree, Option.toList_none, List.append_nil] at htakers
      exact htakers
    · rw [← hsame]
    · have hrecords := h.records
      rw [hnone, add_zero] at hrecords
      exact Multiset.coe_eq_coe.mp hrecords

/-- Those that were served came to what the tasks came to. -/
theorem outcomes_of_done
    (h : Simulates coordinator tasks origin moves stage served reached ⟨s, jobs⟩)
    (hdone : ∀ program ∈ jobs, program = .done ()) :
    List.Forall₂ (fun job one => tasks[job]? = some one.task ∧
      (one.task.work coordinator).run.Follows (exchanges job moves) (.done one.outcome))
      (served.map Prod.fst) (served.map Prod.snd) := by
  rw [List.forall₂_map_left_iff, List.forall₂_map_right_iff, List.forall₂_same]
  intro one hone
  obtain ⟨htask, records, hstage⟩ := h.of_served one hone
  have hfollows := h.staged.follows one.1 one.2.task htask
  rcases h.stage_of_done hdone htask with ⟨haside, -⟩ | ⟨outcome, hleaving⟩
  · cases hstage.symm.trans haside
  · cases hstage.symm.trans hleaving
    rw [hstage] at hfollows
    exact ⟨htask, hfollows⟩

/-- Those that were not served had no use for the lock, and asked for nothing. -/
theorem idle_of_done (h : Simulates coordinator tasks origin moves stage served reached ⟨s, jobs⟩)
    (hdone : ∀ program ∈ jobs, program = .done ()) (hjob : job < tasks.length)
    (hidle : job ∉ served.map Prod.fst) :
    exchanges job moves = [] ∧ ∃ (task : Task) (outcome : Outcome Reply),
      tasks[job]? = some task ∧ (task.work coordinator).run = .done outcome := by
  have htask := List.getElem?_eq_getElem hjob
  rcases h.stage_of_done hdone htask with ⟨haside, outcome, hwork⟩ | ⟨outcome, hleaving⟩
  · have hfollows := h.staged.follows job _ htask
    rw [haside, Stage.program, hwork] at hfollows
    exact ⟨hfollows.of_done.1, _, outcome, htask, hwork⟩
  · exact absurd (h.left job _ _ hleaving) hidle

end Simulates

/-! ## All tasks side by side -/

/-- The jobs came to what their tasks come to one after the other: each of them to the same outcome,
and all together to the same secrets and the same records, in whatever order. -/
structure Coordinator.Agrees (coordinator : Coordinator) (moves : List Move) (later : Shared)
    (order : List Nat) (performances : List Performance) (reached : Shared) : Prop where
  /-- the outcomes -/
  outcomes : List.Forall₂ (fun job one => (one.task.work coordinator).run.Follows
    (exchanges job moves) (.done one.outcome)) order performances
  /-- the secrets -/
  vault : later.vault = reached.vault
  /-- the records -/
  records : later.records.Perm reached.records

/-- Tasks that have no use for the lock can be performed at any time. -/
theorem Serial.of_idle {coordinator : Coordinator} {tasks : List Task} {moves : List Move}
    {idle : List Nat} (h : ∀ job ∈ idle, exchanges job moves = [] ∧
      ∃ (task : Task) (outcome : Outcome Reply), tasks[job]? = some task ∧
        (task.work coordinator).run = .done outcome) (shared : Shared) :
    ∃ performances, Serial coordinator shared performances shared ∧
      List.Forall₂ (fun job one => tasks[job]? = some one.task ∧
        (one.task.work coordinator).run.Follows (exchanges job moves) (.done one.outcome))
        idle performances := by
  induction idle with
  | nil => exact ⟨[], .nil shared, .nil⟩
  | cons job more ih =>
    obtain ⟨⟨hnothing, task, outcome, htask, hwork⟩, hmore⟩ := List.forall_mem_cons.mp h
    obtain ⟨performances, hserial, hidle⟩ := ih hmore
    have hperforms : Performs false true shared (task.work coordinator) outcome shared := by
      rw [Performs, hwork]
      exact .refl _ _
    refine ⟨⟨task, outcome, shared, shared⟩ :: performances, .cons hperforms hserial,
      .cons ⟨htask, ?_⟩ hidle⟩
    rw [hnothing, hwork]
    exact .refl _

/-- The tasks of performances by their jobs. -/
theorem tasks_eq_filterMap {tasks : List Task} {order : List Nat} {performances : List Performance}
    (h : List.Forall₂ (fun job one => tasks[job]? = some one.task) order performances) :
    performances.map Performance.task = order.filterMap fun job => tasks[job]? := by
  induction h with
  | nil => rfl
  | cons htask _ ih => rw [List.map_cons, ih, List.filterMap_cons_some htask]

/-- **Tasks on secured variables are serializable.** However the steps of the jobs follow one another,
and whenever something comes of the removals that they start, if only no wait is given up: once all
jobs are done, each of them has come to the outcome, and all together to the secrets and the records,
to which the tasks come one after the other in the order in which the jobs took the lock. Jobs that
did not take it had nothing to do, and asked for nothing. -/
theorem Coordinator.serializable {coordinator : Coordinator} {tasks : List Task}
    (hsecured : ∀ task ∈ tasks, task.IsSecured) {shared : Shared} (hfree : shared.holder = none)
    (hsettled : shared.Settled) {owners : List Nat} {moves : List Move} {later : System}
    (htrace : Trace false owners ⟨shared, tasks.map (Task.program coordinator)⟩ moves later)
    (hintime : ∀ move ∈ moves, move.inTime = true) (hdone : ∀ job ∈ later.jobs, job = .done ()) :
    ∃ idle, (∀ job ∈ idle, exchanges job moves = []) ∧
      (takers moves ++ idle).Perm (List.range tasks.length) ∧
      (∃ performances reached, Serial coordinator shared performances reached ∧
        performances.map Performance.task
          = (takers moves ++ idle).filterMap fun job => tasks[job]?) ∧
      ∀ performances reached, Serial coordinator shared performances reached →
        performances.map Performance.task
          = ((takers moves ++ idle).filterMap fun job => tasks[job]?) →
        coordinator.Agrees moves later.shared (takers moves ++ idle) performances reached := by
  obtain ⟨stage, served, reached, h⟩ :=
    Simulates.trace htrace (.start coordinator tasks hfree hsettled) hsecured hintime
  obtain ⟨s, jobs⟩ := later
  rw [List.nil_append] at h
  obtain ⟨horder, hvault, hrecords⟩ := h.same_of_done hdone
  let idle := (List.range tasks.length).filter fun job => !decide (job ∈ served.map Prod.fst)
  have hidle : ∀ job ∈ idle, exchanges job moves = [] ∧
      ∃ (task : Task) (outcome : Outcome Reply), tasks[job]? = some task ∧
        (task.work coordinator).run = .done outcome := by
    intro job hjob
    obtain ⟨hlt, hnew⟩ := List.mem_filter.mp hjob
    exact h.idle_of_done hdone (List.mem_range.mp hlt) (by simpa using hnew)
  have hperm : (takers moves ++ idle).Perm (List.range tasks.length) := by
    have hserved : (served.map Prod.fst).Perm
        ((List.range tasks.length).filter fun job => decide (job ∈ served.map Prod.fst)) := by
      refine (List.perm_ext_iff_of_nodup h.distinct (List.nodup_range.filter _)).mpr fun job => ?_
      rw [List.mem_filter, List.mem_range, decide_eq_true_iff]
      refine ⟨fun hjob => ⟨?_, hjob⟩, And.right⟩
      obtain ⟨one, hone, rfl⟩ := List.mem_map.mp hjob
      exact (List.getElem?_eq_some_iff.mp (h.of_served one hone).1).1
    rw [horder]
    exact (hserved.append_right _).trans (List.filter_append_perm _ _)
  -- the tasks of those that were not served can be performed at the end
  obtain ⟨others, hothers, hquiet⟩ := Serial.of_idle hidle reached
  have hserial := h.serial.append hothers
  have hcame : List.Forall₂ (fun job one => tasks[job]? = some one.task ∧
      (one.task.work coordinator).run.Follows (exchanges job moves) (.done one.outcome))
      (takers moves ++ idle) (served.map Prod.snd ++ others) := by
    rw [horder]
    exact List.rel_append (h.outcomes_of_done hdone) hquiet
  have htasks := tasks_eq_filterMap (hcame.imp fun _ _ => And.left)
  have hserved : ∀ one ∈ served.map Prod.snd ++ others, one.task.IsSecured := by
    intro one hone
    have hmem : one.task ∈ (served.map Prod.snd ++ others).map Performance.task :=
      List.mem_map_of_mem hone
    rw [htasks] at hmem
    obtain ⟨job, -, hjob⟩ := List.mem_filterMap.mp hmem
    exact hsecured one.task (List.mem_of_getElem? hjob)
  refine ⟨idle, fun job hjob => (hidle job hjob).1, hperm, ⟨_, reached, hserial, htasks⟩, ?_⟩
  intro performances final hfinal hsame
  obtain ⟨rfl, rfl⟩ := Serial.unique hsettled hserved hserial hfinal (hsame.trans htasks.symm)
  exact ⟨hcame.imp fun _ _ => And.right, hvault, hrecords⟩

/-- One job adds a variable while another one deletes one. The other one takes the lock first, but is
the last to leave its record. -/
theorem Coordinator.serializable_addBesideDelete :
    ∃ moves later performances reached,
      Trace false [] ⟨(Coordinator.of default).stocked "s" "x" "old",
        [Task.add "s" (Dict.ofList [("y", "1")]) false,
          .deleteFromSecrets (Dict.ofList [("s", Names.ofList ["x"])])].map
          (Task.program (Coordinator.of default))⟩ moves later ∧
      later.shared.records = [.secured "y" "s" .create, .secured "x" "s" .delete] ∧
      Serial (Coordinator.of default) ((Coordinator.of default).stocked "s" "x" "old") performances
        reached ∧
      performances.map Performance.task =
        [.deleteFromSecrets (Dict.ofList [("s", Names.ofList ["x"])]),
          .add "s" (Dict.ofList [("y", "1")]) false] ∧
      (Coordinator.of default).Agrees moves later.shared [1, 0] performances reached := by
  obtain ⟨moves, later, htrace, hrecords, htakers, hjobs, hintime⟩ : ∃ moves later,
      Trace false [] ⟨(Coordinator.of default).stocked "s" "x" "old",
        [Task.add "s" (Dict.ofList [("y", "1")]) false,
          .deleteFromSecrets (Dict.ofList [("s", Names.ofList ["x"])])].map
          (Task.program (Coordinator.of default))⟩ moves later ∧
      later.shared.records = [.secured "y" "s" .create, .secured "x" "s" .delete] ∧
      takers moves = [1, 0] ∧ later.jobs = [.done (), .done ()] ∧
      ∀ move ∈ moves, move.inTime = true := by
    apply Exists.intro
    apply Exists.intro
    apply And.intro
    · -- the second job takes the lock
      apply Trace.cons
      · exact @System.Moves.answered false _ _ 1 .lock _ () _ rfl ⟨rfl, rfl⟩
      apply Trace.cons
      · exact @System.Moves.answered false _ _ 1 (.secrets (.list _)) _ _ _ rfl (.inl ⟨rfl, rfl⟩)
      apply Trace.cons
      · exact @System.Moves.answered false _ _ 1 (.startRemoval _ _) _ _ _ rfl (.inl ⟨rfl, rfl⟩)
      apply Trace.cons
      · exact @System.Moves.answered false _ _ 1 .now _ 0 _ rfl rfl
      apply Trace.cons
      · exact @System.Moves.removed false _ _ 1 0 _ _ _ rfl rfl rfl (.inl rfl)
      apply Trace.cons
      · exact @System.Moves.answered false _ _ 1 (.awaitRemovals _ _) _ _ _ rfl
          ⟨rfl, rfl, .inl rfl⟩
      apply Trace.cons
      · exact @System.Moves.answered false _ _ 1 .unlock _ () _ rfl rfl
      -- the first job does all that it has to do
      apply Trace.cons
      · exact @System.Moves.answered false _ _ 0 .lock _ () _ rfl ⟨rfl, rfl⟩
      apply Trace.cons
      · exact @System.Moves.answered false _ _ 0 (.secrets (.read _)) _ _ _ rfl (.inl ⟨rfl, rfl⟩)
      apply Trace.cons
      · exact @System.Moves.answered false _ _ 0 (.secrets (.add _ _ _)) _ _ _ rfl
          (.inl ⟨rfl, rfl⟩)
      apply Trace.cons
      · exact @System.Moves.answered false _ _ 0 .unlock _ () _ rfl rfl
      apply Trace.cons
      · exact @System.Moves.answered false _ _ 0 (.record _) _ () _ rfl rfl
      -- only then the second job leaves its record
      apply Trace.cons
      · exact @System.Moves.answered false _ _ 1 (.record _) _ () _ rfl rfl
      exact Trace.nil _ _
    · exact ⟨rfl, rfl, rfl, List.all_eq_true.mp rfl⟩
  have hdone : ∀ job ∈ later.jobs, job = .done () := by
    rw [hjobs]
    exact List.forall_mem_cons.mpr ⟨rfl, List.forall_mem_singleton.mpr rfl⟩
  have hsecured : ∀ task ∈ [Task.add "s" (Dict.ofList [("y", "1")]) false,
      .deleteFromSecrets (Dict.ofList [("s", Names.ofList ["x"])])], task.IsSecured :=
    List.forall_mem_cons.mpr ⟨trivial, List.forall_mem_singleton.mpr trivial⟩
  obtain ⟨idle, -, hperm, ⟨performances, reached, hserial, htasks⟩, hagrees⟩ :=
    Coordinator.serializable hsecured rfl (fun _ hnone => absurd hnone List.not_mem_nil) htrace
      hintime hdone
  obtain rfl : idle = [] := by
    have hlength := hperm.length_eq
    rw [htakers, List.length_append, List.length_range] at hlength
    exact List.eq_nil_of_length_eq_zero (Nat.add_left_cancel hlength)
  rw [htakers, List.append_nil] at htasks hagrees
  exact ⟨moves, later, performances, reached, htrace, hrecords, hserial, htasks,
    hagrees _ _ hserial htasks⟩

end EngineCatalog
