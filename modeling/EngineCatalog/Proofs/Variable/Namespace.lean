import EngineCatalog.Proofs.Variable.Writes

/-!
# One namespace over two stores

What the coordinator is asked to do one after the other keeps the two halves of the namespace apart,
even if calls fail on the way (`Coordinator.apart_of_sequence`). What it is asked to do side by side
keeps them apart if no task makes common what another one puts into the default secret
(`Coordinator.Permitted.reaches`).

* `Permitted` — the invariant of systems: permits in accord, each covering what is left of its job.
* `Sequence` — tasks that follow one another, each begun when the one before has ended.
-/

namespace EngineCatalog

namespace Coordinator

variable {coordinator : Coordinator} {rights : Nat → Rights} {faulty : Bool}
  {system later : System} {shared after : Shared}

/-- The tasks side by side, over what they share. -/
def concurrently (coordinator : Coordinator) (shared : Shared) (tasks : List Task) : System :=
  ⟨shared, tasks.map (Task.program coordinator)⟩

/-! ## Systems -/

/-- There are permits in accord, each covering what is left of its job. -/
def Permitted (coordinator : Coordinator) (rights : Nat → Rights) (system : System) : Prop :=
  ∃ permits, Guarded coordinator permits system.shared rights ∧
    (∀ job program, system.jobs[job]? = some program →
      Covers coordinator (rights job) true (permits job) program
        fun _ later => later.held = false) ∧
    ∀ job, system.jobs[job]? = none → (permits job).held = false

theorem Permitted.isApart (h : Permitted coordinator rights system) :
    coordinator.Apart system.shared := by
  obtain ⟨permits, hguarded, -⟩ := h
  exact hguarded.isApart

theorem Permitted.step
    (hrights : ∀ job other, ∀ name ∈ (rights job).secures, name ∉ (rights other).publishes)
    (h : Permitted coordinator rights system) (hstep : System.Step faulty system later) :
    Permitted coordinator rights later := by
  obtain ⟨permits, hguarded, hcovers, hidle⟩ := h
  cases hstep with
  | removed hstarted hpending hcomes =>
    exact ⟨permits, hguarded.comes _ hcomes, hcovers, hidle⟩
  | answered hjob hanswers =>
    rename_i job effect next answer after
    obtain ⟨hallows, hnext⟩ := hcovers job _ hjob
    have hlt : job < system.jobs.length := (List.getElem?_eq_some_iff.mp hjob).1
    -- only the permit of the job that was answered changes
    refine ⟨_, hguarded.next (hrights job) hallows hanswers, ?_, ?_⟩
    · intro other program hother
      rcases System.of_set_job hother with ⟨rfl, rfl⟩ | ⟨hne, hother⟩
      · rw [Function.update_self]
        exact hnext answer
      · rw [Function.update_of_ne hne]
        exact hcovers other program hother
    · intro other hother
      have hne : other ≠ job := by
        rintro rfl
        rw [List.getElem?_set_self hlt] at hother
        cases hother
      rw [List.getElem?_set_ne (Ne.symm hne)] at hother
      rw [Function.update_of_ne hne]
      exact hidle other hother

theorem Permitted.reaches
    (hrights : ∀ job other, ∀ name ∈ (rights job).secures, name ∉ (rights other).publishes)
    (h : Permitted coordinator rights system) (hreaches : System.Reaches faulty system later) :
    Permitted coordinator rights later := by
  induction hreaches with
  | refl => exact h
  | tail _ hstep ih => exact ih.step hrights hstep

/-- When all jobs are done, nobody holds the lock. -/
theorem Permitted.holder_eq_none (h : Permitted coordinator rights system)
    (hdone : ∀ program ∈ system.jobs, program = .done ()) : system.shared.holder = none := by
  obtain ⟨permits, hguarded, hcovers, hidle⟩ := h
  rw [Option.eq_none_iff_forall_ne_some]
  intro job hholder
  have hheld := (hguarded.holder job).mpr hholder
  cases hjob : system.jobs[job]? with
  | none =>
    rw [hidle job hjob] at hheld
    cases hheld
  | some program =>
    obtain rfl := hdone program (List.mem_of_getElem? hjob)
    have hend : (permits job).held = false := hcovers job _ hjob
    rw [hend] at hheld
    cases hheld

/-- The rights of each of some tasks, and none for those that are not there. -/
def rightsOf (coordinator : Coordinator) (tasks : List Task) (job : Nat) : Rights :=
  (tasks[job]?).elim ⟨∅, ∅⟩ (Task.rights coordinator)

theorem permitted_concurrently (hapart : coordinator.Apart shared)
    (hfree : shared.holder = none) (tasks : List Task) :
    Permitted coordinator (coordinator.rightsOf tasks)
      (coordinator.concurrently shared tasks) := by
  refine ⟨_, Guarded.start hapart hfree, fun job program hjob => ?_, fun _ _ => rfl⟩
  have hmap : (tasks.map (Task.program coordinator))[job]? = some program := hjob
  rw [List.getElem?_map, Option.map_eq_some_iff] at hmap
  obtain ⟨task, htask, rfl⟩ := hmap
  rw [rightsOf, htask]
  exact task.covers coordinator rfl

/-! ## Side by side -/

/-- Of two tasks, one makes a name common that the other one puts into the default secret. -/
def Conflict (coordinator : Coordinator) (tasks : List Task) : Prop :=
  ∃ (first second : Nat) (securing publishing : Task) (name : String), first ≠ second ∧
    tasks[first]? = some securing ∧ tasks[second]? = some publishing ∧
    name ∈ securing.secures coordinator ∧ name ∈ publishing.publishes coordinator

theorem apart_of_no_conflict {tasks : List Task} (hconflict : ¬ coordinator.Conflict tasks)
    (hapart : coordinator.Apart shared) (hfree : shared.holder = none)
    (hreaches : System.Reaches faulty (coordinator.concurrently shared tasks) system) :
    coordinator.Apart system.shared := by
  have hrights : ∀ job other, ∀ name ∈ (coordinator.rightsOf tasks job).secures,
      name ∉ (coordinator.rightsOf tasks other).publishes := by
    intro job other name hsecures hpublishes
    rw [rightsOf] at hsecures hpublishes
    cases hsecuring : tasks[job]? with
    | none =>
      rw [hsecuring] at hsecures
      exact hsecures
    | some securing =>
      cases hpublishing : tasks[other]? with
      | none =>
        rw [hpublishing] at hpublishes
        exact hpublishes
      | some publishing =>
        rw [hsecuring] at hsecures
        rw [hpublishing] at hpublishes
        by_cases heq : job = other
        · -- a task has no conflict with itself
          subst heq
          obtain rfl := Option.some.inj (hsecuring.symm.trans hpublishing)
          exact securing.disjoint_rights coordinator hsecures hpublishes
        · exact hconflict ⟨job, other, securing, publishing, name, heq, hsecuring, hpublishing,
            hsecures, hpublishes⟩
  exact ((permitted_concurrently hapart hfree tasks).reaches hrights hreaches).isApart

/-- A conflict breaks the namespace: the one task goes on up to its write and no further, the other
one runs to its end, and then the first one writes. -/
theorem collides_of_conflict {tasks : List Task} (hconflict : coordinator.Conflict tasks)
    (hopen : Open coordinator shared) :
    ∃ system, System.Reaches faulty (coordinator.concurrently shared tasks) system ∧
      ¬ coordinator.Apart system.shared := by
  obtain ⟨first, second, securing, publishing, name, hne, hsecuring, hpublishing, hsecures,
    hpublishes⟩ := hconflict
  obtain ⟨_, t, hruns, hopen', effect, next, rfl, hanswers⟩ :=
    Task.publishes_runs faulty second hopen hpublishes
  obtain ⟨u, hruns', hsecured⟩ := Task.secures_runs faulty first hopen' hsecures
  obtain ⟨answer, v, hanswer, hvault, hcommon⟩ := hanswers u
  let jobs := tasks.map (Task.program coordinator)
  let halted : Program effects Unit := .ask (σ := effects) effect next
  have hfirst : jobs[first]? = some (securing.program coordinator) := by
    rw [List.getElem?_map, hsecuring]
    rfl
  have hsecond : jobs[second]? = some (publishing.program coordinator) := by
    rw [List.getElem?_map, hpublishing]
    rfl
  have hlt : second < jobs.length := (List.getElem?_eq_some_iff.mp hsecond).1
  -- the second job halts before its write
  have hhalt : System.Reaches faulty ⟨shared, jobs⟩ ⟨t, jobs.set second halted⟩ :=
    hruns.reaches hsecond
  -- the first one runs to its end
  have hrest : (jobs.set second halted)[first]? = some (securing.program coordinator) := by
    rw [List.getElem?_set_ne (Ne.symm hne)]
    exact hfirst
  have hend := hruns'.reaches hrest
  -- the second one writes
  have hwaits : ((jobs.set second halted).set first (.done ()))[second]? = some halted := by
    rw [List.getElem?_set_ne hne]
    exact List.getElem?_set_self hlt
  have hwrite : System.Step faulty ⟨u, (jobs.set second halted).set first (.done ())⟩
      ⟨v, ((jobs.set second halted).set first (.done ())).set second (next answer)⟩ :=
    .answered hwaits hanswer
  refine ⟨_, (hhalt.trans hend).tail hwrite, fun hapart => ?_⟩
  have hheld : (coordinator.securedIn v.vault).contains name = true := by
    rw [hvault]
    exact hsecured
  rw [hapart name hcommon] at hheld
  cases hheld

/-- Nothing is stored but an empty default secret. -/
def opening (coordinator : Coordinator) : Shared :=
  ⟨KeyValue.Store.fresh KeyValue.Store.usualLimit,
    ⟨Dict.empty.insert coordinator.keeper.defaultName ⟨coordinator.keeper.label, Dict.empty⟩⟩,
    none, [], []⟩

theorem open_opening (coordinator : Coordinator) : Open coordinator coordinator.opening := by
  refine ⟨rfl, ?_, rfl⟩
  have hfind : coordinator.opening.vault.secrets.find? coordinator.keeper.defaultName
      = some ⟨coordinator.keeper.label, Dict.empty⟩ := Dict.find?_insert_self _ _ _
  rw [Secret.Vault.read, hfind]
  rfl

theorem apart_opening (coordinator : Coordinator) : coordinator.Apart coordinator.opening := by
  intro name hcommon
  obtain ⟨-, hkey⟩ := contains_commonIn.mp hcommon
  cases hkey

/-- **Side by side, tasks keep the namespace in one piece exactly if they do not conflict.** From
all stores in which no name is both common and secured, and in every order of steps, no name ever
is, if and only if no task makes a name common that another one puts into the default secret. The
lock does not help where they conflict, as it is released between the check of a common variable and
its write. -/
theorem apart_iff_no_conflict (coordinator : Coordinator) (faulty : Bool) (tasks : List Task) :
    (∀ shared system, coordinator.Apart shared → shared.holder = none →
      System.Reaches faulty (coordinator.concurrently shared tasks) system →
      coordinator.Apart system.shared) ↔ ¬ coordinator.Conflict tasks := by
  constructor
  · intro h hconflict
    obtain ⟨system, hreaches, hbroken⟩ := collides_of_conflict hconflict (open_opening coordinator)
    exact hbroken (h _ system (apart_opening coordinator) rfl hreaches)
  · intro hconflict shared system hapart hfree hreaches
    exact apart_of_no_conflict hconflict hapart hfree hreaches

/-- The usual coordinator writes a common variable while a variable of the same name is added to the
default secret. No call fails, and both variables are there in the end. -/
theorem collision_of_addCommon_addDefaults :
    (Coordinator.of default).Apart (Coordinator.of default).opening ∧
    ∃ system, System.Reaches false ((Coordinator.of default).concurrently
        (Coordinator.of default).opening
        [.addCommon "x" "1", .addDefaults (Dict.ofList [("x", "2")])]) system ∧
      ¬ (Coordinator.of default).Apart system.shared := by
  refine ⟨apart_opening _, collides_of_conflict ?_ (open_opening _)⟩
  refine ⟨1, 0, .addDefaults (Dict.ofList [("x", "2")]), .addCommon "x" "1", "x",
    by decide, rfl, rfl, ⟨by decide, ?_, by decide⟩, ⟨rfl, by decide, by decide⟩⟩
  intro other hother
  obtain rfl : other = "x" := List.mem_singleton.mp (Dict.contains_ofList.mp hother)
  decide

/-! ## One after the other -/

/-- Tasks that follow one another: each is begun when the one before has ended, with whatever it
came to. -/
inductive Sequence (coordinator : Coordinator) (faulty : Bool) :
    Shared → List Task → Shared → Prop where
  /-- no task -/
  | nil (shared : Shared) : Sequence coordinator faulty shared [] shared
  /-- a task, and then others -/
  | cons {before between after : Shared} {task : Task} {more : List Task}
    (hfirst : System.Reaches faulty (coordinator.concurrently before [task])
      ⟨between, [.done ()]⟩)
    (hmore : Sequence coordinator faulty between more after) :
    Sequence coordinator faulty before (task :: more) after

/-- A single task keeps the halves apart, and gives the lock back. -/
theorem apart_of_task (hapart : coordinator.Apart shared) (hfree : shared.holder = none)
    {task : Task} (hreaches : System.Reaches faulty (coordinator.concurrently shared [task])
      ⟨after, [.done ()]⟩) :
    coordinator.Apart after ∧ after.holder = none := by
  have hrights : ∀ job other, ∀ name ∈ (coordinator.rightsOf [task] job).secures,
      name ∉ (coordinator.rightsOf [task] other).publishes := by
    intro job other name hsecures hpublishes
    -- there is one job, so its rights are the only ones
    match job, other with
    | 0, 0 => exact task.disjoint_rights coordinator hsecures hpublishes
    | 0, _ + 1 => exact hpublishes
    | _ + 1, _ => exact hsecures
  have hend : Permitted coordinator (coordinator.rightsOf [task]) ⟨after, [.done ()]⟩ :=
    (permitted_concurrently hapart hfree [task]).reaches hrights hreaches
  refine ⟨hend.isApart, hend.holder_eq_none fun program hprogram => ?_⟩
  exact List.mem_singleton.mp hprogram

/-- **One after the other, tasks keep the namespace in one piece.** If no name is both common and
secured at first, none is after any sequence of tasks, whichever calls failed and whatever the tasks
came to. -/
theorem apart_of_sequence (coordinator : Coordinator) (faulty : Bool) {before after : Shared}
    {tasks : List Task} (hapart : coordinator.Apart before) (hfree : before.holder = none)
    (h : Sequence coordinator faulty before tasks after) : coordinator.Apart after := by
  induction h with
  | nil => exact hapart
  | cons hfirst _ ih =>
    obtain ⟨hbetween, hreleased⟩ := apart_of_task hapart hfree hfirst
    exact ih hbetween hreleased

/-- One variable is common, and another one is in the default secret. -/
def oneEach (coordinator : Coordinator) : Shared :=
  { coordinator.opening with
    store := coordinator.opening.store.after
      [.put (coordinator.catalog.layout.variableKey "y") (Text.encode "1")]
    vault := ⟨Dict.empty.insert coordinator.keeper.defaultName
      ⟨coordinator.keeper.label, Dict.ofList [("x", "2")]⟩⟩ }

theorem keys_commonIn_oneEach :
    ((Coordinator.of default).commonIn (Coordinator.of default).oneEach.store).keys = ["y"] := by
  decide

theorem apart_oneEach : (Coordinator.of default).Apart (Coordinator.of default).oneEach := by
  intro name hname
  rw [← Dict.mem_keys_iff, keys_commonIn_oneEach, List.mem_singleton] at hname
  subst hname
  decide

/-- A third variable is to be common, and the store fails at its last call. -/
theorem runs_addCommon_oneEach :
    Runs true 0 ((Task.addCommon "z" "3").program (Coordinator.of default))
      (Coordinator.of default).oneEach (.done ()) (Coordinator.of default).oneEach := by
  refine .step .lock () ⟨rfl, rfl⟩ ?_
  refine .step (.secrets (.read _)) (.ok (some (Dict.ofList [("x", "2")]))) (.inl ⟨rfl, rfl⟩) ?_
  refine .step .unlock () rfl ?_
  refine .step (.store (.read _ false)) (.error (.notFound _)) (.inl ⟨rfl, rfl⟩) ?_
  refine .step (.store (.put _ _)) (.error (.transport "refused"))
    (.inr ⟨rfl, rfl, _, trivial, rfl⟩) ?_
  exact .refl _ _

/-- It is added to the default secret, and no call fails. -/
theorem runs_add_oneEach :
    ∃ after, Runs true 0
        ((Task.add "DEFAULT" (Dict.ofList [("z", "4")]) false).program (Coordinator.of default))
        (Coordinator.of default).oneEach (.done ()) after ∧
      ((Coordinator.of default).commonIn after.store).keys = ["y"] ∧
      ((Coordinator.of default).securedIn after.vault).keys = ["x", "z"] := by
  refine ⟨{ (Coordinator.of default).oneEach with
    vault := ((Coordinator.of default).oneEach.vault.answer
      (.add (Coordinator.of default).keeper.defaultName (Dict.ofList [("z", "4")]) false)).2
    records := [.secured "z" (Coordinator.of default).keeper.defaultName .create] },
    ?_, keys_commonIn_oneEach, by decide⟩
  refine .step .lock () ⟨rfl, rfl⟩ ?_
  refine .step (.secrets (.read _)) (.ok (some (Dict.ofList [("x", "2")]))) (.inl ⟨rfl, rfl⟩) ?_
  refine .step (.store (.read _ true)) _ (.inl ⟨rfl, rfl⟩) ?_
  refine .step (.secrets (.add _ _ _)) _ (.inl ⟨rfl, rfl⟩) ?_
  refine .step .unlock () rfl ?_
  refine .step (.record _) () rfl ?_
  exact .refl _ _

/-- Where one variable is common and another one secured, a third one is not made common, as the
store fails. By another name for the default secret it is added there then. -/
theorem apart_of_sequence_add :
    (Coordinator.of default).Apart (Coordinator.of default).oneEach ∧
    ∃ after, Sequence (Coordinator.of default) true (Coordinator.of default).oneEach
        [.addCommon "z" "3", .add "DEFAULT" (Dict.ofList [("z", "4")]) false] after ∧
      ((Coordinator.of default).commonIn after.store).keys = ["y"] ∧
      ((Coordinator.of default).securedIn after.vault).keys = ["x", "z"] ∧
      (Coordinator.of default).Apart after := by
  obtain ⟨after, hadded, hcommon, hsecured⟩ := runs_add_oneEach
  have hsequence : Sequence (Coordinator.of default) true (Coordinator.of default).oneEach
      [.addCommon "z" "3", .add "DEFAULT" (Dict.ofList [("z", "4")]) false] after :=
    .cons (runs_addCommon_oneEach.reaches rfl) (.cons (hadded.reaches rfl) (.nil after))
  exact ⟨apart_oneEach, after, hsequence, hcommon, hsecured,
    apart_of_sequence _ true apart_oneEach rfl hsequence⟩

end Coordinator

end EngineCatalog
