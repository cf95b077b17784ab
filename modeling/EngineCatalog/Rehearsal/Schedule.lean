import EngineCatalog.Rehearsal.World

/-!
# Running jobs beside one another

A job is a program that asks for cues. Jobs stand in a line, and with them the removals that were
started. The first in the line that can go on does so until it has to wait, and then stands last,
with the removals that it started behind it. When none can go on the clock moves to the next moment
at which one can.

* `Job.advance` — runs a job until it is done or has to wait.
* `Line.step` — one turn: somebody goes on, or the clock moves.
* `play` — runs the jobs of one scene to their end. Removals that are not carried out by then stay
  in the line.
-/

namespace EngineCatalog.Rehearsal

variable {α : Type}

/-- A program for a rehearsal. -/
abbrev Script (α : Type) : Type := Program cues α

/-- A job that waits. -/
structure Job (α : Type) where
  /-- by what it is known -/
  id : Nat
  /-- how far it has come with what it asks for -/
  phase : Phase
  /-- the rest of its program -/
  rest : Script α

/-- What comes of running a job. -/
inductive Job.Outcome (α : Type) where
  /-- it is done -/
  | done (result : α) (world : World)
  /-- it has to wait -/
  | waits (job : Job α) (world : World)
  /-- a sum is too large -/
  | overflow

/-- Runs a program until it is done or has to wait. -/
def advance (id : Nat) : Script α → Phase → World → Job.Outcome α
  | .done result, _, world => .done result world
  | .overflow, _, _ => .overflow
  | .ask cue next, phase, world =>
    match attempt id phase world cue with
    | .answered value world => advance id (next value) .fresh world
    | .blocked phase world => .waits ⟨id, phase, .ask cue next⟩ world
    | .overflow => .overflow

namespace Job

/-- What a job asks for can be answered at the present moment. -/
def isAnswered (job : Job α) (world : World) : Bool :=
  match job.rest with
  | .ask cue _ =>
    match attempt job.id job.phase world cue with
    | .blocked _ _ => false
    | _ => true
  | _ => true

/-- A job can go on at the present moment. At the end of a fault's delay it does in any case, if
only to wait for something else. -/
def canGoOn (job : Job α) (world : World) : Bool :=
  match job.phase with
  | .fresh => true
  | .delayed moment _ => moment ≤ world.clock || job.isAnswered world
  | _ => job.isAnswered world

/-- The moment at which a job can go on, if nothing else happens before. -/
def wake? (job : Job α) : Option Nat :=
  match job.rest with
  | .ask (.effect e) _ => wakeMoment job.phase e
  | _ => none

end Job

/-- Who stands in the line. -/
inductive Turn (α : Type) where
  /-- a job -/
  | job (job : Job α)
  /-- a removal that was started -/
  | errand (errand : Errand)

namespace Turn

/-- It can go on at the present moment. -/
def canGoOn (world : World) : Turn α → Bool
  | job one => one.canGoOn world
  | errand one => one.moment ≤ world.clock

/-- The moment at which it can go on, if nothing else happens before. -/
def wake? : Turn α → Option Nat
  | job one => one.wake?
  | errand one => some one.moment

/-- It is a job. -/
def isJob : Turn α → Bool
  | job _ => true
  | errand _ => false

end Turn

/-- A job that is done. -/
structure Finished (α : Type) where
  /-- which job -/
  id : Nat
  /-- what it came to -/
  result : α
  /-- when it was done -/
  moment : Nat

/-- The line, the world and the jobs that are done. -/
structure Line (α : Type) where
  /-- who stands in the line -/
  turns : List (Turn α)
  /-- the world -/
  world : World
  /-- the jobs that are done -/
  finished : List (Finished α)

namespace Line

/-- Splits a line before the first one that can go on. -/
def split (world : World) : List (Turn α) → Option (List (Turn α) × Turn α × List (Turn α))
  | [] => none
  | turn :: more =>
    if turn.canGoOn world then some ([], turn, more)
    else (split world more).map fun (before, one, after) => (turn :: before, one, after)

/-- The removals that were just started stand last. -/
def enlist (line : Line α) : Line α :=
  { line with
    turns := line.turns ++ line.world.errands.map .errand
    world := { line.world with errands := [] } }

/-- One goes on; the others stand before and after it. -/
def goOn (line : Line α) (others : List (Turn α)) : Turn α → Option (Line α)
  | .errand one =>
    some { line with turns := others, world := line.world.carryOut one }
  | .job one =>
    match advance one.id one.rest one.phase line.world with
    | .overflow => none
    | .waits one world =>
      some (enlist { line with turns := others ++ [.job one], world := world })
    | .done result world =>
      let finished := line.finished ++ [⟨one.id, result, world.clock⟩]
      some (enlist ⟨others, world, finished⟩)

/-- One turn: the first that can go on does, or the clock moves. No line is left at a sum that is
too large, and the same line if nothing will ever happen. -/
def step (line : Line α) : Option (Line α) :=
  match split line.world line.turns with
  | some (before, turn, after) => line.goOn (before ++ after) turn
  | none =>
    match (line.turns.filterMap Turn.wake?).min? with
    | none => some line
    | some moment =>
      some { line with world := { line.world with clock := max line.world.clock moment } }

/-- Some job is not done. -/
def isBusy (line : Line α) : Bool :=
  line.turns.any Turn.isJob

/-- Takes turns until all jobs are done, but no more than so many. -/
def run : Nat → Line α → Option (Line α)
  | 0, line => some line
  | turns + 1, line => if line.isBusy then line.step >>= run turns else some line

end Line

/-! ## Scenes -/

/-- What is run at one time: the jobs of the scene itself, and jobs beside them that start some
milliseconds later. -/
structure Scene (α : Type) where
  /-- the jobs of the scene -/
  main : List (Script α)
  /-- the jobs beside them -/
  beside : List (Nat × Script α)

/-- What came of a scene. -/
structure Played (α : Type) where
  /-- what the jobs of the scene came to -/
  results : List α
  /-- how many milliseconds they took -/
  millis : Nat
  /-- what the jobs beside them came to -/
  beside : List α

/-- A rehearsal between two scenes. -/
structure Stage where
  /-- the world -/
  world : World
  /-- the removals that are not carried out yet -/
  errands : List Errand

/-- The rehearsal before its first scene. -/
def Stage.open (backing : Backing) : Stage := ⟨World.start backing, []⟩

/-- A program that starts after some milliseconds. -/
def later (millis : Nat) (script : Script α) : Script α :=
  .ask (σ := cues) (Cue.effect (.sleep millis)) fun _ => script

/-- Jobs with their numbers, the first of them `id`. -/
def enroll (id : Nat) : List (Script α) → List (Turn α)
  | [] => []
  | script :: more => .job ⟨id, .fresh, script⟩ :: enroll (id + 1) more

/-- The results of the jobs with numbers from one up to below another. -/
def resultsOf (finished : List (Finished α)) (first bound : Nat) : List α :=
  (List.range' first (bound - first)).filterMap fun id =>
    (finished.find? fun one => one.id = id).map Finished.result

/-- The removals that stand in a line. -/
def errandsOf : List (Turn α) → List Errand
  | [] => []
  | .errand one :: more => one :: errandsOf more
  | .job _ :: more => errandsOf more

/-- How many turns a scene may take. -/
def patience : Nat := 1000000

/-- Runs a scene. No result is left if a sum is too large. -/
def Stage.play (stage : Stage) (scene : Scene α) : Option (Played α × Stage) := do
  let scripts := scene.main ++ scene.beside.map fun (millis, script) => later millis script
  let world := { stage.world with records := [], requests := [] }
  let line ← Line.run patience
    ⟨enroll 0 scripts ++ stage.errands.map .errand, world, []⟩
  let count := scene.main.length
  let moments := (line.finished.filter fun one => one.id < count).map Finished.moment
  let last := moments.foldl max world.clock
  return (
    { results := resultsOf line.finished 0 count
      millis := last - world.clock
      beside := resultsOf line.finished count scripts.length },
    ⟨line.world, errandsOf line.turns⟩)

end EngineCatalog.Rehearsal
