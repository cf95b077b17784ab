import EngineCatalog.Effect
import EngineCatalog.KeyValue.Remote
import EngineCatalog.KeyValue.Waiter
import EngineCatalog.Rehearsal.Fault
import EngineCatalog.Secret.Vault
import EngineCatalog.Watch

/-!
# The world of a rehearsal

In a rehearsal, operations run over stores in memory and a clock that nobody waits for. `World` is
all there is: the clock, the two stores, the lock, the planned faults, and what has been recorded.

* `Backing` — the key-value store: one in memory, or the client of a remote one that is given
  prepared responses.
* `Cue` — what a job of a rehearsal can ask for: the effects of operations, and what concerns the
  rehearsal itself.
* `Phase` — how far a job has come with what it asks for.
* `attempt` — tries to answer a job at the present moment: it is answered, or it has to wait.
-/

namespace EngineCatalog.Rehearsal

open KeyValue (Call Listing Request Response Remote Store Waiter)
open Secret (Data Label Removal Vault)
open Watch (Cursor)

/-! ## The world -/

/-- The key-value store of a rehearsal. -/
inductive Backing where
  /-- a store in memory -/
  | memory (store : Store)
  /-- the client of a remote store, with the responses that are left -/
  | remote (client : Remote) (responses : List (Outcome Response))

/-- A removal that was started and is not carried out yet. -/
structure Errand where
  /-- by what it is known -/
  ticket : Nat
  /-- when it is carried out -/
  moment : Nat
  /-- the secret -/
  secret : String
  /-- what is removed -/
  keys : Names
  /-- it is rejected with this status and message -/
  rejection : Option (Nat × String)

/-- All there is in a rehearsal. -/
structure World where
  /-- the moment, in milliseconds -/
  clock : Nat
  /-- the key-value store -/
  backing : Backing
  /-- the secrets -/
  vault : Vault
  /-- the planned faults -/
  faults : List Fault
  /-- the job that holds the lock -/
  holder : Option Nat
  /-- the jobs that wait for the lock, in order -/
  queue : List Nat
  /-- what has come of the removals so far, by their tickets -/
  removals : List (Option Removal)
  /-- the removals that were just started -/
  errands : List Errand
  /-- how far the watches have come -/
  cursors : Dict Cursor
  /-- the audit records -/
  records : List Audit.Record
  /-- the requests that were sent -/
  requests : List Request

namespace World

/-- The world at the beginning of a rehearsal. -/
def start (backing : Backing) : World :=
  ⟨0, backing, Vault.empty, [], none, [], [], [], Dict.empty, [], []⟩

/-- The first fault for a call is used once. -/
def takeFault (world : World) (target : Target) (name : String) : Option Fault × World :=
  let (fault, faults) := Fault.take target name world.faults
  (fault, { world with faults := faults })

/-- Takes the next prepared response. -/
def respond (request : Request) (sent : List (Outcome Response) × List Request) :
    Outcome Response × (List (Outcome Response) × List Request) :=
  match sent with
  | ([], requests) =>
    (.error (.transport "no scripted response"), ([], requests ++ [request]))
  | (response :: more, requests) => (response, (more, requests ++ [request]))

/-- The answer to a call of the key-value store at the present moment; none if a sum is too
large. -/
def callStore (world : World) (call : Call) : Option (call.Answer × World) :=
  match world.backing with
  | .memory store =>
    let (answer, after) := store.answer call
    some (answer, { world with backing := .memory after })
  | .remote client responses =>
    match (client.answer call).run (σ := KeyValue.http) respond (responses, world.requests) with
    | none => none
    | some (answer, (more, requests)) =>
      some (answer, { world with backing := .remote client more, requests := requests })

/-- The answer to a call of the secrets' backend. -/
def callVault (world : World) (call : Secret.Call) : call.Answer × World :=
  let (answer, after) := world.vault.answer call
  (answer, { world with vault := after })

/-- The job gives up waiting for the lock. -/
def leaveQueue (world : World) (job : Nat) : World :=
  { world with queue := world.queue.erase job }

/-- The lock goes to the first who waits for it. -/
def unlock (world : World) : World :=
  { world with holder := world.queue.head?, queue := world.queue.drop 1 }

/-- What has come of a removal is known. -/
def settle (world : World) (ticket : Nat) (removal : Removal) : World :=
  { world with removals := world.removals.set ticket (some removal) }

/-- Starts a removal. -/
def startRemoval (world : World) (name : String) (keys : Names) : Outcome Nat × World :=
  let (fault, world) := world.takeFault .startRemoval name
  let ticket := world.removals.length
  let issued := { world with removals := world.removals ++ [none] }
  let errand (delay : Nat) (rejection : Option (Nat × String)) : World :=
    { issued with
      errands := issued.errands ++ [⟨ticket, world.clock + delay, name, keys, rejection⟩] }
  match fault with
  | none => (.ok ticket, errand 0 none)
  | some fault =>
    match fault.error with
    | some error => (.error error, world)
    | none =>
      if fault.drop then (.ok ticket, issued.settle ticket .abandoned)
      else if fault.hang then (.ok ticket, issued)
      else (.ok ticket, errand fault.delay fault.rejection)

/-- Carries out a removal. -/
def carryOut (world : World) (errand : Errand) : World :=
  match errand.rejection with
  | some (status, message) => world.settle errand.ticket (.rejected status message)
  | none =>
    let (removal, vault) := world.vault.finish errand.secret errand.keys
    { world with vault := vault }.settle errand.ticket removal

end World

/-! ## What jobs ask for -/

/-- What a store in memory says of itself. -/
structure Figures where
  /-- its index -/
  index : Nat
  /-- how many keys it has -/
  keys : Nat
  /-- how many tombstones it has -/
  tombstones : Nat

/-- What a job of a rehearsal can ask for. -/
inductive Cue where
  /-- an effect of an operation -/
  | effect (effect : Effect)
  /-- sets a key without a value, past all faults -/
  | putEmpty (path : String)
  /-- creates a secret, past all faults -/
  | seed (name : String) (label : Label) (data : Data)
  /-- the figures of the store in memory, if there is one -/
  | figures
  /-- the cursor of a watch -/
  | recall (watch : String)
  /-- sets the cursor of a watch -/
  | keep (watch : String) (cursor : Cursor)
  /-- plans a fault -/
  | plan (fault : Fault)
  /-- the uses that are left of the planned faults, in order -/
  | usesLeft

/-- The answers to what a job asks for. -/
def Cue.Answer : Cue → Type
  | .effect e => e.Answer
  | .putEmpty _ => Outcome Unit
  | .seed _ _ _ => Outcome Unit
  | .figures => Option Figures
  | .recall _ => Cursor
  | .keep _ _ => Unit
  | .plan _ => Unit
  | .usesLeft => List Nat

/-- Programs that ask for cues. -/
def cues : Signature := ⟨Cue, Cue.Answer⟩

/-! ## Answering -/

/-- How far a job has come with what it asks for. -/
inductive Phase where
  /-- it has just asked -/
  | fresh
  /-- it waits out the delay of a fault -/
  | delayed (moment : Nat) (fault : Fault)
  /-- it waits, but no longer than up to a moment -/
  | waiting (moment : Nat)
  /-- it waits for a change in the key-value store -/
  | listening (waiter : Waiter) (stage : Waiter.Stage)
  /-- it waits until others have done something -/
  | idle
  /-- it waits for nothing that will come -/
  | stuck

/-- What comes of trying to answer. -/
inductive Attempt (answer : Type) where
  /-- an answer -/
  | answered (value : answer) (world : World)
  /-- the job has to wait -/
  | blocked (phase : Phase) (world : World)
  /-- a sum is too large -/
  | overflow

namespace Attempt

variable {α β : Type}

/-- An attempt with its answer replaced. -/
def map (f : α → β) : Attempt α → Attempt β
  | answered value world => answered (f value) world
  | blocked phase world => blocked phase world
  | overflow => overflow

/-- An answer that may be too large. -/
def ofOption : Option (α × World) → Attempt α
  | some (value, world) => answered value world
  | none => overflow

end Attempt

/-- One more than the seconds that the clock can count. -/
def clockSeconds : Nat := Nat.pow 2 63 - 1

/-- The last moment that the clock can count, in nanoseconds. -/
def lastMoment : Nat := clockSeconds * Span.nanosPerSecond - 1

/-- The answer that a fault gives to a call of the key-value store. -/
def Fault.storeAnswer? (fault : Fault) : (call : Call) → Option call.Answer
  | .read _ _ => fault.error.map .error <|> fault.listing.map .ok
  | .await _ _ _ _ => fault.error.map .error <|> fault.listing.map .ok
  | .put _ _ => fault.error.map .error
  | .delete _ _ => fault.error.map .error
  | .transact _ => fault.error.map .error
  | .readMany _ => fault.error.map .error <|> fault.listing.map fun listing => .ok listing.entries

/-- The answer that a fault gives to a call of the secrets' backend. -/
def Fault.secretsAnswer? (fault : Fault) : (call : Secret.Call) → Option call.Answer
  | .list _ => fault.error.map .error
  | .read _ => fault.error.map .error
  | .create _ _ _ => fault.error.map .error
  | .add _ _ _ => fault.error.map .error
  | .update _ _ => fault.error.map .error
  | .remove _ _ => fault.error.map .error

/-- The moment in nanoseconds. -/
def World.moment (world : World) : Nat := world.clock * Span.nanosPerMilli

/-- Goes on with a wait for a change. The index of the store counts the announcements: whoever
writes announces it at once. -/
def waitForChange (world : World) (waiter : Waiter) (stage : Waiter.Stage) :
    Attempt (Outcome Listing) :=
  match world.backing with
  | .memory store =>
    match waiter.rest store store.index world.moment stage with
    | .returned listing => .answered (.ok listing) world
    | stage => .blocked (.listening waiter stage) world
  | .remote _ _ => .blocked .stuck world

/-- Makes a call of the key-value store, once a fault is past. A store in memory lets a wait go on;
a remote store answers at once. -/
def callStore (world : World) : (call : Call) → Attempt call.Answer
  | .await path all since wait =>
    match world.backing with
    | .memory _ =>
      match Waiter.arrive? lastMoment world.moment path all since wait with
      | none => .overflow
      | some waiter => waitForChange world waiter .called
    | .remote _ _ => .ofOption (world.callStore (.await path all since wait))
  | call => .ofOption (world.callStore call)

/-- Goes on with a wait that was begun, if the call is one. -/
def resumeWait (world : World) (waiter : Waiter) (stage : Waiter.Stage) :
    (call : Call) → Attempt call.Answer
  | .await _ _ _ _ => waitForChange world waiter stage
  | _ => .blocked .stuck world

/-- Tries to answer after the delay of a fault: the fault answers, or the call is made. -/
def afterFault {answer : Type} (world : World) (fault : Fault) (planned : Option answer)
    (call : World → Attempt answer) : Attempt answer :=
  if fault.hang then .blocked .stuck world
  else
    match planned with
    | some value => .answered value world
    | none => call world

/-- Tries to answer a call that faults may meet. -/
def attemptCall {answer : Type} (phase : Phase) (world : World) (about : Target × String)
    (planned : Fault → Option answer) (call : World → Attempt answer)
    (resume : Waiter → Waiter.Stage → Attempt answer) : Attempt answer :=
  match phase with
  | .fresh =>
    match world.takeFault about.1 about.2 with
    | (none, world) => call world
    | (some fault, world) =>
      if fault.delay = 0 then afterFault world fault (planned fault) call
      else .blocked (.delayed (world.clock + fault.delay) fault) world
  | .delayed moment fault =>
    if moment ≤ world.clock then afterFault world fault (planned fault) call
    else .blocked phase world
  | .listening waiter stage => resume waiter stage
  | .waiting _ => .blocked phase world
  | .idle => .blocked phase world
  | .stuck => .blocked phase world

/-- Tries to give the lock to a job. -/
def attemptLock (job : Nat) (phase : Phase) (world : World) : Attempt Unit :=
  match phase with
  | .fresh =>
    match world.holder with
    | none => .answered () { world with holder := some job }
    | some _ => .blocked .idle { world with queue := world.queue ++ [job] }
  | phase =>
    if world.holder = some job then .answered () world
    else .blocked phase world

/-- Tries to end a sleep. -/
def attemptSleep (millis : Nat) (phase : Phase) (world : World) : Attempt Unit :=
  match phase with
  | .waiting moment =>
    if moment ≤ world.clock then .answered () world else .blocked phase world
  | _ =>
    if millis = 0 then .answered () world
    else .blocked (.waiting (world.clock + millis)) world

/-- What has come of some removals so far. -/
def removalsOf (world : World) (tickets : List Nat) : List (Option Removal) :=
  tickets.map fun ticket => (world.removals[ticket]?).join

/-- Tries to say what has come of removals. -/
def attemptRemovals (tickets : List Nat) (moment : Option Nat) (world : World) :
    Attempt (List (Option Removal)) :=
  let found := removalsOf world tickets
  if found.all Option.isSome || moment.any (· ≤ world.clock) then .answered found world
  else .blocked ((moment.map Phase.waiting).getD .idle) world

/-- Tries to answer an effect. -/
def attemptEffect (job : Nat) (phase : Phase) (world : World) :
    (effect : Effect) → Attempt effect.Answer
  | .store call =>
    attemptCall phase world (Target.ofStore call) (fun fault => fault.storeAnswer? call)
      (fun world => callStore world call) (fun waiter stage => resumeWait world waiter stage call)
  | .secrets call =>
    attemptCall phase world (Target.ofSecrets call) (fun fault => fault.secretsAnswer? call)
      (fun world => .ofOption (some (world.callVault call)))
      (fun _ _ => .blocked .stuck world)
  | .startRemoval name keys => .ofOption (some (world.startRemoval name keys))
  | .awaitRemovals tickets moment => attemptRemovals tickets moment world
  | .lock => attemptLock job phase world
  | .unlock => .answered () world.unlock
  | .record record => .answered () { world with records := world.records ++ [record] }
  | .now => .answered world.clock world
  | .sleep millis => attemptSleep millis phase world
  | .choose _ => .answered (0 : Nat) world
  | .until moment effect =>
    match attemptEffect job phase world effect with
    | .answered value world => .answered (some value) world
    | .blocked phase world =>
      if moment ≤ world.clock then .answered none (world.leaveQueue job)
      else .blocked phase world
    | .overflow => .overflow

/-- The moment at which a job that waits is to be tried again, if nothing else happens before. -/
def wakeMoment (phase : Phase) : Effect → Option Nat
  | .until moment effect =>
    match wakeMoment phase effect with
    | some earlier => some (min moment earlier)
    | none => some moment
  | _ =>
    match phase with
    | .delayed moment _ => some moment
    | .waiting moment => some moment
    | .listening waiter _ => some ((waiter.deadline + Span.nanosPerMilli - 1) / Span.nanosPerMilli)
    | _ => none

/-- The figures of a store in memory. -/
def figuresOf : Backing → Option Figures
  | .memory store => some ⟨store.index, store.entries.size, store.tombstones.size⟩
  | .remote _ _ => none

/-- Sets a key without a value. -/
def putEmpty (world : World) (path : String) : Outcome Unit × World :=
  match world.backing with
  | .memory store =>
    let (outcome, after) := store.settle (store.putEmpty path)
    (outcome, { world with backing := .memory after })
  | .remote _ _ => (.error (.fatal "no store in memory"), world)

/-- Tries to answer a job. -/
def attempt (job : Nat) (phase : Phase) (world : World) : (cue : Cue) → Attempt cue.Answer
  | .effect e => attemptEffect job phase world e
  | .putEmpty path => .ofOption (some (putEmpty world path))
  | .seed name label data =>
    .ofOption (some (world.callVault (.create name label data)))
  | .figures => .answered (figuresOf world.backing) world
  | .recall watch => .answered ((world.cursors.find? watch).getD Cursor.start) world
  | .keep watch cursor =>
    .answered () { world with cursors := world.cursors.insert watch cursor }
  | .plan fault => .answered () { world with faults := world.faults ++ [fault] }
  | .usesLeft => .answered (world.faults.map Fault.uses) world

end EngineCatalog.Rehearsal
