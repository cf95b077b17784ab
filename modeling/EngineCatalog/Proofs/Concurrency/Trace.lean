import EngineCatalog.Proofs.Concurrency.System
import EngineCatalog.Proofs.Program.Follows

/-!
# Traces

A trace tells how a system came to be where it is: move by move, and for each move whose it is. A job
makes a move when it is answered, and also when something comes of a removal that it started, which
may be long after it has gone on.

* `Move` — a move with its job and what is shared before and after it.
* `Trace` — the moves of a system, one after the other. A system has a trace to whatever it reaches
  (`reaches_iff_trace`).
* `exchanges` — what a job was answered along some moves.
* `Runs.trace` — the trace of a job that goes on by itself.
-/

namespace EngineCatalog

open Secret (Removal Vault)

/-! ## Moves -/

/-- A move of a job. -/
structure Move where
  /-- the job -/
  job : Nat
  /-- what it is answered; none if something comes of a removal that it started -/
  exchange : Option (Exchange effects)
  /-- what is shared before -/
  before : Shared
  /-- what is shared after -/
  after : Shared

/-- Those who started the removals, by ticket. Who makes the move has started what is new after
it. -/
def Move.owners (owners : List Nat) (move : Move) : List Nat :=
  owners ++ List.replicate (move.after.started.length - owners.length) move.job

/-- What a job is answered along some moves. -/
def exchanges (job : Nat) (moves : List Move) : List (Exchange effects) :=
  moves.filterMap fun move => if move.job = job then move.exchange else none

/-- One move of a system, where it is known who started the removals. -/
inductive System.Moves (faulty : Bool) (owners : List Nat) (system : System) :
    Move → System → Prop where
  /-- a job is answered and goes on -/
  | answered {job : Nat} {effect : Effect} {next : effect.Answer → Program effects Unit}
    {answer : effect.Answer} {after : Shared}
    (hjob : system.jobs[job]? = some (.ask (σ := effects) effect next))
    (hanswers : Answers faulty job effect system.shared answer after) :
    Moves faulty owners system ⟨job, some ⟨effect, answer⟩, system.shared, after⟩
      ⟨after, system.jobs.set job (next answer)⟩
  /-- something comes of a removal that a job started -/
  | removed {job ticket : Nat} {started : Started} {removal : Removal} {vault : Vault}
    (howner : owners[ticket]? = some job)
    (hstarted : system.shared.started[ticket]? = some started)
    (hpending : started.removal = none)
    (hcomes : Comes faulty started system.shared.vault removal vault) :
    Moves faulty owners system
      ⟨job, none, system.shared, system.shared.settle ticket started removal vault⟩
      ⟨system.shared.settle ticket started removal vault, system.jobs⟩

/-- The moves of a system, one after the other. -/
inductive Trace (faulty : Bool) : List Nat → System → List Move → System → Prop where
  /-- no move -/
  | nil (owners : List Nat) (system : System) : Trace faulty owners system [] system
  /-- a move, and then others -/
  | cons {owners : List Nat} {system between later : System} {move : Move} {more : List Move}
    (hmove : System.Moves faulty owners system move between)
    (hmore : Trace faulty (move.owners owners) between more later) :
    Trace faulty owners system (move :: more) later

namespace System.Moves

variable {faulty : Bool} {owners : List Nat} {system later : System} {move : Move}

theorem before_eq (h : Moves faulty owners system move later) : move.before = system.shared := by
  cases h <;> rfl

theorem after_eq (h : Moves faulty owners system move later) : move.after = later.shared := by
  cases h <;> rfl

theorem answers (h : Moves faulty owners system move later) {exchange : Exchange effects}
    (hexchange : move.exchange = some exchange) :
    Answers faulty move.job exchange.request move.before exchange.answer move.after := by
  cases h with
  | answered _ hanswers =>
    obtain rfl := Option.some.inj hexchange
    exact hanswers
  | removed _ _ _ _ => cases hexchange

theorem step (h : Moves faulty owners system move later) : Step faulty system later := by
  cases h with
  | answered hjob hanswers => exact .answered hjob hanswers
  | removed _ hstarted hpending hcomes => exact .removed hstarted hpending hcomes

end System.Moves

/-! ## What an answer may change -/

/-- What a job that asks for an effect may make of what is shared: one thing is changed at most. -/
inductive Alters (job : Nat) (before : Shared) : Effect → Shared → Prop where
  /-- nothing is changed -/
  | nothing (effect : Effect) : Alters job before effect before
  /-- the key-value store is changed -/
  | store (call : KeyValue.Call) :
    Alters job before (.store call) { before with store := (before.store.answer call).2 }
  /-- the secrets are changed -/
  | secrets (call : Secret.Call) :
    Alters job before (.secrets call) { before with vault := (before.vault.answer call).2 }
  /-- a removal is started -/
  | startRemoval (name : String) (keys : Names) :
    Alters job before (.startRemoval name keys)
      { before with started := before.started ++ [⟨name, keys, none⟩] }
  /-- the lock is taken -/
  | lock (hfree : before.holder = none) :
    Alters job before .lock { before with holder := some job }
  /-- the lock is released -/
  | unlock : Alters job before .unlock { before with holder := none }
  /-- a record is left -/
  | record (record : Audit.Record) :
    Alters job before (.record record) { before with records := before.records ++ [record] }
  /-- the same in time -/
  | «until» (moment : Nat) {effect : Effect} {after : Shared} (h : Alters job before effect after) :
    Alters job before (.until moment effect) after

theorem Answers.alters {faulty : Bool} {job : Nat} {effect : Effect} {answer : effect.Answer}
    {before after : Shared} (h : Answers faulty job effect before answer after) :
    Alters job before effect after := by
  induction effect with
  | store call =>
    obtain ⟨-, rfl⟩ | ⟨-, rfl, -⟩ := h
    · exact .store call
    · exact .nothing _
  | secrets call =>
    obtain ⟨-, rfl⟩ | ⟨-, rfl, -⟩ := h
    · exact .secrets call
    · exact .nothing _
  | startRemoval name keys =>
    obtain ⟨-, rfl⟩ | ⟨-, rfl, -⟩ := h
    · exact .startRemoval name keys
    · exact .nothing _
  | awaitRemovals tickets moment =>
    obtain ⟨rfl, -⟩ := h
    exact .nothing _
  | lock =>
    obtain ⟨hfree, rfl⟩ := h
    exact .lock hfree
  | unlock =>
    obtain rfl := h
    exact .unlock
  | record record =>
    obtain rfl := h
    exact .record record
  | now =>
    obtain rfl := h
    exact .nothing _
  | sleep millis =>
    obtain rfl := h
    exact .nothing _
  | choose bound =>
    obtain ⟨rfl, -⟩ := h
    exact .nothing _
  | «until» moment effect ih =>
    cases answer with
    | some answer => exact .until moment (ih h)
    | none =>
      obtain rfl : after = before := h
      exact .nothing _

/-- The effect may start a removal. -/
def Effect.starts : Effect → Bool
  | .startRemoval _ _ => true
  | .until _ effect => effect.starts
  | _ => false

namespace Alters

variable {job : Nat} {effect : Effect} {before after : Shared}

/-- Removals that were started keep their tickets. -/
theorem started_prefix (h : Alters job before effect after) :
    before.started <+: after.started := by
  induction h with
  | startRemoval name keys => exact List.prefix_append _ _
  | «until» moment _ ih => exact ih
  | _ => exact List.prefix_rfl

theorem started_eq (h : Alters job before effect after) (hstarts : effect.starts = false) :
    after.started = before.started := by
  induction h with
  | startRemoval name keys => cases hstarts
  | «until» moment _ ih => exact ih hstarts
  | _ => rfl

end Alters

/-! ## Traces and what is reached -/

section

variable {faulty : Bool} {owners : List Nat} {system between later : System} {move : Move}

/-- It is known of all removals who started them. -/
theorem System.Moves.length_owners (h : System.Moves faulty owners system move later)
    (howners : owners.length = system.shared.started.length) :
    (move.owners owners).length = later.shared.started.length := by
  have hle : owners.length ≤ move.after.started.length := by
    rw [howners]
    cases h with
    | answered _ hanswers => exact hanswers.alters.started_prefix.length_le
    | removed _ _ _ _ => exact Nat.le_of_eq List.length_set.symm
  rw [Move.owners, List.length_append, List.length_replicate, Nat.add_sub_cancel' hle, h.after_eq]

/-- Every step is a move. -/
theorem System.Step.exists_move (h : System.Step faulty system later)
    (howners : owners.length = system.shared.started.length) :
    ∃ move, System.Moves faulty owners system move later := by
  cases h with
  | answered hjob hanswers => exact ⟨_, .answered hjob hanswers⟩
  | removed hstarted hpending hcomes =>
    rename_i ticket started removal vault
    have hlt : ticket < owners.length := by
      rw [howners]
      exact (List.getElem?_eq_some_iff.mp hstarted).1
    exact ⟨_, .removed (List.getElem?_eq_getElem hlt) hstarted hpending hcomes⟩

namespace Trace

variable {moves more : List Move}

theorem append (h : Trace faulty owners system moves between)
    (hmore : Trace faulty (moves.foldl Move.owners owners) between more later) :
    Trace faulty owners system (moves ++ more) later := by
  induction h with
  | nil => exact hmore
  | cons hmove _ ih => exact .cons hmove (ih hmore)

/-- A trace can be cut anywhere. -/
theorem split (h : Trace faulty owners system (moves ++ more) later) :
    ∃ between, Trace faulty owners system moves between ∧
      Trace faulty (moves.foldl Move.owners owners) between more later := by
  induction moves generalizing owners system with
  | nil => exact ⟨system, .nil _ _, h⟩
  | cons move rest ih =>
    cases h with
    | cons hmove hrest =>
      obtain ⟨between, hfront, hback⟩ := ih hrest
      exact ⟨between, .cons hmove hfront, hback⟩

theorem moves_of_mem (h : Trace faulty owners system moves later) :
    ∀ move ∈ moves, ∃ owners before after, System.Moves faulty owners before move after := by
  induction h with
  | nil => exact nofun
  | cons hmove _ ih =>
    intro other hother
    rcases List.mem_cons.mp hother with rfl | hother
    · exact ⟨_, _, _, hmove⟩
    · exact ih other hother

theorem length_owners (h : Trace faulty owners system moves later)
    (howners : owners.length = system.shared.started.length) :
    (moves.foldl Move.owners owners).length = later.shared.started.length := by
  induction h with
  | nil => exact howners
  | cons hmove _ ih => exact ih (hmove.length_owners howners)

/-- Systems have traces to just what they reach. -/
theorem reaches_iff_trace (howners : owners.length = system.shared.started.length) :
    System.Reaches faulty system later ↔ ∃ moves, Trace faulty owners system moves later := by
  constructor
  · intro h
    induction h with
    | refl => exact ⟨[], .nil _ _⟩
    | tail _ hstep ih =>
      obtain ⟨moves, htrace⟩ := ih
      obtain ⟨move, hmove⟩ := hstep.exists_move (htrace.length_owners howners)
      exact ⟨moves ++ [move], htrace.append (.cons hmove (.nil _ _))⟩
  · rintro ⟨moves, htrace⟩
    clear howners
    induction htrace with
    | nil => exact .refl
    | cons hmove _ ih => exact .head hmove.step ih

end Trace

end

/-! ## The moves of one job -/

theorem exchanges_append (job : Nat) (front back : List Move) :
    exchanges job (front ++ back) = exchanges job front ++ exchanges job back :=
  List.filterMap_append

/-- A job is answered nothing by the moves of others. -/
theorem exchanges_eq_nil {job : Nat} {moves : List Move} (h : ∀ move ∈ moves, move.job ≠ job) :
    exchanges job moves = [] :=
  List.filterMap_eq_nil_iff.mpr fun move hmove => if_neg (h move hmove)

/-- Between two answers that follow one another, a job that moves only when it is answered makes no
move. -/
theorem exchanges_eq_append {job : Nat} {moves : List Move}
    (hsome : ∀ move ∈ moves, move.job = job → move.exchange.isSome = true)
    {front back : List (Exchange effects)} {first second : Exchange effects}
    (h : exchanges job moves = front ++ first :: second :: back) :
    ∃ early one between other late, moves = early ++ one :: (between ++ other :: late) ∧
      (one.job = job ∧ one.exchange = some first) ∧ (∀ move ∈ between, move.job ≠ job) ∧
      (other.job = job ∧ other.exchange = some second) ∧ exchanges job late = back := by
  have hanswer : ∀ (move : Move) (exchange : Exchange effects),
      (if move.job = job then move.exchange else none) = some exchange →
        move.job = job ∧ move.exchange = some exchange := by
    intro move exchange hmove
    split at hmove
    · rename_i hjob
      exact ⟨hjob, hmove⟩
    · cases hmove
  obtain ⟨early, rest, rfl, -, hrest⟩ := List.filterMap_eq_append_iff.mp h
  obtain ⟨before, one, rest, rfl, -, hone, hrest⟩ := List.filterMap_eq_cons_iff.mp hrest
  obtain ⟨between, other, late, rfl, hbetween, hother, hlate⟩ :=
    List.filterMap_eq_cons_iff.mp hrest
  refine ⟨early ++ before, one, between, other, late, (List.append_assoc _ _ _).symm,
    hanswer one first hone, fun move hmove hjob => ?_, hanswer other second hother, hlate⟩
  have hnone := hbetween move hmove
  rw [if_pos hjob] at hnone
  have hanswered := hsome move (by simp [hmove]) hjob
  rw [hnone] at hanswered
  cases hanswered

/-- A job starts all that is new after its moves. -/
theorem owners_eq_append {job : Nat} {moves : List Move} (h : ∀ move ∈ moves, move.job = job)
    (owners : List Nat) :
    ∃ count, moves.foldl Move.owners owners = owners ++ List.replicate count job := by
  induction moves generalizing owners with
  | nil => exact ⟨0, (List.append_nil owners).symm⟩
  | cons move more ih =>
    obtain ⟨count, hcount⟩ := ih (fun other hother => h other (List.mem_cons_of_mem _ hother))
      (move.owners owners)
    refine ⟨move.after.started.length - owners.length + count, hcount.trans ?_⟩
    rw [Move.owners, h move List.mem_cons_self, List.append_assoc,
      List.replicate_append_replicate]

/-- Nobody starts a removal by a move after which there are no more of them. -/
theorem Move.owners_eq {owners : List Nat} {move : Move}
    (h : move.after.started.length = owners.length) : move.owners owners = owners := by
  rw [Move.owners, h, Nat.sub_self, List.replicate_zero, List.append_nil]

section

variable {faulty : Bool} {owners : List Nat} {system later : System} {job : Nat}

/-- A job that has started no removal has made no move but when it is answered. -/
theorem System.Moves.isSome_exchange {move : Move}
    (h : System.Moves faulty owners system move later)
    (howners : owners.length = system.shared.started.length) (hjob : job ∉ owners)
    (hstarts : ∀ exchange ∈ exchanges job [move], exchange.request.starts = false) :
    job ∉ move.owners owners ∧ (move.job = job → move.exchange.isSome = true) := by
  cases h with
  | answered _ hanswers =>
    rename_i other effect next answer after _
    refine ⟨?_, fun _ => rfl⟩
    by_cases heq : other = job
    · -- what the job asks for starts nothing
      have hmem : (⟨effect, answer⟩ : Exchange effects) ∈ exchanges job
          [⟨other, some ⟨effect, answer⟩, system.shared, after⟩] :=
        List.mem_filterMap.mpr ⟨_, List.mem_cons_self, if_pos heq⟩
      have hsame : after.started = system.shared.started :=
        hanswers.alters.started_eq (hstarts _ hmem)
      rw [Move.owners_eq (by rw [hsame, howners])]
      exact hjob
    · rw [Move.owners, List.mem_append]
      rintro (hmem | hmem)
      · exact hjob hmem
      · exact heq (List.eq_of_mem_replicate hmem).symm
  | removed howner _ _ _ =>
    have hmem := List.mem_of_getElem? howner
    refine ⟨?_, fun heq => absurd (heq ▸ hmem) hjob⟩
    rw [Move.owners_eq (by rw [howners]; exact List.length_set)]
    exact hjob

/-- A job that starts no removal makes no move but when it is answered. -/
theorem Trace.isSome_exchange {moves : List Move} (h : Trace faulty owners system moves later)
    (howners : owners.length = system.shared.started.length) (hjob : job ∉ owners)
    (hstarts : ∀ exchange ∈ exchanges job moves, exchange.request.starts = false) :
    ∀ move ∈ moves, move.job = job → move.exchange.isSome = true := by
  induction h with
  | nil => exact nofun
  | cons hmove _ ih =>
    rename_i move more _
    rw [← List.singleton_append, exchanges_append] at hstarts
    obtain ⟨hjob, hfirst⟩ := hmove.isSome_exchange howners hjob fun exchange hexchange =>
      hstarts exchange (List.mem_append_left _ hexchange)
    have hrest := ih (hmove.length_owners howners) hjob fun exchange hexchange =>
      hstarts exchange (List.mem_append_right _ hexchange)
    intro other hother
    rcases List.mem_cons.mp hother with rfl | hother
    · exact hfirst
    · exact hrest other hother

end

/-- What a job does by itself leaves a trace. -/
theorem Runs.trace {faulty : Bool} {job : Nat} {α : Type} {p q : Program effects α} {s t : Shared}
    (h : Runs faulty job p s q t) (f : α → Program effects Unit)
    {jobs : List (Program effects Unit)} (hjob : jobs[job]? = some (p.bind f))
    (owners : List Nat) :
    ∃ moves, Trace faulty owners ⟨s, jobs⟩ moves ⟨t, jobs.set job (q.bind f)⟩ ∧
      (∀ move ∈ moves, move.job = job) ∧ p.Follows (exchanges job moves) q := by
  induction h generalizing jobs owners with
  | refl program shared =>
    obtain ⟨hlt, heq⟩ := List.getElem?_eq_some_iff.mp hjob
    have hset : jobs.set job (program.bind f) = jobs := by
      rw [← heq, List.set_getElem_self hlt]
    rw [hset]
    exact ⟨[], .nil _ _, nofun, .refl _⟩
  | step effect answer hanswers _ ih =>
    rename_i next program before between after _
    have hlt : job < jobs.length := (List.getElem?_eq_some_iff.mp hjob).1
    let move : Move := ⟨job, some ⟨effect, answer⟩, before, between⟩
    have hmove : System.Moves faulty owners ⟨before, jobs⟩ move
        ⟨between, jobs.set job ((next answer).bind f)⟩ :=
      @System.Moves.answered faulty owners ⟨before, jobs⟩ job effect
        (fun answer => (next answer).bind f) answer between hjob hanswers
    obtain ⟨moves, htrace, hmoves, hfollows⟩ :=
      ih (List.getElem?_set_self hlt) (move.owners owners)
    rw [List.set_set] at htrace
    refine ⟨move :: moves, .cons hmove htrace, ?_, ?_⟩
    · intro other hother
      rcases List.mem_cons.mp hother with rfl | hother
      · rfl
      · exact hmoves other hother
    · have hexchanges : exchanges job (move :: moves)
          = ⟨effect, answer⟩ :: exchanges job moves :=
        List.filterMap_cons_some (if_pos rfl)
      rw [hexchanges]
      exact @Program.Follows.ask effects α effect answer next _ _ hfollows

end EngineCatalog
