import EngineCatalog.Proofs.Concurrency.Trace
import EngineCatalog.Proofs.Variable.Turn
import Mathlib.Logic.Function.Basic

/-!
# Jobs that take turns

Where all jobs take turns, each of their moves is in order: a secret that exists is changed by nobody
but the one who holds the lock, which also goes for what comes of removals, and the lock passes from
one job to another by being free in between.

* `Move.InOrder` — what is said of each move.
* `Ordered` — the invariant: the turns of all jobs are in accord with what is shared.
* `TakesTurns.trace` — all moves of a system are in order.
-/

namespace EngineCatalog

open Secret (Data Removal Vault)

/-! ## Moves in order -/

/-- What is asked for may change what a secret that exists holds. -/
def Effect.changes : Effect → Bool
  | .secrets call => call.changes
  | .until _ effect => effect.changes
  | _ => false

/-- What is asked for may release the lock. -/
def Effect.unlocks : Effect → Bool
  | .unlock => true
  | .until _ effect => effect.unlocks
  | _ => false

/-- The move changes what a secret that exists holds. -/
def Move.Changes (move : Move) : Prop :=
  ∃ secret data, move.before.vault.read secret = some data ∧
    move.after.vault.read secret ≠ some data

/-- A move of a job that takes turns. -/
structure Move.InOrder (move : Move) : Prop where
  /-- a secret that exists is changed with the lock held -/
  changes : move.Changes → move.before.holder = some move.job
  /-- even if the change makes no difference -/
  writes : ∀ exchange, move.exchange = some exchange → exchange.request.changes = true →
    move.before.holder = some move.job
  /-- the lock is taken when it is free, and released by the one who holds it -/
  holder : move.after.holder = move.before.holder
    ∨ move.before.holder = none ∧ move.after.holder = some move.job
    ∨ move.before.holder = some move.job ∧ move.after.holder = none

namespace Alters

variable {job : Nat} {effect : Effect} {before after : Shared}

/-- The lock is taken when it is free. -/
theorem holder (h : Alters job before effect after) :
    after.holder = before.holder ∨ before.holder = none ∧ after.holder = some job ∨
      effect.unlocks = true ∧ after.holder = none := by
  induction h with
  | lock hfree => exact .inr (.inl ⟨hfree, rfl⟩)
  | unlock => exact .inr (.inr ⟨rfl, rfl⟩)
  | «until» moment _ ih => exact ih
  | _ => exact .inl rfl

theorem read (h : Alters job before effect after) (hchanges : effect.changes = false)
    {secret : String} {data : Data} (hread : before.vault.read secret = some data) :
    after.vault.read secret = some data := by
  induction h with
  | secrets call => exact Vault.read_answer hchanges hread
  | «until» moment _ ih => exact ih hchanges
  | _ => exact hread

end Alters

namespace Turn.Allows

variable {starts timed : Bool} {turn : Turn} {effect : Effect}

theorem held_of_changes (h : turn.Allows starts timed effect) (hchanges : effect.changes = true) :
    turn.held = true := by
  induction effect generalizing starts timed with
  | secrets call => exact h hchanges
  | «until» moment effect ih => exact ih h.2 hchanges
  | _ => cases hchanges

theorem held_of_unlocks (h : turn.Allows starts timed effect) (hunlocks : effect.unlocks = true) :
    turn.held = true := by
  induction effect generalizing starts timed with
  | unlock => exact h.1
  | «until» moment effect ih => exact ih h.2 hunlocks
  | _ => cases hunlocks

end Turn.Allows

/-! ## The invariant -/

/-- The turns of all jobs are in accord with one another and with what is shared. -/
structure Ordered (turns : Nat → Turn) (owners : List Nat) (shared : Shared) : Prop where
  /-- the job that holds the lock knows that -/
  holder : ∀ job, (turns job).held = true ↔ shared.holder = some job
  /-- without the lock no removal is pending -/
  idle : ∀ job, (turns job).held = false → (turns job).pending = []
  /-- it is known of all removals who started them -/
  credited : owners.length = shared.started.length
  /-- a removal that may yet change something is pending for the one who started it -/
  pending : ∀ ticket started, shared.started[ticket]? = some started → started.removal = none →
    started.keys.isEmpty = false → ∃ job, owners[ticket]? = some job ∧
      ticket ∈ (turns job).pending

namespace Ordered

variable {turns : Nat → Turn} {owners : List Nat} {before after : Shared} {job : Nat}

theorem start (hfree : before.holder = none) (hstarted : before.started = []) :
    Ordered (fun _ => .idle) [] before := by
  refine ⟨fun job => ?_, fun _ _ => rfl, ?_, ?_⟩
  · rw [hfree]
    exact ⟨nofun, nofun⟩
  · rw [hstarted]
    rfl
  · rw [hstarted]
    exact nofun

/-! ### What is in order -/

theorem inOrder_answered {faulty : Bool} {effect : Effect} {answer : effect.Answer}
    (h : Ordered turns owners before) (hallows : (turns job).Allows true true effect)
    (hanswers : Answers faulty job effect before answer after) :
    Move.InOrder ⟨job, some ⟨effect, answer⟩, before, after⟩ := by
  have hholds : effect.changes = true → before.holder = some job := fun hchanges =>
    (h.holder job).mp (hallows.held_of_changes hchanges)
  refine ⟨?_, ?_, ?_⟩
  · rintro ⟨secret, data, hbefore, hafter⟩
    cases hchanges : effect.changes with
    | true => exact hholds hchanges
    | false => exact absurd (hanswers.alters.read hchanges hbefore) hafter
  · rintro exchange ⟨⟩ hchanges
    exact hholds hchanges
  · rcases hanswers.alters.holder with hsame | htaken | ⟨hunlocks, hfree⟩
    · exact .inl hsame
    · exact .inr (.inl htaken)
    · exact .inr (.inr ⟨(h.holder job).mp (hallows.held_of_unlocks hunlocks), hfree⟩)

/-- What comes of a removal changes something only in the turn of the one who started it. -/
theorem inOrder_removed {faulty : Bool} {ticket : Nat} {started : Started} {removal : Removal}
    {vault : Vault} (h : Ordered turns owners before) (howner : owners[ticket]? = some job)
    (hstarted : before.started[ticket]? = some started) (hpending : started.removal = none)
    (hcomes : Comes faulty started before.vault removal vault) :
    Move.InOrder ⟨job, none, before, before.settle ticket started removal vault⟩ := by
  refine ⟨?_, nofun, .inl rfl⟩
  rintro ⟨secret, data, hbefore, hafter⟩
  have hvault : vault.read secret ≠ some data := hafter
  cases hkeys : started.keys.isEmpty with
  | false =>
    obtain ⟨owner, hsame, hticket⟩ := h.pending ticket started hstarted hpending hkeys
    obtain rfl : job = owner := Option.some.inj (howner.symm.trans hsame)
    rw [← h.holder, ← Bool.not_eq_false]
    intro hidle
    rw [h.idle job hidle] at hticket
    cases hticket
  | true =>
    rcases hcomes with hdone | ⟨-, rfl, -⟩
    · have hsame : vault = (before.vault.remove started.secret started.keys).2 :=
        (congrArg Prod.snd hdone).trans (Vault.finish_snd _ _ _)
      rw [hsame, Vault.read_remove_of_isEmpty hkeys] at hvault
      exact absurd hbefore hvault
    · exact absurd hbefore hvault

/-! ### What is kept -/

/-- A removal that may yet change something is pending for the one who started it also when the turn
of one job changes, and that job has started what is new. -/
theorem pending_update (h : Ordered turns owners before) {turn : Turn}
    (hstarted : before.started <+: after.started)
    (hpending : ∀ ticket started, after.started[ticket]? = some started →
      started.removal = none → started.keys.isEmpty = false →
      ticket ∈ (turns job).pending ∨ before.started.length ≤ ticket → ticket ∈ turn.pending)
    {ticket : Nat} {started : Started} (hticket : after.started[ticket]? = some started)
    (hnone : started.removal = none) (hkeys : started.keys.isEmpty = false) :
    ∃ owner, (owners ++ List.replicate (after.started.length - owners.length) job)[ticket]?
        = some owner ∧ ticket ∈ (Function.update turns job turn owner).pending := by
  rcases Nat.lt_or_ge ticket before.started.length with hlt | hge
  · have hbefore : before.started[ticket]? = some started := by
      obtain ⟨new, hnew⟩ := hstarted
      rw [← hnew, List.getElem?_append_left hlt] at hticket
      exact hticket
    obtain ⟨owner, howner, hmem⟩ := h.pending ticket started hbefore hnone hkeys
    refine ⟨owner, ?_, ?_⟩
    · rw [List.getElem?_append_left (h.credited ▸ hlt)]
      exact howner
    · by_cases heq : owner = job
      · subst heq
        rw [Function.update_self]
        exact hpending ticket started hticket hnone hkeys (.inl hmem)
      · rw [Function.update_of_ne heq]
        exact hmem
  · -- what is new is the job's own
    have hlt : ticket < after.started.length := (List.getElem?_eq_some_iff.mp hticket).1
    refine ⟨job, ?_, ?_⟩
    · rw [List.getElem?_append_right (h.credited ▸ hge), List.getElem?_replicate_of_lt]
      exact Nat.sub_lt_sub_right (h.credited ▸ hge) hlt
    · rw [Function.update_self]
      exact hpending ticket started hticket hnone hkeys (.inr hge)

/-- The turn of one job changes, and what is new among the removals, that job has started. -/
theorem update (h : Ordered turns owners before) {turn : Turn}
    (hstarted : before.started <+: after.started)
    (hself : turn.held = true ↔ after.holder = some job)
    (hothers : ∀ other, other ≠ job → ((turns other).held = true ↔ after.holder = some other))
    (hidle : turn.held = false → turn.pending = [])
    (hpending : ∀ ticket started, after.started[ticket]? = some started →
      started.removal = none → started.keys.isEmpty = false →
      ticket ∈ (turns job).pending ∨ before.started.length ≤ ticket → ticket ∈ turn.pending) :
    Ordered (Function.update turns job turn)
      (owners ++ List.replicate (after.started.length - owners.length) job) after := by
  refine ⟨fun other => ?_, fun other => ?_, ?_,
    fun ticket started => h.pending_update hstarted hpending⟩
  · by_cases heq : other = job
    · subst heq
      rw [Function.update_self]
      exact hself
    · rw [Function.update_of_ne heq]
      exact hothers other heq
  · by_cases heq : other = job
    · subst heq
      rw [Function.update_self]
      exact hidle
    · rw [Function.update_of_ne heq]
      exact h.idle other
  · have hle : owners.length ≤ after.started.length := by
      rw [h.credited]
      exact hstarted.length_le
    rw [List.length_append, List.length_replicate, Nat.add_sub_cancel' hle]

/-- The turn of one job changes, and no removal is started. -/
theorem turn (h : Ordered turns owners before) {turn : Turn}
    (hstarted : after.started = before.started)
    (hself : turn.held = true ↔ after.holder = some job)
    (hothers : ∀ other, other ≠ job → ((turns other).held = true ↔ after.holder = some other))
    (hidle : turn.held = false → turn.pending = [])
    (hpending : ∀ ticket started, before.started[ticket]? = some started →
      started.removal = none → ticket ∈ (turns job).pending → ticket ∈ turn.pending) :
    Ordered (Function.update turns job turn)
      (owners ++ List.replicate (after.started.length - owners.length) job) after := by
  refine h.update (hstarted ▸ List.prefix_rfl) hself hothers hidle ?_
  rintro ticket started hticket hnone - (hmem | hge)
  · rw [hstarted] at hticket
    exact hpending ticket started hticket hnone hmem
  · rw [hstarted] at hticket
    exact absurd (List.getElem?_eq_some_iff.mp hticket).1 (Nat.not_lt_of_le hge)

/-- Neither the lock nor the removals change. -/
theorem same (h : Ordered turns owners before) (hholder : after.holder = before.holder)
    (hstarted : after.started = before.started) :
    Ordered (Function.update turns job (turns job))
      (owners ++ List.replicate (after.started.length - owners.length) job) after :=
  h.turn hstarted (hholder ▸ h.holder job) (fun other _ => hholder ▸ h.holder other)
    (h.idle job) fun _ _ _ _ hmem => hmem

/-- A removal is started, and pending from then on. -/
theorem started (h : Ordered turns owners before) (hheld : (turns job).held = true)
    {name : String} {keys : Names}
    (hafter : after = { before with started := before.started ++ [⟨name, keys, none⟩] }) :
    Ordered (Function.update turns job
        ((turns job).next (.startRemoval name keys) (.ok before.started.length)))
      (owners ++ List.replicate (after.started.length - owners.length) job) after := by
  subst hafter
  have hturn : ∀ turn : Turn, turn.held = true →
      (turn.next (.startRemoval name keys) (.ok before.started.length)).held = true ∧
      ∀ ticket, ticket ∈ turn.pending ∨ keys.isEmpty = false ∧ ticket = before.started.length →
        ticket ∈ (turn.next (.startRemoval name keys) (.ok before.started.length)).pending := by
    intro turn hheld
    cases hkeys : keys.isEmpty with
    | true =>
      rw [Turn.next, if_pos hkeys]
      exact ⟨hheld, fun ticket hticket => hticket.resolve_right nofun⟩
    | false =>
      rw [Turn.next, if_neg (by rw [hkeys]; exact Bool.false_ne_true)]
      refine ⟨hheld, fun ticket hticket => List.mem_append.mpr ?_⟩
      exact hticket.imp_right fun hnew => List.mem_singleton.mpr hnew.2
  obtain ⟨hstill, hpending⟩ := hturn (turns job) hheld
  refine h.update (List.prefix_append _ _) ?_ (fun other _ => h.holder other) ?_ ?_
  · exact iff_of_true hstill ((h.holder job).mp hheld)
  · intro hidle
    rw [hstill] at hidle
    cases hidle
  · intro ticket started hticket _ hkeys hor
    refine hpending ticket (hor.imp_right fun hge => ?_)
    have hlt : ticket < before.started.length + 1 := by
      have hlt := (List.getElem?_eq_some_iff.mp hticket).1
      rw [List.length_append] at hlt
      exact hlt
    obtain rfl : ticket = before.started.length := Nat.le_antisymm (Nat.le_of_lt_succ hlt) hge
    rw [List.getElem?_concat_length, Option.some.injEq] at hticket
    subst hticket
    exact ⟨hkeys, rfl⟩

/-- Removals are waited for, and if there is no bound, they are not pending any more. -/
theorem awaited (h : Ordered turns owners before) {tickets : List Nat} {moment : Option Nat}
    (hall : moment.isSome = true ∨
      ∀ removal ∈ before.removalsOf tickets, removal.isSome = true) :
    Ordered (Function.update turns job ((turns job).next (.awaitRemovals tickets moment)
        (before.removalsOf tickets)))
      (owners ++ List.replicate (before.started.length - owners.length) job) before := by
  cases moment with
  | some moment => exact h.same rfl rfl
  | none =>
    refine h.turn rfl (h.holder job) (fun other _ => h.holder other) ?_ ?_
    · intro hidle
      have hnone : (turns job).pending = [] := h.idle job hidle
      change (turns job).pending.filter _ = []
      rw [hnone]
      rfl
    · intro ticket started hticket hnone hmem
      refine List.mem_filter.mpr ⟨hmem, decide_eq_true fun hawaited => ?_⟩
      -- what is waited for was answered
      have hremoval := hall.resolve_left nofun _ (List.mem_map_of_mem hawaited)
      rw [hticket, Option.bind_some, hnone] at hremoval
      cases hremoval

/-- The lock is taken. -/
theorem taken (h : Ordered turns owners before) (hfree : before.holder = none)
    (hafter : after = { before with holder := some job }) :
    Ordered (Function.update turns job ((turns job).next .lock ()))
      (owners ++ List.replicate (after.started.length - owners.length) job) after := by
  have hholder : after.holder = some job := by rw [hafter]
  refine h.turn (by rw [hafter]) (iff_of_true rfl hholder) (fun other hne => ?_) nofun
    fun _ _ _ _ hmem => hmem
  rw [h.holder, hfree, hholder]
  exact iff_of_false nofun fun hsame => hne (Option.some.inj hsame).symm

/-- The lock is released by the one who holds it. -/
theorem released (h : Ordered turns owners before) (hheld : (turns job).held = true)
    (hnone : (turns job).pending = []) (hafter : after = { before with holder := none }) :
    Ordered (Function.update turns job ((turns job).next .unlock ()))
      (owners ++ List.replicate (after.started.length - owners.length) job) after := by
  have hholder : after.holder = none := by rw [hafter]
  refine h.turn (by rw [hafter]) ?_ (fun other hne => ?_) (fun _ => hnone)
    fun _ _ _ _ hmem => hmem
  · rw [hholder]
    exact iff_of_false nofun nofun
  · rw [h.holder, (h.holder job).mp hheld, hholder]
    exact iff_of_false (fun hsame => hne (Option.some.inj hsame).symm) nofun

/-- Whatever a job is answered that takes turns, all stays in accord. -/
theorem answers {starts timed faulty : Bool} {effect : Effect} {answer : effect.Answer}
    (h : Ordered turns owners before) (hallows : (turns job).Allows starts timed effect)
    (hanswers : Answers faulty job effect before answer after) :
    Ordered (Function.update turns job ((turns job).next effect answer))
      (owners ++ List.replicate (after.started.length - owners.length) job) after := by
  induction effect generalizing starts timed with
  | store call =>
    obtain ⟨-, rfl⟩ | ⟨-, rfl, -⟩ := hanswers
    · exact h.same rfl rfl
    · exact h.same rfl rfl
  | secrets call =>
    obtain ⟨-, rfl⟩ | ⟨-, rfl, -⟩ := hanswers
    · exact h.same rfl rfl
    · exact h.same rfl rfl
  | startRemoval name keys =>
    obtain ⟨rfl, rfl⟩ | ⟨-, rfl, error, rfl⟩ := hanswers
    · exact h.started hallows.2 rfl
    · exact h.same rfl rfl
  | awaitRemovals tickets moment =>
    obtain ⟨rfl, rfl, hall⟩ := hanswers
    exact h.awaited hall
  | lock =>
    obtain ⟨hfree, rfl⟩ := hanswers
    exact h.taken hfree rfl
  | unlock =>
    obtain rfl := hanswers
    exact h.released hallows.1 hallows.2 rfl
  | record record =>
    obtain rfl := hanswers
    exact h.same rfl rfl
  | now =>
    obtain rfl := hanswers
    exact h.same rfl rfl
  | sleep millis =>
    obtain rfl := hanswers
    exact h.same rfl rfl
  | choose bound =>
    obtain ⟨rfl, -⟩ := hanswers
    exact h.same rfl rfl
  | «until» moment effect ih =>
    cases answer with
    | some answer => exact ih hallows.2 hanswers
    | none =>
      obtain rfl : after = before := hanswers
      exact h.same rfl rfl

/-- A removal that something has come of is not pending any more. -/
theorem settle (h : Ordered turns owners before) (ticket : Nat) (started : Started)
    (removal : Removal) (vault : Vault) :
    Ordered turns owners (before.settle ticket started removal vault) := by
  refine ⟨h.holder, h.idle, h.credited.trans List.length_set.symm, ?_⟩
  intro other found hfound hnone hkeys
  have hset : (before.started.set ticket { started with removal := some removal })[other]?
      = some found := hfound
  by_cases heq : ticket = other
  · subst heq
    rw [List.getElem?_set_self'] at hset
    obtain ⟨_, -, hsettled⟩ := Option.map_eq_some_iff.mp hset
    rw [← hsettled] at hnone
    cases hnone
  · rw [List.getElem?_set_ne heq] at hset
    exact h.pending other found hset hnone hkeys

end Ordered

/-! ## Systems -/

/-- All jobs take turns, and their turns are in accord. -/
def TakesTurns (owners : List Nat) (system : System) : Prop :=
  ∃ turns, Ordered turns owners system.shared ∧
    ∀ job (program : Program effects Unit), system.jobs[job]? = some program →
      program.Obeys (Turn.discipline true true) (turns job) fun _ _ => True

namespace TakesTurns

variable {faulty : Bool} {owners : List Nat} {system later : System}

/-- A move is in order, and all jobs go on taking turns. -/
theorem step {move : Move} (h : TakesTurns owners system) (hmove : System.Moves faulty owners system move later) :
    move.InOrder ∧ TakesTurns (move.owners owners) later := by
  obtain ⟨turns, hordered, hjobs⟩ := h
  cases hmove with
  | answered hjob hanswers =>
    obtain ⟨hallows, hnext⟩ := hjobs _ _ hjob
    refine ⟨hordered.inOrder_answered hallows hanswers, _, hordered.answers hallows hanswers, ?_⟩
    intro other program hother
    rcases System.of_set_job hother with ⟨rfl, rfl⟩ | ⟨hne, hother⟩
    · rw [Function.update_self]
      exact hnext _
    · rw [Function.update_of_ne hne]
      exact hjobs other program hother
  | removed howner hstarted hpending hcomes =>
    refine ⟨hordered.inOrder_removed howner hstarted hpending hcomes, turns, ?_, hjobs⟩
    rw [Move.owners_eq (hordered.settle _ _ _ _).credited.symm]
    exact hordered.settle _ _ _ _

/-- **Where all jobs take turns, all moves are in order.** -/
theorem trace {moves : List Move} (h : TakesTurns owners system)
    (htrace : Trace faulty owners system moves later) :
    ∀ move ∈ moves, move.InOrder := by
  induction htrace with
  | nil => exact nofun
  | cons hmove _ ih =>
    obtain ⟨hfirst, hbetween⟩ := h.step hmove
    intro other hother
    rcases List.mem_cons.mp hother with rfl | hother
    · exact hfirst
    · exact ih hbetween other hother

end TakesTurns

end EngineCatalog
