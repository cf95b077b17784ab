import EngineCatalog.Proofs.Concurrency.System
import EngineCatalog.Proofs.Program.Follows
import EngineCatalog.Proofs.Watch.Loop

/-!
# Watches over any transport

What answers a watch need be no store: a reply may be an error, have any index, and list any
entries. It is *acknowledged* if its index is not the one that was sent and its entries do not fail
to decode. Main statement: each call sends the index of the last reply that was acknowledged,
however many failures lie between (`Resource.rounds_acknowledge`). A cursor remembers one index
besides the last one, and that is enough: a change is taken back before another one is seen.

* `Service` — what answers the requests of programs, by a state of its own; `Service.recorded` keeps
  the requests with their answers.
* `Resource.rounds` — calls of one watch, each with the cursor that the one before left.
* `Resource.lastAcknowledged` — the index of the last reply that was acknowledged.
-/

namespace EngineCatalog

open KeyValue (Call Entry Listing keyValue)
open Watch (Cursor Update)

/-! ## Services -/

/-- What answers the requests of programs. -/
structure Service (σ : Signature) where
  /-- what its answers depend on besides the requests -/
  State : Type
  /-- the answer to a request, and the state after it -/
  handle : (request : σ.Request) → State → σ.Answer request × State

namespace Service

/-- The service that keeps all requests with their answers, in order. -/
def recorded {σ : Signature} (service : Service σ) : Service σ where
  State := service.State × List (Exchange σ)
  handle request state :=
    let reply := service.handle request state.1
    (reply.1, reply.2, state.2 ++ [⟨request, reply.1⟩])

/-- The error of a service that has no more replies. -/
def exhausted : Error := .transport "no more replies"

/-- The service that gives waits the listed replies one after the other. -/
def scripted : Service keyValue where
  State := List (Outcome Listing)
  handle
    | .await _ _ _ _, [] => (.error exhausted, [])
    | .await _ _ _ _, reply :: more => (reply, more)
    | .read path all, replies => ((Call.read path all).failure exhausted, replies)
    | .put path value, replies => ((Call.put path value).failure exhausted, replies)
    | .delete path all, replies => ((Call.delete path all).failure exhausted, replies)
    | .transact changes, replies => ((Call.transact changes).failure exhausted, replies)
    | .readMany paths, replies => ((Call.readMany paths).failure exhausted, replies)

end Service

/-! ## Rounds -/

/-- One call of a watch. -/
structure Round (resource : Resource) where
  /-- what was sent, with the answers -/
  exchanges : List (Exchange keyValue)
  /-- what the call came to -/
  outcome : Outcome (Update resource.Payload)
  /-- how far the watch has come then -/
  cursor : Cursor

namespace Resource

/-- One call of the watch of a resource, and the state of the service after it. -/
def round (catalog : Catalog) (resource : Resource) (service : Service keyValue)
    (cursor : Cursor) (state : service.State) : Option (Round resource × service.State) :=
  ((resource.watch catalog cursor).run service.recorded.handle (state, [])).map fun done =>
    (⟨done.2.2, done.1.1, done.1.2⟩, done.2.1)

/-- So many calls of the watch of a resource, each with the cursor that the one before left. A watch
that stops at an overflow is not called again. -/
def rounds (catalog : Catalog) (resource : Resource) (service : Service keyValue) :
    Nat → Cursor → service.State → List (Round resource)
  | 0, _, _ => []
  | count + 1, cursor, state =>
    match resource.round catalog service cursor state with
    | none => []
    | some (round, after) => round :: rounds catalog resource service count round.cursor after

/-! ## What is acknowledged -/

/-- Stored payloads are there and do not decode. -/
def isUndecodable (catalog : Catalog) (resource : Resource) (entries : List Entry) : Bool :=
  match resource.decode catalog entries with
  | .ok _ => false
  | .error error => error.isUndecodable

/-- The index that a reply acknowledges, if it does. It is not the one that was sent, and what the
reply lists does not fail to decode. Any other error of the decoding is no reason to take the index
back. -/
def acknowledged? (catalog : Catalog) (resource : Resource) : Exchange keyValue → Option Nat
  | ⟨.await _ _ since _, .ok listing⟩ =>
    if listing.index = since ∨ resource.isUndecodable catalog listing.entries = true then none
    else some listing.index
  | _ => none

/-- The index of the last reply that was acknowledged; 0 if none was. -/
def lastAcknowledged (catalog : Catalog) {resource : Resource} (rounds : List (Round resource)) :
    Nat :=
  (((rounds.flatMap Round.exchanges).filterMap (resource.acknowledged? catalog)).getLast?).getD 0

/-- How far a watch has come after some calls. -/
def cursorAfter {resource : Resource} (rounds : List (Round resource)) : Cursor :=
  (rounds.getLast?.map Round.cursor).getD Cursor.start

variable {catalog : Catalog} {resource : Resource} {service : Service keyValue}

@[simp] theorem cursorAfter_concat (rounds : List (Round resource)) (round : Round resource) :
    cursorAfter (rounds ++ [round]) = round.cursor := by
  simp [cursorAfter]

theorem lastAcknowledged_concat (rounds : List (Round resource)) {round : Round resource}
    {exchange : Exchange keyValue} (h : round.exchanges = [exchange]) :
    lastAcknowledged catalog (rounds ++ [round])
      = (resource.acknowledged? catalog exchange).getD (lastAcknowledged catalog rounds) := by
  rw [lastAcknowledged, List.flatMap_append, List.filterMap_append, List.getLast?_append,
    lastAcknowledged]
  cases hone : resource.acknowledged? catalog exchange <;> simp [h, hone]

/-! ## One round -/

/-- A call of a watch sends one request, a wait from the index of its cursor on. -/
theorem exists_round (catalog : Catalog) (resource : Resource) (service : Service keyValue)
    (cursor : Cursor) (state : service.State) :
    ∃ (reply : Outcome Listing) (after : service.State),
      resource.round catalog service cursor state = some
        (⟨[⟨.await (resource.path catalog) resource.all cursor.last catalog.watchWait, reply⟩],
          (cursor.receive (resource.decode catalog) reply).1,
          (cursor.receive (resource.decode catalog) reply).2⟩, after) := by
  let call := Call.await (resource.path catalog) resource.all cursor.last catalog.watchWait
  refine ⟨(service.handle call state).1, (service.handle call state).2, ?_⟩
  rw [round, watch_eq]
  rfl

/-- A change of the cursor is an acknowledged index: where a change is taken back, the cursor stands
where it stood. -/
theorem receive_last (cursor : Cursor) (path : String) (all : Bool) (wait : Span)
    (reply : Outcome Listing) :
    (cursor.receive (resource.decode catalog) reply).2.last
      = (resource.acknowledged? catalog ⟨.await path all cursor.last wait, reply⟩).getD
          cursor.last := by
  cases reply with
  | error error => rfl
  | ok listing =>
    rw [Cursor.receive, acknowledged?, isUndecodable, Cursor.observe]
    by_cases hindex : listing.index = cursor.last
    · simp [Cursor.changes, hindex]
    · cases hdecode : resource.decode catalog listing.entries with
      | ok payload => simp [Cursor.changes, hindex]
      | error error =>
        by_cases hfailed : error.isUndecodable = true
        · simp [Cursor.changes, hindex, hfailed, Cursor.rollback]
        · simp [Cursor.changes, hindex, hfailed]

/-- A call says that nothing has changed exactly if the reply has the index that was sent. -/
theorem receive_eq_unchanged_iff (cursor : Cursor) (reply : Outcome Listing) :
    (cursor.receive (resource.decode catalog) reply).1 = .ok .unchanged
      ↔ ∃ listing, reply = .ok listing ∧ listing.index = cursor.last := by
  cases reply with
  | error error => exact ⟨nofun, nofun⟩
  | ok listing =>
    have hiff : (∃ other, (Except.ok listing : Outcome Listing) = .ok other ∧
        other.index = cursor.last) ↔ listing.index = cursor.last :=
      ⟨fun ⟨_, heq, hindex⟩ => Except.ok.inj heq ▸ hindex, fun hindex => ⟨_, rfl, hindex⟩⟩
    rw [hiff, Cursor.receive]
    by_cases hindex : listing.index = cursor.last
    · simp [Cursor.changes, hindex]
    · cases hdecode : resource.decode catalog listing.entries <;>
        simp [Cursor.changes, hindex]

/-! ## All rounds -/

theorem length_rounds (count : Nat) (cursor : Cursor) (state : service.State) :
    (resource.rounds catalog service count cursor state).length = count := by
  induction count generalizing cursor state with
  | zero => rfl
  | succ count ih =>
    obtain ⟨reply, after, hround⟩ := exists_round catalog resource service cursor state
    rw [rounds, hround, List.length_cons, ih]

/-- Each round follows from the cursor that the ones before left, and that cursor stands at the last
acknowledged index. The rounds `before` are those that led to the first cursor. -/
theorem rounds_eq_append {before earlier later : List (Round resource)} {round : Round resource}
    {count : Nat} {state : service.State}
    (hlast : (cursorAfter before).last = lastAcknowledged catalog before)
    (h : resource.rounds catalog service count (cursorAfter before) state
      = earlier ++ round :: later) :
    (cursorAfter (before ++ earlier)).last = lastAcknowledged catalog (before ++ earlier) ∧
      ∃ state after, resource.round catalog service (cursorAfter (before ++ earlier)) state
        = some (round, after) := by
  induction count generalizing before earlier state with
  | zero => simp [rounds] at h
  | succ count ih =>
    obtain ⟨reply, after, hround⟩ :=
      exists_round catalog resource service (cursorAfter before) state
    rw [rounds, hround] at h
    cases earlier with
    | nil =>
      obtain ⟨hhead, -⟩ := List.cons_eq_cons.mp h
      rw [List.append_nil]
      exact ⟨hlast, state, after, hround.trans (by rw [hhead])⟩
    | cons first earlier =>
      obtain ⟨rfl, hrest⟩ := List.cons_eq_cons.mp h
      rw [List.append_cons]
      refine @ih _ earlier after ?_ ?_
      · rw [cursorAfter_concat, lastAcknowledged_concat before rfl, ← hlast]
        exact receive_last _ _ _ _ _
      · rw [cursorAfter_concat]
        exact hrest

/-- **A watch sends what it has acknowledged.** Whatever answers its calls, and however many there
are, each call of a watch that had seen nothing sends one wait, from the index of the last
acknowledged reply on. An error of the transport is given back and leaves the cursor as it was, and
a call says that nothing has changed exactly if the reply has the index that was sent. -/
theorem rounds_acknowledge (catalog : Catalog) (resource : Resource) (service : Service keyValue)
    (count : Nat) (state : service.State) :
    (resource.rounds catalog service count Cursor.start state).length = count ∧
    ∀ earlier round later,
      resource.rounds catalog service count Cursor.start state = earlier ++ round :: later →
      ∃ reply : Outcome Listing,
        round.exchanges = [⟨.await (resource.path catalog) resource.all
          (lastAcknowledged catalog earlier) catalog.watchWait, reply⟩] ∧
        (∀ error, reply = .error error →
          round.outcome = .error error ∧ round.cursor = cursorAfter earlier) ∧
        (round.outcome = .ok .unchanged ↔
          ∃ listing, reply = .ok listing ∧ listing.index = lastAcknowledged catalog earlier) := by
  refine ⟨length_rounds _ _ _, fun earlier round later h => ?_⟩
  have hstart : (cursorAfter ([] : List (Round resource))).last
      = lastAcknowledged catalog ([] : List (Round resource)) := rfl
  obtain ⟨hlast, state, after, hround⟩ := rounds_eq_append hstart h
  rw [List.nil_append] at hlast hround
  obtain ⟨reply, after', hexists⟩ :=
    exists_round catalog resource service (cursorAfter earlier) state
  obtain ⟨rfl, -⟩ := Prod.mk.inj (Option.some.inj (hexists.symm.trans hround))
  rw [← hlast]
  refine ⟨reply, rfl, ?_, receive_eq_unchanged_iff _ _⟩
  rintro error rfl
  exact ⟨rfl, rfl⟩

/-- Replies to a watch of the time of the last deployment: an error, a time that does not decode, one
that does, the same index again, and a lower index with more entries than there may be. -/
def unsteadyReplies : List (Outcome Listing) := [
  .error (.transport "refused"),
  .ok ⟨5, [⟨"/stamp", some [0x78], 5⟩]⟩,
  .ok ⟨5, [⟨"/stamp", some [0x37], 5⟩]⟩,
  .ok ⟨5, []⟩,
  .ok ⟨3, [⟨"/stamp", none, 1⟩, ⟨"/stamp", none, 2⟩]⟩]

/-- After those replies a sixth call sends the lower index: what broke the protocol is acknowledged,
what did not decode is not. -/
theorem rounds_acknowledge_unsteady :
    ∃ (earlier : List (Round .deployments)) (last : Round .deployments) (reply : Outcome Listing),
      rounds (Catalog.of default) .deployments Service.scripted 6 Cursor.start unsteadyReplies
        = earlier ++ [last] ∧
      (earlier.map fun round => round.cursor.last) = [0, 0, 5, 5, 3] ∧
      last.exchanges = [⟨.await (path (Catalog.of default) .deployments) false 3
        (Catalog.of default).watchWait, reply⟩] := by
  obtain ⟨hlength, hrounds⟩ :=
    rounds_acknowledge (Catalog.of default) .deployments Service.scripted 6 unsteadyReplies
  have hne : rounds (Catalog.of default) .deployments Service.scripted 6 Cursor.start
      unsteadyReplies ≠ [] := List.ne_nil_of_length_eq_add_one hlength
  have hconcat := (List.dropLast_concat_getLast hne).symm
  obtain ⟨reply, hsent, -⟩ := hrounds _ _ [] hconcat
  exact ⟨_, _, reply, hconcat, by decide, hsent⟩

end Resource

end EngineCatalog
