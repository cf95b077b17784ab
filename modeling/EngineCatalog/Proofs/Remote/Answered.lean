import EngineCatalog.Proofs.Json.Payload
import EngineCatalog.Proofs.Remote.Transaction
import EngineCatalog.Proofs.Remote.Wait

/-!
# Every call is answered, but for one sum

A store that is reached over HTTP may answer anything: any status, any headers, any bytes. The client
adds to what it is told in two places only: it adds up the time that a wait may take, and it counts
the place of a refusal from the first member of all chunks. The first sum always exists if a wait is
as long as is allowed (`Remote.readTimeout_isSome`). Main statement: so a call comes to an outcome
whatever the answers are, unless the second sum is too large for a 64-bit word, which takes a chunk
that is not the first one (`Remote.answer_without_outcome_iff`).

* `Remote.Overflows` — the sum is too large for an answer to a chunk.
* `Call.GoesOn` — with which answers a call goes on to its next chunk.
-/

namespace EngineCatalog

open KeyValue (Response http)

/-- What is made of the result of a program is made of it where the answers are given, too. -/
theorem Program.against_bind_done {α β : Type} (answers : Nat → Outcome Response) (place : Nat)
    (program : Program http α) (f : α → β) :
    ((program.bind fun result => .done (f result)).against answers place).2
      = (program.against answers place).2.map f := by
  induction program generalizing place with
  | done result => rfl
  | ask request next ih => exact ih _ _
  | overflow => rfl

namespace KeyValue

open Json (Reader Record)
open Text (Bytes)

/-! ## Places of refusals -/

/-- The place of a refusal is read as a word. -/
theorem place_lt_of_mem_readRefusals {body : Bytes} {refusal : Refusal}
    (h : refusal ∈ readRefusals body) : refusal.place < Nat.pow 2 64 := by
  have hrefusal : ∀ {depth : Nat} {bytes rest : Bytes} {refusal : Refusal},
      Refusal.record.reader depth bytes = .ok (refusal, rest) → refusal.place < Nat.pow 2 64 := by
    intro depth bytes rest refusal hread
    refine Record.of_reader (P := fun refusal => refusal.place < Nat.pow 2 64) rfl (by decide)
      (List.forall_mem_cons.mpr ⟨?_, List.forall_mem_singleton.mpr ?_⟩) hread
    · intro depth bytes change rest hfield refusal _
      obtain ⟨place, hplace, rfl⟩ := Json.Reading.map_eq_ok_iff.mp hfield
      exact Json.lt_of_word hplace
    · intro depth bytes change rest hfield refusal hrefusal
      obtain ⟨what, -, rfl⟩ := Json.Reading.map_eq_ok_iff.mp hfield
      exact hrefusal
  rw [readRefusals] at h
  split at h
  · rename_i refusals hread
    obtain ⟨rest, hread⟩ := Json.exists_of_run hread
    refine Record.of_reader (P := fun refusals : List Refusal =>
      ∀ refusal ∈ refusals, refusal.place < Nat.pow 2 64) rfl (List.forall_mem_nil _)
      (List.forall_mem_singleton.mpr ?_) hread refusal h
    intro depth bytes change rest hfield refusals _
    obtain ⟨refusals, hlist, rfl⟩ := Json.Reading.map_eq_ok_iff.mp hfield
    cases depth with
    | zero =>
      unfold Reader.list at hlist
      split at hlist
      · cases hlist
      · split at hlist <;> cases hlist
    | succ depth => exact Json.forall_of_list hrefusal hlist
  · cases h

namespace Remote

/-! ## One request -/

variable {α β : Type} (answers : Nat → Outcome Response) (place : Nat)

/-- An operation comes to no outcome if it comes to none without what is made of its result. -/
theorem against_map_eq_none_iff (operation : Operation http α) (f : α → β) :
    ((do return f (← operation)).run.against answers place).2 = none
      ↔ (operation.run.against answers place).2 = none := by
  have hrun : (do return f (← operation)).run
      = operation.run.bind fun outcome => .done (outcome.map f) := by
    rw [bind_pure_comp, ExceptT.run_map]
    exact map_eq_pure_bind _ _
  rw [hrun, Program.against_bind_done, Option.map_eq_none_iff]

/-- What follows a request goes on with the answer to it, if that is a response. -/
theorem against_send (request : Request) (f : Response → Operation http α) :
    ((send request >>= f).run.against answers place).2
      = match answers place with
        | .ok response => ((f response).run.against answers (place + 1)).2
        | .error error => some (.error error) := by
  change (Program.against answers (place + 1)
    (ExceptT.run (ExceptT.mk (Program.done (id (answers place))) >>= f))).2 = _
  cases answers place <;> rfl

theorem against_ofOutcome (outcome : Outcome α) (f : α → Operation http β) :
    ((Operation.ofOutcome outcome >>= f).run.against answers place).2 = none
      ↔ ∃ result, outcome = .ok result ∧ ((f result).run.against answers place).2 = none := by
  cases outcome with
  | ok result => exact ⟨fun hnone => ⟨result, rfl, hnone⟩, fun ⟨_, rfl, hnone⟩ => hnone⟩
  | error error => exact ⟨nofun, nofun⟩

/-! ## Chunks -/

/-- An answer to a chunk for which the place of a refusal is too large a sum, if `before` members
were sent before the chunk. -/
def Overflows (before : Nat) (answer : Outcome Response) : Prop :=
  ∃ response, answer = .ok response ∧ response.status = 409 ∧
    ¬ Numbered before (readRefusals response.body)

/-- There is no such answer to the first chunk. -/
theorem not_overflows_zero (answer : Outcome Response) : ¬ Overflows 0 answer := by
  rintro ⟨response, -, -, hnumbered⟩
  refine hnumbered fun refusal hrefusal => ?_
  rw [Nat.zero_add]
  exact place_lt_of_mem_readRefusals hrefusal

/-- What follows a chunk comes to no outcome if the chunk does not, or if it does not itself. -/
theorem against_sendChunk (remote : Remote) (before : Nat) (steps : List Step)
    (f : Response → Operation http α) :
    ((remote.sendChunk before steps >>= f).run.against answers place).2 = none
      ↔ Overflows before (answers place) ∨ ∃ response, answers place = .ok response ∧
        response.status = 200 ∧ ((f response).run.against answers (place + 1)).2 = none := by
  rw [sendChunk, bind_assoc, against_send]
  cases answers place with
  | error error => simp [Overflows]
  | ok response =>
    simp only [Overflows, Except.ok.injEq, exists_eq_left']
    by_cases hok : response.status = 200
    · simp [hok]
    · rw [if_neg hok]
      by_cases hrefused : response.status = 409
      · rw [if_pos hrefused]
        by_cases hnumbered : Numbered before (readRefusals response.body)
        · rw [rejection_of_numbered hnumbered]
          refine ⟨nofun, ?_⟩
          rintro (⟨-, hnone⟩ | ⟨hstatus, -⟩)
          · exact absurd hnumbered hnone
          · exact absurd hstatus hok
        · rw [rejection_of_not_numbered hnumbered]
          exact ⟨fun _ => .inl ⟨hrefused, hnumbered⟩, fun _ => rfl⟩
      · rw [if_neg hrefused]
        refine ⟨nofun, ?_⟩
        rintro (⟨hstatus, -⟩ | ⟨hstatus, -⟩)
        · exact absurd hstatus hrefused
        · exact absurd hstatus hok

/-! ## Reads of several keys -/

/-- The answer to a chunk of keys lists keys, each with a value that can be read. -/
def Readable (answer : Outcome Response) : Prop :=
  ∃ response pairs, answer = .ok response ∧ response.status = 200 ∧
    readResults response.body = .ok pairs ∧ ∀ pair ∈ pairs, ∃ entry, pair.entry = .ok entry

/-- Which keys were asked for does not matter for whether what is listed can be read. -/
theorem exists_requested_iff (paths : List String) {pairs : List Pair} :
    (∃ entries, requested paths pairs = .ok entries)
      ↔ ∀ pair ∈ pairs, ∃ entry, pair.entry = .ok entry := by
  induction pairs with
  | nil => exact ⟨fun _ => List.forall_mem_nil _, fun _ => ⟨[], rfl⟩⟩
  | cons pair more ih =>
    rw [List.forall_mem_cons, ← ih, requested]
    cases hentry : pair.entry with
    | error error =>
      refine ⟨nofun, ?_⟩
      rintro ⟨⟨_, hnone⟩, -⟩
      cases hnone
    | ok entry =>
      cases hmore : requested paths more with
      | error error =>
        refine ⟨nofun, ?_⟩
        rintro ⟨-, _, hnone⟩
        cases hnone
      | ok entries => exact ⟨fun _ => ⟨⟨entry, rfl⟩, entries, rfl⟩, fun _ => ⟨_, rfl⟩⟩

/-- A read of chunks comes to no outcome if the first one does not, or if it can be read and the others
come to none. -/
theorem against_readChunks_cons (remote : Remote) (before : Nat) (chunk : List String)
    (more : List (List String)) :
    ((remote.readChunks before (chunk :: more)).run.against answers place).2 = none
      ↔ Overflows before (answers place) ∨ Readable (answers place) ∧
        ((remote.readChunks (before + remote.batch) more).run.against answers (place + 1)).2
          = none := by
  rw [readChunks, against_sendChunk]
  refine or_congr Iff.rfl ?_
  simp only [against_ofOutcome, against_map_eq_none_iff, Readable]
  constructor
  · rintro ⟨response, hanswer, hok, pairs, hpairs, entries, hentries, hnone⟩
    exact ⟨⟨response, pairs, hanswer, hok, hpairs, (exists_requested_iff chunk).mp
      ⟨entries, hentries⟩⟩, hnone⟩
  · rintro ⟨⟨response, pairs, hanswer, hok, hpairs, hall⟩, hnone⟩
    obtain ⟨entries, hentries⟩ := (exists_requested_iff chunk).mpr hall
    exact ⟨response, hanswer, hok, pairs, hpairs, entries, hentries, hnone⟩

/-- A read of chunks comes to no outcome if the sum is too large for the answer to one of them, and
those before it can be read. -/
theorem against_readChunks (remote : Remote) (chunks : List (List String)) :
    ((remote.readChunks (place * remote.batch) chunks).run.against answers place).2 = none
      ↔ ∃ k < chunks.length, (∀ j < k, Readable (answers (place + j))) ∧
        Overflows ((place + k) * remote.batch) (answers (place + k)) := by
  induction chunks generalizing place with
  | nil =>
    refine ⟨nofun, ?_⟩
    rintro ⟨k, hk, -⟩
    cases hk
  | cons chunk more ih =>
    have hplace : place * remote.batch + remote.batch = (place + 1) * remote.batch :=
      (Nat.succ_mul place remote.batch).symm
    have hnext : ∀ k, place + 1 + k = place + (k + 1) := fun k => by omega
    rw [against_readChunks_cons, hplace, ih]
    constructor
    · rintro (hfirst | ⟨hread, k, hk, hall, hoverflows⟩)
      · exact ⟨0, Nat.succ_pos _, fun j hj => absurd hj (Nat.not_lt_zero j), hfirst⟩
      · refine ⟨k + 1, Nat.succ_lt_succ hk, fun j hj => ?_, hnext k ▸ hoverflows⟩
        cases j with
        | zero => exact hread
        | succ j => exact hnext j ▸ hall j (Nat.lt_of_succ_lt_succ hj)
    · rintro ⟨k, hk, hall, hoverflows⟩
      cases k with
      | zero => exact .inl hoverflows
      | succ k =>
        refine .inr ⟨hall 0 (Nat.succ_pos k), k, Nat.lt_of_succ_lt_succ hk, fun j hj => ?_,
          (hnext k).symm ▸ hoverflows⟩
        exact (hnext j).symm ▸ hall (j + 1) (Nat.succ_lt_succ hj)

/-! ## Other calls -/

/-- A fetch that has a timeout comes to an outcome. -/
theorem against_fetch {remote : Remote} {wait : Option Wait}
    (hspan : (remote.readTimeout wait).isSome = true) (path : String) (all : Bool) :
    ((remote.fetch path all wait).run.against answers place).2 ≠ none := by
  obtain ⟨timeout, htimeout⟩ := Option.isSome_iff_exists.mp hspan
  rw [fetch, htimeout]
  dsimp only
  rw [against_send]
  cases answers place <;> nofun

theorem against_put (remote : Remote) (path : String) (value : Bytes) :
    ((remote.put path value).run.against answers place).2 ≠ none := by
  rw [put, against_send]
  cases answers place with
  | error error => nofun
  | ok response =>
    dsimp only
    split
    · nofun
    · split <;> nofun

theorem against_delete (remote : Remote) (path : String) (all : Bool) :
    ((remote.delete path all).run.against answers place).2 ≠ none := by
  rw [delete, against_send]
  cases answers place with
  | error error => nofun
  | ok response =>
    dsimp only
    split <;> nofun

end Remote

/-! ## All calls -/

namespace Call

/-- How many members the call sends in chunks. -/
def members : Call → Nat
  | .transact changes => changes.length
  | .readMany paths => paths.length
  | _ => 0

/-- With this answer to a chunk the call goes on to the next one. -/
def GoesOn : Call → Outcome Response → Prop
  | .transact _, answer => Remote.Accepted answer
  | .readMany _, answer => Remote.Readable answer
  | _, _ => False

/-- The call does not wait for longer. -/
def WaitsAtMost (longest : Span) : Call → Prop
  | .await _ _ _ span => span.nanos ≤ longest.nanos
  | _ => True

end Call

namespace Remote

/-- **Every call is answered, but for one sum.** Whatever the answers are, a call comes to an outcome
unless it gets to a chunk behind the first one that is refused with a place too large to be counted
from the first member of all chunks. In particular, timeouts exist for all waits that are allowed. -/
theorem answer_without_outcome_iff {settings : StoreSettings}
    (hmillis : settings.requestMillis < Nat.pow 2 64) {call : Call}
    (hwait : call.WaitsAtMost (.ofSeconds longestWait)) (answers : Nat → Outcome Response) :
    (((Remote.of settings).answer call).against answers 0).2 = none
      ↔ ∃ k, 0 < k ∧ k * chunkSize settings < call.members ∧
        (∀ j < k, call.GoesOn (answers j)) ∧ Overflows (k * chunkSize settings) (answers k) := by
  have hfirst : ∀ k, Overflows (k * chunkSize settings) (answers k) → 0 < k := by
    intro k hoverflows
    refine Nat.pos_of_ne_zero ?_
    rintro rfl
    rw [Nat.zero_mul] at hoverflows
    exact not_overflows_zero _ hoverflows
  cases call with
  | read path all =>
    exact iff_of_false (against_fetch answers 0 rfl path all)
      fun ⟨_, _, hk, _⟩ => absurd hk (Nat.not_lt_zero _)
  | await path all since span =>
    exact iff_of_false (against_fetch answers 0 (readTimeout_isSome hmillis hwait since) path all)
      fun ⟨_, _, hk, _⟩ => absurd hk (Nat.not_lt_zero _)
  | put path value =>
    exact iff_of_false (against_put answers 0 _ path value)
      fun ⟨_, _, hk, _⟩ => absurd hk (Nat.not_lt_zero _)
  | delete path all =>
    exact iff_of_false (against_delete answers 0 _ path all)
      fun ⟨_, _, hk, _⟩ => absurd hk (Nat.not_lt_zero _)
  | transact changes =>
    have hsends := sends_sendChanges (Remote.of settings) answers 0
      (chunks (chunkSize settings) changes)
    rw [Nat.zero_mul] at hsends
    refine hsends.none_iff.trans ⟨?_, ?_⟩
    · rintro ⟨k, response, hk, hoverflows⟩
      exact ⟨k, hfirst k ⟨response, hoverflows⟩, hk.inside, hk.before, response, hoverflows⟩
    · rintro ⟨k, -, hk, hall, response, hanswer, hstatus, hnumbered⟩
      have hother : ¬ Accepted (answers k) := by
        rintro ⟨other, hsame, hok⟩
        rw [hanswer] at hsame
        obtain rfl := Except.ok.inj hsame
        omega
      exact ⟨k, response, ⟨⟨hall, hother⟩, hk⟩, hanswer, hstatus, hnumbered⟩
  | readMany paths =>
    have hreads := against_readChunks answers 0 (Remote.of settings)
      (chunks (chunkSize settings) paths)
    simp only [Nat.zero_mul, Nat.zero_add, lt_length_chunks_iff (chunkSize_pos settings)] at hreads
    refine hreads.trans (exists_congr fun k => ⟨?_, And.right⟩)
    exact fun hk => ⟨hfirst k hk.2.2, hk⟩

/-- A watch is answered, whatever the answer is. -/
theorem answered_watch :
    singleSettings.requestMillis < Nat.pow 2 64 ∧
      (Call.await "/a" true 7 singleSettings.watchWait).WaitsAtMost (.ofSeconds longestWait) ∧
      ∀ answers, (((Remote.of singleSettings).answer
        (.await "/a" true 7 singleSettings.watchWait)).against answers 0).2 ≠ none := by
  have hmillis : singleSettings.requestMillis < Nat.pow 2 64 := by decide
  have hwait : (Call.await "/a" true 7 singleSettings.watchWait).WaitsAtMost
      (.ofSeconds longestWait) := StoreSettings.watchWait_le (by decide)
  refine ⟨hmillis, hwait, fun answers hnone => ?_⟩
  obtain ⟨k, -, hk, -⟩ := (answer_without_outcome_iff hmillis hwait answers).mp hnone
  exact Nat.not_lt_zero _ hk

/-- A read of two keys is not answered where the second chunk is refused with a place that cannot be
counted further. -/
theorem read_without_outcome :
    singleSettings.check = .ok () ∧
      (((Remote.of singleSettings).answer (.readMany ["/a", "/b"])).against (secondRefused
        "\x7b\"Errors\":[\x7b\"OpIndex\":18446744073709551615,\"What\":\"locked\"\x7d]\x7d")
        0).2 = none :=
  ⟨by decide, Option.isNone_iff_eq_none.mp (by decide +kernel)⟩

end Remote

end KeyValue

end EngineCatalog
