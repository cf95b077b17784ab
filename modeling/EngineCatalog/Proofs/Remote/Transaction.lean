import EngineCatalog.KeyValue.Remote
import EngineCatalog.Proofs.Remote.Wire

/-!
# Transactions in chunks

A transaction of a store that is reached over HTTP is sent in chunks, against answers that are given
in advance (`Program.against`). How far it gets depends on nothing but these: it sends one chunk
after the other for as long as each is accepted, and ends with the first that is not
(`Remote.Sends`).

* `Remote.getElem?_chunks` — where each chunk stands among the changes.
* `Remote.Sends.cases` — all chunks are sent and accepted, or the first answer that is none of
  success ends the transaction.
* `Remote.transact_against` — what is sent, read off the requests, and what comes of it. Each
  refusal is reported by the place of its change among all changes. The sum that this takes can be
  too large for a 64-bit word if the place that the store reports is; then there is no outcome.
-/

namespace EngineCatalog

open KeyValue (Change Request Response Step http)

/-- What a program asks for where the answers are given in advance, the next one at a place; and
its result, unless it stops at an overflow. -/
def Program.against {α : Type} (answers : Nat → Outcome Response) :
    Nat → Program http α → List Request × Option α
  | _, .done result => ([], some result)
  | place, .ask request next =>
    let after := Program.against answers (place + 1) (next (answers place))
    (request :: after.1, after.2)
  | _, .overflow => ([], none)

namespace KeyValue.Remote

/-! ## Chunks -/

section Chunks

variable {α : Type} {size : Nat}

theorem getElem?_chunksWithin (hsize : 0 < size) {bound : Nat} {items : List α}
    (hbound : items.length ≤ bound) (k : Nat) :
    (chunksWithin size bound items)[k]?
      = if k * size < items.length then some ((items.drop (k * size)).take size) else none := by
  induction bound generalizing items k with
  | zero =>
    obtain rfl := List.length_eq_zero_iff.mp (Nat.le_zero.mp hbound)
    rw [chunksWithin]
    simp
  | succ bound ih =>
    match items with
    | [] =>
      rw [chunksWithin]
      · simp
      · nofun
    | first :: more =>
      rw [chunksWithin]
      · cases k with
        | zero => simp
        | succ k =>
          have hdrop : ((first :: more).drop size).length ≤ bound := by
            rw [List.length_drop]
            omega
          have hplace : (k + 1) * size = size + k * size := by rw [Nat.succ_mul, Nat.add_comm]
          rw [List.getElem?_cons_succ, ih hdrop, List.drop_drop, List.length_drop, hplace]
          by_cases h : k * size < (first :: more).length - size
          · rw [if_pos h, if_pos (by omega)]
          · rw [if_neg h, if_neg (by omega)]
      · nofun

/-- The chunk at a place starts behind those before it. -/
theorem getElem?_chunks (hsize : 0 < size) (items : List α) (k : Nat) :
    (chunks size items)[k]?
      = if k * size < items.length then some ((items.drop (k * size)).take size) else none :=
  getElem?_chunksWithin hsize (Nat.le_refl _) k

theorem lt_length_chunks_iff (hsize : 0 < size) (items : List α) (k : Nat) :
    k < (chunks size items).length ↔ k * size < items.length := by
  have hchunk := getElem?_chunks hsize items k
  split at hchunk
  · rename_i h
    exact ⟨fun _ => h, fun _ => (List.getElem?_eq_some_iff.mp hchunk).1⟩
  · rename_i h
    exact ⟨fun hlt => absurd (List.getElem?_eq_none_iff.mp hchunk) (Nat.not_le.mpr hlt),
      fun hlt => absurd hlt h⟩

theorem flatten_take_chunksWithin {bound : Nat} {items : List α} (hsize : 0 < size)
    (hbound : items.length ≤ bound) (n : Nat) :
    ((chunksWithin size bound items).take n).flatten = items.take (n * size) := by
  induction bound generalizing items n with
  | zero =>
    obtain rfl := List.length_eq_zero_iff.mp (Nat.le_zero.mp hbound)
    rw [chunksWithin]
    simp
  | succ bound ih =>
    match items with
    | [] =>
      rw [chunksWithin]
      · simp
      · nofun
    | first :: more =>
      rw [chunksWithin]
      · cases n with
        | zero => simp
        | succ n =>
          have hdrop : ((first :: more).drop size).length ≤ bound := by
            rw [List.length_drop]
            omega
          have hplace : (n + 1) * size = size + n * size := by rw [Nat.succ_mul, Nat.add_comm]
          rw [List.take_succ_cons, List.flatten_cons, ih hdrop, hplace, List.take_add]
      · nofun

/-- The first chunks together are the start of the items. -/
theorem flatten_take_chunks (hsize : 0 < size) (items : List α) (n : Nat) :
    ((chunks size items).take n).flatten = items.take (n * size) :=
  flatten_take_chunksWithin hsize (Nat.le_refl _) n

end Chunks

/-! ## Answers -/

/-- The store has accepted what it was sent. -/
def Accepted (answer : Outcome Response) : Prop :=
  ∃ response, answer = .ok response ∧ response.status = 200

/-- The answer is the first that does not accept what was sent. -/
structure FirstOther (answers : Nat → Outcome Response) (k : Nat) : Prop where
  /-- all answers before it accept -/
  before : ∀ j < k, Accepted (answers j)
  /-- it does not -/
  other : ¬ Accepted (answers k)

theorem FirstOther.unique {answers : Nat → Outcome Response} {k other : Nat}
    (h : FirstOther answers k) (h' : FirstOther answers other) : k = other := by
  rcases Nat.lt_trichotomy k other with hlt | heq | hgt
  · exact absurd (h'.before k hlt) h.other
  · exact heq
  · exact absurd (h.before other hgt) h'.other

/-- What is said of a refusal: its number, and what is wrong. -/
def refusalText (number : Nat) (refusal : Refusal) : String :=
  s!"op {number}: {refusal.what}"

/-- Refusals have numbers, counted from the first member of all chunks, if a 64-bit word holds
these. -/
def Numbered (before : Nat) (refusals : List Refusal) : Prop :=
  ∀ refusal ∈ refusals, before + refusal.place < Nat.pow 2 64

theorem refusalTexts_of_numbered {before : Nat} {refusals : List Refusal}
    (h : Numbered before refusals) :
    refusalTexts before refusals
      = some (refusals.map fun refusal => refusalText (before + refusal.place) refusal) := by
  induction refusals with
  | nil => rfl
  | cons refusal more ih =>
    obtain ⟨hrefusal, hmore⟩ := List.forall_mem_cons.mp h
    rw [refusalTexts, if_pos hrefusal, ih hmore]
    rfl

theorem refusalTexts_of_not_numbered {before : Nat} {refusals : List Refusal}
    (h : ¬ Numbered before refusals) : refusalTexts before refusals = none := by
  induction refusals with
  | nil => exact absurd (List.forall_mem_nil _) h
  | cons refusal more ih =>
    rw [refusalTexts]
    by_cases hrefusal : before + refusal.place < Nat.pow 2 64
    · have hmore : ¬ Numbered before more := fun hmore =>
        h (List.forall_mem_cons.mpr ⟨hrefusal, hmore⟩)
      rw [if_pos hrefusal, ih hmore]
      rfl
    · rw [if_neg hrefusal]

/-- What comes of the answer to a chunk, if anything; `before` members were sent before it. -/
def verdict (before : Nat) : Outcome Response → Option (Outcome Unit)
  | .error error => some (.error error)
  | .ok response =>
    if response.status = 200 then some (.ok ())
    else if response.status = 409 then (rejection before response).map .error
    else some (.error (statusError transactionPath response))

/-- What is said of the refusals in an answer; of an answer without any, the whole of it. -/
def reported (before : Nat) (response : Response) : List String :=
  if (readRefusals response.body).isEmpty then [response.text]
  else (readRefusals response.body).map fun refusal =>
    refusalText (before + refusal.place) refusal

theorem rejection_of_numbered {before : Nat} {response : Response}
    (h : Numbered before (readRefusals response.body)) :
    rejection before response = some (.rejected (reported before response)) := by
  rw [rejection, refusalTexts_of_numbered h, reported]
  change some (Error.rejected (if List.isEmpty _ then _ else _)) = _
  rw [List.isEmpty_map]

theorem rejection_of_not_numbered {before : Nat} {response : Response}
    (h : ¬ Numbered before (readRefusals response.body)) : rejection before response = none := by
  rw [rejection, refusalTexts_of_not_numbered h]
  rfl

theorem verdict_eq_ok_iff {before : Nat} {answer : Outcome Response} :
    verdict before answer = some (.ok ()) ↔ Accepted answer := by
  cases answer with
  | error error =>
    refine ⟨fun h => ?_, fun ⟨_, h, _⟩ => by cases h⟩
    cases h
  | ok response =>
    rw [verdict]
    by_cases hok : response.status = 200
    · rw [if_pos hok]
      exact ⟨fun _ => ⟨response, rfl, hok⟩, fun _ => rfl⟩
    · rw [if_neg hok]
      refine ⟨fun h => ?_, fun ⟨_, h, hstatus⟩ => absurd (Except.ok.inj h ▸ hstatus) hok⟩
      split at h
      · obtain ⟨_, -, h⟩ := Option.map_eq_some_iff.mp h
        cases h
      · cases h

/-- Only refusals without numbers have no outcome. -/
theorem verdict_eq_none_iff {before : Nat} {answer : Outcome Response} :
    verdict before answer = none ↔ ∃ response, answer = .ok response ∧ response.status = 409 ∧
      ¬ Numbered before (readRefusals response.body) := by
  cases answer with
  | error error =>
    refine ⟨fun h => ?_, fun ⟨_, h, _⟩ => by cases h⟩
    cases h
  | ok response =>
    rw [verdict]
    refine ⟨fun h => ?_, ?_⟩
    · split at h
      · cases h
      · split at h
        · rename_i hrefused
          refine ⟨response, rfl, hrefused, fun hnumbered => ?_⟩
          rw [rejection_of_numbered hnumbered] at h
          cases h
        · cases h
    · rintro ⟨_, hsame, hrefused, hnumbered⟩
      obtain rfl := Except.ok.inj hsame
      rw [if_neg (by omega), if_pos hrefused, rejection_of_not_numbered hnumbered]
      rfl

/-! ## Sending -/

/-- The request that sends a chunk. -/
def chunkRequest (remote : Remote) (chunk : List Change) : Request :=
  ⟨.put, remote.transactionUrl, some (Step.writeAll (chunk.map Step.ofChange)), remote.timeout⟩

/-- With the next answer at a place, chunks are sent up to the first that is not accepted. -/
inductive Sends (remote : Remote) (answers : Nat → Outcome Response) :
    Nat → List (List Change) → List Request → Option (Outcome Unit) → Prop where
  /-- no chunk is left -/
  | done (place : Nat) : Sends remote answers place [] [] (some (.ok ()))
  /-- the next chunk is accepted -/
  | accepted {place : Nat} {chunk : List Change} {more : List (List Change)} {sent : List Request}
    {result : Option (Outcome Unit)} (accepted : Accepted (answers place))
    (rest : Sends remote answers (place + 1) more sent result) :
    Sends remote answers place (chunk :: more) (remote.chunkRequest chunk :: sent) result
  /-- the next chunk is not accepted -/
  | ended {place : Nat} {chunk : List Change} {more : List (List Change)}
    (other : ¬ Accepted (answers place)) :
    Sends remote answers place (chunk :: more) [remote.chunkRequest chunk]
      (verdict (place * remote.batch) (answers place))

/-- How sending goes on with the answer to a chunk. -/
def goOn (remote : Remote) (before : Nat) (more : List (List Change)) (answer : Outcome Response) :
    Program http (Outcome Unit) :=
  match verdict before answer with
  | some (.ok _) => (remote.sendChanges (before + remote.batch) more).run
  | some (.error error) => .done (.error error)
  | none => .overflow

/-- Sending chunks starts with the request for the first one. -/
theorem run_sendChanges_cons (remote : Remote) (before : Nat) (chunk : List Change)
    (more : List (List Change)) :
    (remote.sendChanges before (chunk :: more)).run
      = Program.ask (remote.chunkRequest chunk) fun answer => remote.goOn before more answer := by
  rw [sendChanges]
  unfold sendChunk send
  change Program.ask _ _ = _
  congr 1
  funext answer
  cases answer with
  | error error => rfl
  | ok response =>
    unfold goOn verdict
    dsimp only
    change Program.bind (ExceptT.run (if response.status = 200 then _ else _)) _ = _
    by_cases hok : response.status = 200
    · rw [if_pos hok, if_pos hok]
      rfl
    · rw [if_neg hok, if_neg hok]
      by_cases hrefused : response.status = 409
      · rw [if_pos hrefused, if_pos hrefused]
        match rejection before response with
        | some error => rfl
        | none => rfl
      · rw [if_neg hrefused, if_neg hrefused]
        rfl

theorem sends_sendChanges (remote : Remote) (answers : Nat → Outcome Response) (place : Nat)
    (chunks : List (List Change)) :
    Sends remote answers place chunks
      ((remote.sendChanges (place * remote.batch) chunks).run.against answers place).1
      ((remote.sendChanges (place * remote.batch) chunks).run.against answers place).2 := by
  induction chunks generalizing place with
  | nil => exact .done place
  | cons chunk more ih =>
    rw [run_sendChanges_cons]
    change Sends remote answers place (chunk :: more) (remote.chunkRequest chunk
      :: (Program.against answers (place + 1)
        (remote.goOn (place * remote.batch) more (answers place))).1)
      (Program.against answers (place + 1)
        (remote.goOn (place * remote.batch) more (answers place))).2
    rw [goOn]
    by_cases haccepted : Accepted (answers place)
    · have hplace : place * remote.batch + remote.batch = (place + 1) * remote.batch :=
        (Nat.succ_mul place remote.batch).symm
      rw [verdict_eq_ok_iff.mpr haccepted, hplace]
      exact .accepted haccepted (ih (place + 1))
    · have hended := @Sends.ended remote answers place chunk more haccepted
      cases hverdict : verdict (place * remote.batch) (answers place) with
      | none =>
        rw [hverdict] at hended
        exact hended
      | some outcome =>
        cases outcome with
        | error error =>
          rw [hverdict] at hended
          exact hended
        | ok => exact absurd (verdict_eq_ok_iff.mp hverdict) haccepted

/-- **Up to the first answer that is none of success.** Either all chunks are sent and accepted, or
those up to the first that is not, and what comes of its answer is the end of it. -/
theorem Sends.cases {remote : Remote} {answers : Nat → Outcome Response} {place : Nat}
    {chunks : List (List Change)} {sent : List Request} {result : Option (Outcome Unit)}
    (h : Sends remote answers place chunks sent result) :
    ((∀ k < chunks.length, Accepted (answers (place + k))) ∧ sent = chunks.map remote.chunkRequest ∧
      result = some (.ok ())) ∨
    ∃ k < chunks.length, FirstOther (fun k => answers (place + k)) k ∧
      sent = (chunks.take (k + 1)).map remote.chunkRequest ∧
      result = verdict ((place + k) * remote.batch) (answers (place + k)) := by
  induction h with
  | done place => exact .inl ⟨fun k hk => absurd hk (Nat.not_lt_zero k), rfl, rfl⟩
  | @accepted place chunk more sent result haccepted _ ih =>
    have hnext : ∀ k, place + 1 + k = place + (k + 1) := fun k => by omega
    rcases ih with ⟨hall, rfl, rfl⟩ | ⟨k, hk, hother, rfl, rfl⟩
    · refine .inl ⟨fun k hk => ?_, rfl, rfl⟩
      cases k with
      | zero => exact haccepted
      | succ k => exact hnext k ▸ hall k (Nat.lt_of_succ_lt_succ hk)
    · refine .inr ⟨k + 1, Nat.succ_lt_succ hk, ⟨fun j hj => ?_, hnext k ▸ hother.other⟩, rfl,
        by rw [hnext k]⟩
      cases j with
      | zero => exact haccepted
      | succ j => exact hnext j ▸ hother.before j (Nat.lt_of_succ_lt_succ hj)
  | @ended place chunk more hother =>
    exact .inr ⟨0, Nat.succ_pos _, ⟨fun j hj => absurd hj (Nat.not_lt_zero j), hother⟩, rfl, rfl⟩

theorem Sends.exists_take {remote : Remote} {answers : Nat → Outcome Response} {place : Nat}
    {chunks : List (List Change)} {sent : List Request} {result : Option (Outcome Unit)}
    (h : Sends remote answers place chunks sent result) :
    ∃ n ≤ chunks.length, sent = (chunks.take n).map remote.chunkRequest := by
  rcases h.cases with ⟨-, rfl, -⟩ | ⟨k, hk, -, rfl, -⟩
  · exact ⟨chunks.length, Nat.le_refl _, by rw [List.take_length]⟩
  · exact ⟨k + 1, hk, rfl⟩

/-! ## Transactions -/

/-- How many members a transaction may have; none counts as one. -/
def chunkSize (settings : StoreSettings) : Nat := max settings.batchSize 1

theorem chunkSize_pos (settings : StoreSettings) : 0 < chunkSize settings :=
  Nat.lt_of_lt_of_le Nat.one_pos (Nat.le_max_right _ _)

/-- The answer to the chunk at a place is the first that does not accept what was sent. -/
structure EndsAt (settings : StoreSettings) (changes : List Change)
    (answers : Nat → Outcome Response) (k : Nat) : Prop extends FirstOther answers k where
  /-- there is such a chunk -/
  inside : k * chunkSize settings < changes.length

/-- What is sent for changes against answers given in advance, and what comes of it. -/
structure Transacts (settings : StoreSettings) (changes : List Change)
    (answers : Nat → Outcome Response) (sent : List Request) (result : Option (Outcome Unit)) :
    Prop where
  /-- every request goes to the address of transactions -/
  address : ∀ request ∈ sent, request.method = .put ∧
    request.url = trimEnd settings.address ++ "/v1/txn" ∧ request.timeout = settings.requestTimeout
  /-- each request carries the chunk of its place -/
  chunk : ∀ k (h : k < sent.length), k * chunkSize settings < changes.length ∧
    sent[k].changes?
      = some ((changes.drop (k * chunkSize settings)).take (chunkSize settings))
  /-- what is sent is the start of the changes, in their order -/
  start : sent.flatMap (fun request => request.changes?.getD [])
    = changes.take (sent.length * chunkSize settings)
  /-- it succeeds if all is sent and accepted, and only then -/
  ok_iff : result = some (.ok ()) ↔ changes.length ≤ sent.length * chunkSize settings ∧
    ∀ k < sent.length, Accepted (answers k)
  /-- after the first other answer nothing is sent -/
  ended : ∀ k, EndsAt settings changes answers k → sent.length = k + 1
  /-- an error of the client is returned -/
  unreached : ∀ k error, EndsAt settings changes answers k → answers k = .error error →
    result = some (.error error)
  /-- a status that is neither success nor refusal is returned as an error -/
  failed : ∀ k response, EndsAt settings changes answers k → answers k = .ok response →
    response.status ≠ 409 →
    result = some (.error (.http "/v1/txn" response.status response.text))
  /-- refusals are returned with their numbers, if they have any -/
  refused : ∀ k response, EndsAt settings changes answers k → answers k = .ok response →
    response.status = 409 →
    Numbered (k * chunkSize settings) (readRefusals response.body) →
    result = some (.error (.rejected (reported (k * chunkSize settings) response)))
  /-- the number of a refusal within its chunk is the place of its change among all changes -/
  position : ∀ k (h : k < sent.length) chunk, sent[k].changes? = some chunk →
    ∀ place < chunk.length, changes[k * chunkSize settings + place]? = chunk[place]?
  /-- refusals without numbers are the only thing of which nothing comes -/
  none_iff : result = none ↔ ∃ k response, EndsAt settings changes answers k ∧
    answers k = .ok response ∧ response.status = 409 ∧
    ¬ Numbered (k * chunkSize settings) (readRefusals response.body)

/-- All changes in a chunk are changes of the transaction. -/
theorem forall_mem_chunk {settings : StoreSettings} {changes : List Change}
    (h : ∀ change ∈ changes, startsWith "/" change.key = true) {chunk : List Change}
    (hchunk : chunk ∈ chunks (chunkSize settings) changes) :
    ∀ change ∈ chunk, startsWith "/" change.key = true := by
  obtain ⟨k, hk⟩ := List.getElem?_of_mem hchunk
  rw [getElem?_chunks (chunkSize_pos settings)] at hk
  split at hk
  · obtain rfl := Option.some.inj hk
    exact fun change hchange => h change (List.mem_of_mem_drop (List.mem_of_mem_take hchange))
  · cases hk

/-- The requests of the first chunks can be read. -/
theorem changes?_of_take {settings : StoreSettings} {changes : List Change}
    (h : ∀ change ∈ changes, startsWith "/" change.key = true) {n k : Nat}
    (hk : k < (((chunks (chunkSize settings) changes).take n).map
      (Remote.of settings).chunkRequest).length) :
    k * chunkSize settings < changes.length ∧
      ((((chunks (chunkSize settings) changes).take n).map
        (Remote.of settings).chunkRequest)[k]).changes?
        = some ((changes.drop (k * chunkSize settings)).take (chunkSize settings)) := by
  have hchunk := getElem?_chunks (chunkSize_pos settings) changes k
  have hlength : k < (chunks (chunkSize settings) changes).length := by
    rw [List.length_map, List.length_take] at hk
    omega
  have hinside := (lt_length_chunks_iff (chunkSize_pos settings) changes k).mp hlength
  rw [if_pos hinside] at hchunk
  obtain ⟨_, hget⟩ := List.getElem?_eq_some_iff.mp hchunk
  rw [List.getElem_map, List.getElem_take, hget, chunkRequest]
  exact ⟨hinside,
    Request.changes?_ofChanges (forall_mem_chunk h (List.mem_of_getElem? hchunk)) _ _ _⟩

section Sends

variable {settings : StoreSettings} {changes : List Change} {answers : Nat → Outcome Response}
  {sent : List Request} {result : Option (Outcome Unit)}
  (hsends : Sends (Remote.of settings) answers 0 (chunks (chunkSize settings) changes) sent result)

include hsends

/-- All is sent and accepted, or sending ends at one answer, of which the result comes. -/
theorem Sends.ends :
    (result = some (.ok ()) ∧ changes.length ≤ sent.length * chunkSize settings ∧
      ∀ k, k * chunkSize settings < changes.length → Accepted (answers k)) ∨
    ∃ k, EndsAt settings changes answers k ∧ sent.length = k + 1 ∧
      result = verdict (k * chunkSize settings) (answers k) := by
  have hinside := lt_length_chunks_iff (chunkSize_pos settings) changes
  rcases hsends.cases with ⟨hall, rfl, rfl⟩ | ⟨k, hk, hother, rfl, rfl⟩
  · refine .inl ⟨rfl, ?_, fun k hk => ?_⟩
    · rw [List.length_map]
      exact Nat.not_lt.mp fun hlt => Nat.lt_irrefl _ ((hinside _).mpr hlt)
    · have haccepted := hall k ((hinside k).mpr hk)
      rwa [Nat.zero_add] at haccepted
  · refine .inr ⟨k, ⟨⟨fun j hj => ?_, ?_⟩, (hinside k).mp hk⟩, ?_, ?_⟩
    · have haccepted := hother.before j hj
      rwa [Nat.zero_add] at haccepted
    · have hrefused := hother.other
      rwa [Nat.zero_add] at hrefused
    · rw [List.length_map, List.length_take]
      omega
    · rw [Nat.zero_add]
      rfl

theorem Sends.address :
    ∀ request ∈ sent, request.method = .put ∧
      request.url = trimEnd settings.address ++ "/v1/txn" ∧
      request.timeout = settings.requestTimeout := by
  obtain ⟨n, -, rfl⟩ := hsends.exists_take
  intro request hrequest
  obtain ⟨chunk, -, rfl⟩ := List.mem_map.mp hrequest
  exact ⟨rfl, rfl, rfl⟩

/-- Each request carries the chunk of its place. -/
theorem Sends.chunk (h : ∀ change ∈ changes, startsWith "/" change.key = true) (k : Nat)
    (hk : k < sent.length) :
    k * chunkSize settings < changes.length ∧
      sent[k].changes?
        = some ((changes.drop (k * chunkSize settings)).take (chunkSize settings)) := by
  obtain ⟨n, -, rfl⟩ := hsends.exists_take
  exact changes?_of_take h hk

theorem Sends.start (h : ∀ change ∈ changes, startsWith "/" change.key = true) :
    sent.flatMap (fun request => request.changes?.getD [])
      = changes.take (sent.length * chunkSize settings) := by
  obtain ⟨n, hn, rfl⟩ := hsends.exists_take
  have hread : ∀ chunk ∈ (chunks (chunkSize settings) changes).take n,
      ((Remote.of settings).chunkRequest chunk).changes?.getD [] = chunk := by
    intro chunk hmem
    rw [chunkRequest, Request.changes?_ofChanges
      (forall_mem_chunk h (List.mem_of_mem_take hmem)), Option.getD_some]
  rw [List.flatMap_map, List.length_map, List.length_take, Nat.min_eq_left hn,
    ← flatten_take_chunks (chunkSize_pos settings), List.flatMap_def, List.map_congr_left hread,
    List.map_id']

theorem Sends.ok_iff (h : ∀ change ∈ changes, startsWith "/" change.key = true) :
    result = some (.ok ()) ↔ changes.length ≤ sent.length * chunkSize settings ∧
      ∀ k < sent.length, Accepted (answers k) := by
  refine ⟨fun hok => ?_, fun ⟨hlength, haccepted⟩ => ?_⟩
  · rcases hsends.ends with ⟨-, hlength, hall⟩ | ⟨k, hk, -, hresult⟩
    · exact ⟨hlength, fun k hk => hall k (hsends.chunk h k hk).1⟩
    · exact absurd (verdict_eq_ok_iff.mp (hresult.symm.trans hok)) hk.other
  · rcases hsends.ends with ⟨hresult, -, -⟩ | ⟨k, hk, hsent, -⟩
    · exact hresult
    · exact absurd (haccepted k (by omega)) hk.other

/-- Sending ends at the first other answer. -/
theorem Sends.last {k : Nat} (hk : EndsAt settings changes answers k) :
    sent.length = k + 1 ∧ result = verdict (k * chunkSize settings) (answers k) := by
  rcases hsends.ends with ⟨-, -, hall⟩ | ⟨other, hother, hlength, hresult⟩
  · exact absurd (hall k hk.inside) hk.other
  · obtain rfl := hk.unique hother.toFirstOther
    exact ⟨hlength, hresult⟩

theorem Sends.none_iff :
    result = none ↔ ∃ k response, EndsAt settings changes answers k ∧
      answers k = .ok response ∧ response.status = 409 ∧
      ¬ Numbered (k * chunkSize settings) (readRefusals response.body) := by
  refine ⟨fun hnone => ?_, fun ⟨k, response, hk, hanswer, hstatus, hnumbered⟩ => ?_⟩
  · rcases hsends.ends with ⟨hresult, -, -⟩ | ⟨k, hk, -, hresult⟩
    · rw [hnone] at hresult
      cases hresult
    · obtain ⟨response, hanswer, hstatus, hnumbered⟩ :=
        verdict_eq_none_iff.mp (hresult.symm.trans hnone)
      exact ⟨k, response, hk, hanswer, hstatus, hnumbered⟩
  · rw [(hsends.last hk).2]
    exact verdict_eq_none_iff.mpr ⟨response, hanswer, hstatus, hnumbered⟩

theorem Sends.transacts (h : ∀ change ∈ changes, startsWith "/" change.key = true) :
    Transacts settings changes answers sent result where
  address := hsends.address
  chunk := hsends.chunk h
  start := hsends.start h
  ok_iff := hsends.ok_iff h
  ended k hk := (hsends.last hk).1
  unreached k error hk hanswer := by
    rw [(hsends.last hk).2, hanswer]
    rfl
  failed k response hk hanswer hstatus := by
    have hother : response.status ≠ 200 := fun hok => hk.other ⟨response, hanswer, hok⟩
    rw [(hsends.last hk).2, hanswer, verdict, if_neg hother, if_neg hstatus]
    rfl
  refused k response hk hanswer hstatus hnumbered := by
    rw [(hsends.last hk).2, hanswer, verdict, if_neg (by omega), if_pos hstatus,
      rejection_of_numbered hnumbered]
    rfl
  position k hk chunk hread place hplace := by
    rw [(hsends.chunk h k hk).2] at hread
    obtain rfl := Option.some.inj hread
    rw [List.length_take] at hplace
    rw [List.getElem?_take_of_lt (by omega), List.getElem?_drop]
  none_iff := hsends.none_iff

end Sends

/-- **Transactions are sent in chunks.** -/
theorem transact_against (settings : StoreSettings) {changes : List Change}
    (h : ∀ change ∈ changes, startsWith "/" change.key = true)
    (answers : Nat → Outcome Response) :
    Transacts settings changes answers
      (((Remote.of settings).transact changes).run.against answers 0).1
      (((Remote.of settings).transact changes).run.against answers 0).2 := by
  have hsends := sends_sendChanges (Remote.of settings) answers 0
    (chunks (chunkSize settings) changes)
  rw [Nat.zero_mul] at hsends
  exact hsends.transacts h

/-- Settings with transactions of one member. -/
def singleSettings : StoreSettings := ⟨"http://127.0.0.1:8500", none, 20, 5000, 1⟩

/-- A key is set and another one deleted. -/
def twoChanges : List Change := [.set "/a" (Text.encode "1"), .delete "/b"]

/-- The first chunk is accepted, the second one is refused. -/
def secondRefused (body : String) : Nat → Outcome Response
  | 0 => .ok ⟨200, Dict.empty, Text.encode "\x7b\x7d"⟩
  | _ => .ok ⟨409, Dict.empty, Text.encode body⟩

theorem endsAt_secondRefused (body : String) :
    EndsAt singleSettings twoChanges (secondRefused body) 1 where
  before := by
    intro j hj
    obtain rfl : j = 0 := by omega
    exact ⟨_, rfl, rfl⟩
  other := by
    rintro ⟨_, hanswer, hstatus⟩
    obtain rfl := Except.ok.inj hanswer
    cases hstatus
  inside := by decide

/-- The refusal of the only member of the second chunk is that of the second change. -/
theorem transact_against_secondRefused :
    (∀ change ∈ twoChanges, startsWith "/" change.key = true) ∧
      (((Remote.of singleSettings).transact twoChanges).run.against
        (secondRefused "\x7b\"Errors\":[\x7b\"OpIndex\":0,\"What\":\"locked\"\x7d]\x7d") 0).2
        = some (.error (.rejected ["op 1: locked"])) := by
  have habsolute : ∀ change ∈ twoChanges, startsWith "/" change.key = true := by decide
  refine ⟨habsolute, ?_⟩
  have hnumbered : ∀ refusal ∈ readRefusals (Text.encode
      "\x7b\"Errors\":[\x7b\"OpIndex\":0,\"What\":\"locked\"\x7d]\x7d"),
      1 + refusal.place < Nat.pow 2 64 := by decide +kernel
  exact (transact_against singleSettings habsolute _).refused 1 _ (endsAt_secondRefused _) rfl rfl
    hnumbered

/-- A place that cannot be counted further leaves the refusal of the second chunk without an
outcome. -/
theorem refusal_without_outcome :
    ∃ answers, EndsAt singleSettings twoChanges answers 1 ∧
      (∃ response, answers 1 = .ok response ∧ response.status = 409) ∧
      (((Remote.of singleSettings).transact twoChanges).run.against answers 0).2 = none := by
  refine ⟨secondRefused
    "\x7b\"Errors\":[\x7b\"OpIndex\":18446744073709551615,\"What\":\"locked\"\x7d]\x7d",
    endsAt_secondRefused _, ⟨_, rfl, rfl⟩, ?_⟩
  exact Option.isNone_iff_eq_none.mp (by decide +kernel)

end KeyValue.Remote

end EngineCatalog
