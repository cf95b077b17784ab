import EngineCatalog.Proofs.Remote.Answered
import EngineCatalog.Proofs.Remote.Listing
import EngineCatalog.Proofs.Watch.Acknowledgement

/-!
# What a watch that has seen nothing is given

Index 0 stands for having seen nothing, so a watch whose cursor stands there is to be given what is
stored, whatever the index of the reply. Main statement: over a store in memory it always is, as no
query has index 0; over HTTP it is unless the response carries the index 0 itself, which is let
through like any other and then taken for nothing new (`Resource.first_payload`).

* `Program.overHttp` — a program over a store, with each call carried out by a client over HTTP.
* `KeyValue.Response.Delivers` — the response is a reply to a wait, with its index and its entries.
-/

namespace EngineCatalog

open KeyValue (Call Entry Listing Remote Response Store Write http keyValue)
open Watch (Cursor Update)

/-! ## Over HTTP -/

/-- The program, with each of its calls carried out over HTTP. -/
def Program.overHttp {α : Type} (client : Remote) : Program keyValue α → Program http α
  | .done result => .done result
  | .ask call next => (client.answer call).bind fun answer => (next answer).overHttp client
  | .overflow => .overflow

namespace KeyValue

/-- The response is a reply to a wait. It lists what is stored, or says that nothing is there; in
either case the index stands in its header. -/
structure Response.Delivers (response : Response) (path : String) (listing : Listing) : Prop where
  /-- the header is a number -/
  index : ∃ text, response.headers.find? Remote.indexHeader = some text ∧
    Text.readWord (Text.trim text) = .ok listing.index
  /-- success comes with entries that can be read -/
  entries : response.status = 200 ∧ readListing path response.body = .ok listing.entries ∨
    response.status = 404 ∧ listing.entries = []

namespace Remote

theorem indexOf_eq_ok_iff {path : String} {response : Response} {index : Nat} :
    indexOf path response = .ok index ↔
      ∃ text, response.headers.find? indexHeader = some text ∧
        Text.readWord (Text.trim text) = .ok index := by
  rw [indexOf]
  cases response.headers.find? indexHeader with
  | none => simp
  | some text => cases hread : Text.readWord (Text.trim text) <;> simp [hread]

/-- What is read as a reply to a wait is one, and nothing else is. -/
theorem listing_eq_ok_iff {path : String} {response : Response} {found : Listing} :
    listing path true response = .ok found ↔ response.Delivers path found := by
  have hdelivers : response.Delivers path found ↔ indexOf path response = .ok found.index ∧
      (response.status = 200 ∧ readListing path response.body = .ok found.entries ∨
        response.status = 404 ∧ found.entries = []) := by
    rw [indexOf_eq_ok_iff]
    exact ⟨fun h => ⟨h.index, h.entries⟩, fun h => ⟨h.1, h.2⟩⟩
  rw [hdelivers, listing]
  by_cases hok : response.status = 200
  · rw [if_pos hok]
    cases indexOf path response with
    | error error => exact iff_of_false (fun h => by cases h) (fun h => by cases h.1)
    | ok index =>
      cases readListing path response.body with
      | error error => simp [bind, Except.bind, hok]
      | ok entries =>
        cases found
        simp [bind, Except.bind, pure, Except.pure, hok]
  · rw [if_neg hok]
    by_cases hnone : response.status = 404
    · rw [if_pos hnone, if_pos rfl]
      cases indexOf path response with
      | error error => exact iff_of_false (fun h => by cases h) (fun h => by cases h.1)
      | ok index =>
        cases found
        simp [bind, Except.bind, pure, Except.pure, hnone, eq_comm]
    · rw [if_neg hnone]
      refine iff_of_false (fun h => by cases h) fun h => ?_
      rcases h.2 with ⟨hstatus, -⟩ | ⟨hstatus, -⟩
      · exact absurd hstatus hok
      · exact absurd hstatus hnone

theorem bind_listing_eq_ok_iff {path : String} {answer : Outcome Response} {found : Listing} :
    answer.bind (listing path true) = .ok found ↔
      ∃ response, answer = .ok response ∧ response.Delivers path found := by
  cases answer with
  | error error => exact ⟨nofun, nofun⟩
  | ok response =>
    refine listing_eq_ok_iff.trans ⟨fun h => ⟨response, rfl, h⟩, ?_⟩
    rintro ⟨_, ⟨⟩, h⟩
    exact h

/-- A wait for which there is a timeout comes to what the first answer says. -/
theorem against_await {client : Remote} {since : Nat} {span : Span}
    (hspan : (client.readTimeout (some (since, span))).isSome = true) (path : String) (all : Bool)
    (answers : Nat → Outcome Response) (place : Nat) :
    ((client.answer (.await path all since span)).against answers place).2
      = some ((answers place).bind (Remote.listing path true)) := by
  obtain ⟨timeout, htimeout⟩ := Option.isSome_iff_exists.mp hspan
  rw [answer, fetch, htimeout]
  dsimp only
  rw [against_send]
  cases answers place <;> rfl

end Remote

end KeyValue

namespace Resource

/-- A call that is answered with the index that was sent says that nothing has changed; with any
other index it is what the entries decode to. -/
theorem receive_listing (catalog : Catalog) (resource : Resource) (cursor : Cursor)
    (listing : Listing) :
    (cursor.receive (resource.decode catalog) (.ok listing)).1
      = if listing.index = cursor.last then .ok .unchanged
        else (resource.decode catalog listing.entries).map .changed := by
  rw [Cursor.receive, Cursor.changes]
  by_cases hindex : listing.index = cursor.last
  · simp [hindex]
  · cases hdecode : resource.decode catalog listing.entries <;> simp [hindex, Except.map]

/-- A call of the watch over HTTP comes to what its cursor makes of the reply. -/
theorem against_watch (catalog : Catalog) (resource : Resource) (cursor : Cursor) (client : Remote)
    (answers : Nat → Outcome Response) :
    (((resource.watch catalog cursor).overHttp client).against answers 0).2
      = ((client.answer (.await (resource.path catalog) resource.all cursor.last
          catalog.watchWait)).against answers 0).2.map
            (cursor.receive (resource.decode catalog)) := by
  rw [watch_eq]
  exact Program.against_bind_done answers 0 _ _

/-- **A first payload is given back, but for index 0.** Where the cursor of a watch stands at 0, a
call over a store in memory does not wait, and comes to what is stored or to why that does not
decode, whatever led to the store. A call over HTTP, for which a timeout exists, comes to an outcome.
The same holds for it if the reply has another index than 0; and it says that nothing has changed
exactly if there is a reply that carries the index 0. -/
theorem first_payload (catalog : Catalog) (resource : Resource) {cursor : Cursor}
    (hstart : cursor.last = 0) :
    (∀ (limit : Nat) (writes : List Write),
      let store := (Store.fresh limit).after writes
      Session.mustWait store (resource.watch catalog cursor) = false ∧
      ∃ after, (resource.watch catalog cursor).run (σ := keyValue)
          (fun request store => store.answer request) store
        = some (((resource.decode catalog (resource.entriesIn catalog store)).map .changed, after),
          store)) ∧
    ∀ (client : Remote) (answers : Nat → Outcome Response),
      (client.readTimeout (some (0, catalog.watchWait))).isSome = true →
      ∃ outcome after, (((resource.watch catalog cursor).overHttp client).against answers 0).2
          = some (outcome, after) ∧
        (∀ response listing, answers 0 = .ok response →
          response.Delivers (resource.path catalog) listing → listing.index ≠ 0 →
          outcome = (resource.decode catalog listing.entries).map .changed) ∧
        (outcome = .ok .unchanged ↔ ∃ response listing, answers 0 = .ok response ∧
          response.Delivers (resource.path catalog) listing ∧ listing.index = 0) := by
  refine ⟨fun limit writes => ?_, fun client answers hspan => ?_⟩
  · intro store
    have hindex : (store.query (resource.path catalog) resource.all).index ≠ cursor.last := by
      rw [hstart]
      exact Nat.ne_of_gt ((Store.numbered_after_fresh limit writes).queryIndex_pos _ _)
    refine ⟨?_, ?_⟩
    · rw [Session.mustWait_watch, Store.isOver, decide_eq_true hstart]
      rfl
    · have hgiven := receive_listing catalog resource cursor
        (store.query (resource.path catalog) resource.all)
      rw [if_neg hindex] at hgiven
      rw [Session.run_watch]
      exact ⟨_, congrArg some (Prod.ext (Prod.ext hgiven rfl) rfl)⟩
  · set reply := (answers 0).bind (Remote.listing (resource.path catalog) true) with hreply
    have hresult : (((resource.watch catalog cursor).overHttp client).against answers 0).2
        = some (cursor.receive (resource.decode catalog) reply) := by
      rw [against_watch, hstart, Remote.against_await hspan]
      rfl
    refine ⟨(cursor.receive (resource.decode catalog) reply).1, _, hresult, ?_, ?_⟩
    · intro response listing hanswer hdelivers hindex
      rw [hreply, Remote.bind_listing_eq_ok_iff.mpr ⟨response, hanswer, hdelivers⟩,
        receive_listing, hstart, if_neg hindex]
    · rw [receive_eq_unchanged_iff, hstart, hreply]
      simp only [Remote.bind_listing_eq_ok_iff]
      constructor
      · rintro ⟨listing, ⟨response, hanswer, hdelivers⟩, hindex⟩
        exact ⟨response, listing, hanswer, hdelivers, hindex⟩
      · rintro ⟨response, listing, hanswer, hdelivers, hindex⟩
        exact ⟨listing, ⟨response, hanswer, hdelivers⟩, hindex⟩

/-- The time of a deployment, as it is stored. -/
def stamp : Entry :=
  ⟨"/config/local/qip-engine-configurations/deployments-update", some (Text.encode "17"), 5⟩

/-- What a response carries that lists it. -/
def stampBody : Text.Bytes :=
  Text.encode ("[\x7b\"Key\":\"config/local/qip-engine-configurations/deployments-update\","
    ++ "\"Value\":\"MTc=\",\"ModifyIndex\":5\x7d]")

/-- A response that lists it, with an index. -/
def stampResponse (index : String) : Response :=
  ⟨200, Dict.empty.insert Remote.indexHeader index, stampBody⟩

theorem decode_stamp : decode (Catalog.of default) .deployments [stamp] = .ok (17 : Nat) := rfl

theorem readListing_stampBody :
    KeyValue.readListing (path (Catalog.of default) .deployments) stampBody = .ok [stamp] := by
  have hread : (KeyValue.readListing (path (Catalog.of default) .deployments) stampBody).toOption
      = some [stamp] := by decide +kernel
  cases hlist : KeyValue.readListing (path (Catalog.of default) .deployments) stampBody with
  | ok entries =>
    rw [hlist] at hread
    exact congrArg Except.ok (Option.some.inj hread)
  | error error =>
    rw [hlist] at hread
    cases hread

theorem delivers_stampResponse {text : String} {index : Nat}
    (h : Text.readWord (Text.trim text) = .ok index) :
    (stampResponse text).Delivers (path (Catalog.of default) .deployments) ⟨index, [stamp]⟩ where
  index := ⟨text, Dict.find?_insert_self _ _ _, h⟩
  entries := .inl ⟨rfl, readListing_stampBody⟩

/-- A time is given back after a change was taken back, over a store in memory and over HTTP. -/
theorem first_payload_rolledBack :
    let catalog := Catalog.of default
    let cursor := (Cursor.start.observe 5).rollback
    let store := (Store.fresh 1).after [.put (path catalog .deployments) (Text.encode "17")]
    cursor.last = 0 ∧ Session.mustWait store (watch catalog .deployments cursor) = false ∧
      (∃ after, (watch catalog .deployments cursor).run (σ := keyValue)
          (fun request store => store.answer request) store
        = some ((.ok (.changed (17 : Nat)), after), store)) ∧
      ∃ after, (((watch catalog .deployments cursor).overHttp
          (.of (default : Settings).store)).against (fun _ => .ok (stampResponse "5")) 0).2
        = some (.ok (.changed (17 : Nat)), after) := by
  intro catalog cursor store
  have hstart : cursor.last = 0 := rfl
  have hspan : ((Remote.of (default : Settings).store).readTimeout
      (some (0, catalog.watchWait))).isSome = true := by decide
  obtain ⟨hmemory, hhttp⟩ := first_payload catalog .deployments hstart
  obtain ⟨hwait, after, hrun⟩ := hmemory 1 [.put (path catalog .deployments) (Text.encode "17")]
  obtain ⟨outcome, after', hsent, hgiven, -⟩ := hhttp _ (fun _ => .ok (stampResponse "5")) hspan
  have hentries : entriesIn (Catalog.of default) .deployments ((Store.fresh 1).after
      [.put (path (Catalog.of default) .deployments) (Text.encode "17")])
        = [{ stamp with modified := 2 }] := by decide
  rw [hentries] at hrun
  have hdelivers : (stampResponse "5").Delivers (path catalog .deployments) ⟨5, [stamp]⟩ :=
    delivers_stampResponse rfl
  have houtcome := hgiven _ _ rfl hdelivers (by decide)
  rw [decode_stamp] at houtcome
  rw [houtcome] at hsent
  exact ⟨hstart, hwait, ⟨after, hrun⟩, after', hsent⟩

/-- A time that is listed with index 0 is withheld. -/
theorem first_payload_withheld :
    (stampResponse "0").Delivers (path (Catalog.of default) .deployments) ⟨0, [stamp]⟩ ∧
      decode (Catalog.of default) .deployments [stamp] = .ok (17 : Nat) ∧
      (((watch (Catalog.of default) .deployments Cursor.start).overHttp
          (.of (default : Settings).store)).against (fun _ => .ok (stampResponse "0")) 0).2
        = some (.ok .unchanged, Cursor.start) := by
  have hdelivers : (stampResponse "0").Delivers (path (Catalog.of default) .deployments)
      ⟨0, [stamp]⟩ := delivers_stampResponse rfl
  have hspan : ((Remote.of (default : Settings).store).readTimeout
      (some (Cursor.start.last, (Catalog.of default).watchWait))).isSome = true := by decide
  refine ⟨hdelivers, decode_stamp, ?_⟩
  rw [against_watch, Remote.against_await hspan,
    Remote.bind_listing_eq_ok_iff.mpr ⟨_, rfl, hdelivers⟩]
  rfl

end Resource

end EngineCatalog
