import EngineCatalog.Catalog.Basic
import EngineCatalog.Proofs.Store.QueryIndex

/-!
# Watch loops

One who watches a resource calls the watch again and again with the same cursor, while others write
to the store. Main statement: no change is lost (`Session.loses_nothing`). Whenever the watch says
that nothing has changed, what is stored is what the last payload was decoded from; and a change
that did not decode is met again by the next call, which does not wait for another one.

* `Resource` — what can be watched; the three watches differ in path and decoding only.
* `Session` — a store with one watch of it, and `Session.step` what can happen to them.
* `Session.Sound` — the invariant: where the cursor stands at the index of the query, the payload
  that was taken last was decoded from what is stored.
-/

namespace EngineCatalog

open KeyValue (Entry Store Write keyValue)
open Watch (Cursor Update)
open KeyValue.Store (Numbered)

/-! ## Resources -/

/-- What can be watched. -/
inductive Resource where
  /-- the time of the last deployment -/
  | deployments
  /-- the reports of engines -/
  | engines
  /-- the properties of chains -/
  | chains
  deriving DecidableEq

namespace Resource

/-- What a watch of the resource gives back. -/
def Payload : Resource → Type
  | deployments => Nat
  | engines => List EngineState
  | chains => Dict ChainProperties

/-- The key or the path that is watched. -/
def path (catalog : Catalog) : Resource → String
  | deployments => catalog.layout.deployments
  | engines => catalog.layout.engines
  | chains => catalog.layout.chainsListing

/-- All keys that start with the path are watched. -/
def all : Resource → Bool
  | deployments => false
  | engines => true
  | chains => true

/-- What the entries decode to. -/
def decode (catalog : Catalog) : (resource : Resource) → List Entry → Outcome resource.Payload
  | deployments => Catalog.deploymentTime catalog.layout.deployments
  | engines => Catalog.engineStates catalog.layout.engines
  | chains => Catalog.chainProperties catalog.layout.marker

/-- The watch of the resource. -/
def watch (catalog : Catalog) : (resource : Resource) → Cursor → Watching resource.Payload
  | deployments => catalog.watchDeployments
  | engines => catalog.watchEngines
  | chains => catalog.watchChains

theorem watch_eq (catalog : Catalog) (resource : Resource) :
    resource.watch catalog
      = catalog.watch (resource.path catalog) resource.all (resource.decode catalog) := by
  cases resource <;> rfl

/-- The entries of the resource in a store. -/
def entriesIn (catalog : Catalog) (resource : Resource) (store : Store) : List Entry :=
  store.queryEntries (resource.path catalog) resource.all

/-- The index of the resource in a store. -/
def indexIn (catalog : Catalog) (resource : Resource) (store : Store) : Nat :=
  store.queryIndex (resource.path catalog) resource.all

end Resource

/-! ## Sessions -/

/-- A store and one watch of it. -/
structure Session (resource : Resource) where
  /-- the store -/
  store : Store
  /-- how far the watch has come -/
  cursor : Cursor
  /-- the call that waits for a change, if there is one -/
  waiting : Option (Watching resource.Payload)
  /-- what the last call that returned came to -/
  returned : Option (Outcome (Update resource.Payload))
  /-- the last payload that was given back, with the entries it was decoded from -/
  taken : Option (List Entry × resource.Payload)

/-- What can happen to a store and a watch of it. -/
inductive Event where
  /-- someone writes to the store -/
  | write (write : Write)
  /-- the watch is called -/
  | call
  /-- the call that waits is answered, after a change or because its time is up -/
  | wake
  /-- the cursor is set back to the start -/
  | reset

namespace Session

variable {resource : Resource}

/-- An empty store and a watch that has seen nothing. -/
def start (resource : Resource) (limit : Nat) : Session resource :=
  ⟨Store.fresh limit, Cursor.start, none, none, none⟩

/-- The call has to wait, as what it waits for has not changed. -/
def mustWait (store : Store) : Watching resource.Payload → Bool
  | .ask (.await path all since _) _ => !store.isOver path all since
  | _ => false

/-- The payload that is given back is kept, with the entries it was decoded from. -/
def keep (session : Session resource) (entries : List Entry) :
    Outcome (Update resource.Payload) → Option (List Entry × resource.Payload)
  | .ok (.changed payload) => some (entries, payload)
  | _ => session.taken

/-- A call is answered from the store as it is; what it comes to is given back. -/
def answer (session : Session resource) (catalog : Catalog)
    (program : Watching resource.Payload) :
    Option (Outcome (Update resource.Payload)) × Session resource :=
  match program.run (σ := keyValue) (fun request store => store.answer request) session.store with
  | none => (none, session)
  | some ((outcome, cursor), store) =>
    (some outcome,
      { store := store
        cursor := cursor
        waiting := none
        returned := some outcome
        taken := session.keep (resource.entriesIn catalog session.store) outcome })

/-- What happens to a session, and what a call that returns comes to. A watch has one call at a
time, and its cursor is not touched while a call waits. -/
def step (session : Session resource) (catalog : Catalog) :
    Event → Option (Outcome (Update resource.Payload)) × Session resource
  | .write write => (none, { session with store := (session.store.perform write).2 })
  | .call =>
    match session.waiting with
    | some _ => (none, session)
    | none =>
      let program := resource.watch catalog session.cursor
      if mustWait session.store program then (none, { session with waiting := some program })
      else session.answer catalog program
  | .wake =>
    match session.waiting with
    | none => (none, session)
    | some program => session.answer catalog program
  | .reset =>
    match session.waiting with
    | some _ => (none, session)
    | none => (none, { session with cursor := Cursor.start })

/-- The session after some events. -/
def run (session : Session resource) (catalog : Catalog) (events : List Event) :
    Session resource :=
  events.foldl (fun session event => (session.step catalog event).2) session

/-! ## What one call comes to -/

/-- A call of the watch, answered at once: its outcome and its cursor come from the query. -/
theorem run_watch (catalog : Catalog) (cursor : Cursor) (store : Store) :
    (resource.watch catalog cursor).run (σ := keyValue)
        (fun request store => store.answer request) store
      = some (cursor.receive (resource.decode catalog)
          (.ok (store.query (resource.path catalog) resource.all)), store) := by
  rw [Resource.watch_eq]
  rfl

theorem mustWait_watch (catalog : Catalog) (cursor : Cursor) (store : Store) :
    mustWait store (resource.watch catalog cursor)
      = !store.isOver (resource.path catalog) resource.all cursor.last := by
  rw [Resource.watch_eq]
  rfl

/-- A batch that is read entry by entry fails in one way only. -/
theorem isUndecodable_of_collect {α : Type} {name : String} {judge : Entry → Catalog.Verdict α}
    {rest : List α → Decoded} {entries : List Entry} {error : Error}
    (h : Catalog.collect name judge rest entries = .error error) :
    error.isUndecodable = true := by
  rw [Catalog.collect] at h
  split at h
  · cases h
  · obtain rfl := Except.error.inj h
    rfl

/-- A single key has one entry at most. -/
theorem queryEntries_single (store : Store) (path : String) :
    store.queryEntries path false = [] ∨ ∃ entry, store.queryEntries path false = [entry] := by
  rw [Store.queryEntries, Store.select, if_neg Bool.false_ne_true]
  cases store.entries.find? path with
  | none => exact .inl rfl
  | some stored => exact .inr ⟨_, rfl⟩

/-- What a store holds decodes, or the watch takes the change back. -/
theorem isUndecodable_of_decode {catalog : Catalog} {store : Store} {error : Error}
    (h : resource.decode catalog (resource.entriesIn catalog store) = .error error) :
    error.isUndecodable = true := by
  cases resource with
  | deployments =>
    rw [Resource.entriesIn, Resource.all, Resource.decode] at h
    rcases queryEntries_single store (Resource.path catalog .deployments) with hnone | ⟨entry, hone⟩
    · rw [hnone] at h
      cases h
    · rw [hone, Catalog.deploymentTime] at h
      split at h
      · cases h
      · rw [Catalog.timeOf] at h
        split at h
        · cases h
        · obtain rfl := Except.error.inj h
          rfl
  | engines => exact isUndecodable_of_collect h
  | chains =>
    have h : Except.map Dict.ofList (Catalog.collect _ _ _ _) = .error error := h
    cases hcollect : Catalog.collect "chains runtime configuration"
        (Catalog.judgeChain catalog.layout.marker) (fun chains => .chains (Dict.ofList chains))
        (Resource.entriesIn catalog .chains store) with
    | ok chains =>
      rw [hcollect] at h
      cases h
    | error other =>
      rw [hcollect] at h
      obtain rfl := Except.error.inj h
      exact isUndecodable_of_collect hcollect

/-- A call of the watch that is answered finds the index where the cursor stands, or it takes what
is stored, or what is stored does not decode and the cursor stays. -/
theorem answer_cases (session : Session resource) (catalog : Catalog) :
    (resource.indexIn catalog session.store = session.cursor.last ∧
      session.answer catalog (resource.watch catalog session.cursor)
        = (some (.ok .unchanged),
          { session with waiting := none, returned := some (.ok .unchanged) }))
    ∨ (∃ payload, resource.indexIn catalog session.store ≠ session.cursor.last ∧
      resource.decode catalog (resource.entriesIn catalog session.store) = .ok payload ∧
      session.answer catalog (resource.watch catalog session.cursor)
        = (some (.ok (.changed payload)),
          { session with
            cursor := ⟨resource.indexIn catalog session.store, session.cursor.last⟩
            waiting := none
            returned := some (.ok (.changed payload))
            taken := some (resource.entriesIn catalog session.store, payload) }))
    ∨ (∃ error, resource.indexIn catalog session.store ≠ session.cursor.last ∧
      error.isUndecodable = true ∧
      session.answer catalog (resource.watch catalog session.cursor)
        = (some (.error error),
          { session with
            cursor := ⟨session.cursor.last, session.cursor.last⟩
            waiting := none
            returned := some (.error error) })) := by
  rw [answer, run_watch, Cursor.receive]
  have hchanges : session.cursor.changes
      (session.store.query (resource.path catalog) resource.all).index
        = decide (resource.indexIn catalog session.store ≠ session.cursor.last) := rfl
  by_cases hindex : resource.indexIn catalog session.store = session.cursor.last
  · refine .inl ⟨hindex, ?_⟩
    rw [hchanges, decide_eq_false (not_not_intro hindex)]
    rfl
  · right
    have hobserve : session.cursor.observe
        (session.store.query (resource.path catalog) resource.all).index
          = ⟨resource.indexIn catalog session.store, session.cursor.last⟩ := by
      rw [Cursor.observe, hchanges, decide_eq_true hindex]
      rfl
    rw [hchanges, decide_eq_true hindex, if_pos rfl, hobserve]
    cases hdecode : resource.decode catalog
        (session.store.query (resource.path catalog) resource.all).entries with
    | ok payload => exact .inl ⟨payload, hindex, hdecode, rfl⟩
    | error error =>
      have hfailed : error.isUndecodable = true := isUndecodable_of_decode hdecode
      refine .inr ⟨error, hindex, hfailed, ?_⟩
      simp only [hfailed, if_true]
      rfl

/-! ## The invariant

The cursor can be level with the store in one way only: the watch took what was stored, and no write
has raised the index of the query since. A change that does not decode leaves the cursor behind, and
as indexes never fall it stays behind, whatever is written, until the next call. -/

/-- A watch has missed nothing so far. -/
structure Sound (catalog : Catalog) (session : Session resource) : Prop where
  /-- the indexes in the store are in order -/
  numbered : Numbered session.store
  /-- the call that waits is one of this watch -/
  waiting : ∀ program, session.waiting = some program →
    program = resource.watch catalog session.cursor
  /-- the cursor is not ahead of the store, and where it is level with it, what is stored is what
  was taken last -/
  cursor : session.cursor.last ≠ 0 →
    session.cursor.last ≤ resource.indexIn catalog session.store ∧
      (resource.indexIn catalog session.store = session.cursor.last →
        ∃ payload, session.taken = some (resource.entriesIn catalog session.store, payload))
  /-- what was taken last is what its entries decode to -/
  taken : ∀ entries payload, session.taken = some (entries, payload) →
    resource.decode catalog entries = .ok payload
  /-- after a change that did not decode, the cursor is behind the store -/
  behind : ∀ error, session.returned = some (.error error) →
    error.isUndecodable = true ∧ session.waiting = none ∧
      (session.cursor.last ≠ 0 →
        session.cursor.last < resource.indexIn catalog session.store)

theorem sound_start (catalog : Catalog) (resource : Resource) (limit : Nat) :
    Sound catalog (start resource limit) where
  numbered := Store.numbered_fresh limit
  waiting := nofun
  cursor := fun h => absurd rfl h
  taken := nofun
  behind := nofun

section Preservation

variable {catalog : Catalog} {session : Session resource}

/-- Every index that a query can have is positive, so a watch that has seen nothing is behind. -/
theorem Sound.index_pos (h : Sound catalog session) :
    0 < resource.indexIn catalog session.store :=
  h.numbered.queryIndex_pos _ _

/-- A watch that is level with the store has taken what is stored. -/
theorem Sound.taken_of_level (h : Sound catalog session)
    (hlevel : resource.indexIn catalog session.store = session.cursor.last) :
    ∃ payload, session.taken = some (resource.entriesIn catalog session.store, payload) ∧
      resource.decode catalog (resource.entriesIn catalog session.store) = .ok payload := by
  have hpos := h.index_pos
  obtain ⟨payload, htaken⟩ := (h.cursor (by omega)).2 hlevel
  exact ⟨payload, htaken, h.taken _ _ htaken⟩

/-- After a change that did not decode, no call waits. -/
theorem Sound.not_mustWait (h : Sound catalog session) {error : Error}
    (herror : session.returned = some (.error error)) :
    mustWait session.store (resource.watch catalog session.cursor) = false := by
  obtain ⟨-, -, hbehind⟩ := h.behind error herror
  rw [mustWait_watch, Store.isOver]
  by_cases hstart : session.cursor.last = 0
  · -- the cursor was set back meanwhile
    rw [decide_eq_true hstart]
    rfl
  · have hne : session.store.queryIndex (resource.path catalog) resource.all
        ≠ session.cursor.last := Nat.ne_of_gt (hbehind hstart)
    rw [decide_eq_true hne, Bool.or_true]
    rfl

/-- What can happen at one event: nothing, a write, the beginning of a wait, an answer, or the
setting back of the cursor. -/
theorem Sound.step_cases (h : Sound catalog session) (event : Event) :
    session.step catalog event = (none, session)
    ∨ (∃ write, session.step catalog event
      = (none, { session with store := (session.store.perform write).2 }))
    ∨ (mustWait session.store (resource.watch catalog session.cursor) = true ∧
      session.step catalog event
        = (none, { session with waiting := some (resource.watch catalog session.cursor) }))
    ∨ session.step catalog event
      = session.answer catalog (resource.watch catalog session.cursor)
    ∨ (session.waiting = none ∧
      session.step catalog event = (none, { session with cursor := Cursor.start })) := by
  cases event with
  | write write => exact .inr (.inl ⟨write, rfl⟩)
  | call =>
    cases hwaiting : session.waiting with
    | some program => exact .inl (by simp only [Session.step, hwaiting])
    | none =>
      by_cases hmust : mustWait session.store (resource.watch catalog session.cursor) = true
      · refine .inr (.inr (.inl ⟨hmust, ?_⟩))
        simp only [Session.step, hwaiting, if_pos hmust]
      · refine .inr (.inr (.inr (.inl ?_)))
        simp only [Session.step, hwaiting, if_neg hmust]
  | wake =>
    cases hwaiting : session.waiting with
    | none => exact .inl (by simp only [Session.step, hwaiting])
    | some program =>
      obtain rfl := h.waiting program hwaiting
      exact .inr (.inr (.inr (.inl (by simp only [Session.step, hwaiting]))))
  | reset =>
    cases hwaiting : session.waiting with
    | some program => exact .inl (by simp only [Session.step, hwaiting])
    | none => exact .inr (.inr (.inr (.inr ⟨rfl, by simp only [Session.step, hwaiting]⟩)))

/-- Writes leave the index of a query level only if they leave its entries as they are. -/
theorem Sound.write (h : Sound catalog session) (write : Write) :
    Sound catalog { session with store := (session.store.perform write).2 } := by
  obtain ⟨hnum, -, hadv⟩ := Store.perform_advances h.numbered write
  have hle : resource.indexIn catalog session.store
      ≤ resource.indexIn catalog (session.store.perform write).2 := (hadv _ _).index_le
  refine ⟨hnum, h.waiting, ?_, h.taken, ?_⟩
  · intro hseen
    obtain ⟨hlast, hlevel⟩ := h.cursor hseen
    refine ⟨Nat.le_trans hlast hle, fun heq => ?_⟩
    -- the cursor lies between the indexes before and after, so all three are the same
    have hindex : resource.indexIn catalog session.store = session.cursor.last :=
      Nat.le_antisymm (heq ▸ hle) hlast
    have hentries : resource.entriesIn catalog (session.store.perform write).2
        = resource.entriesIn catalog session.store :=
      h.numbered.queryEntries_after_eq [write] (heq.trans hindex.symm)
    rw [hentries]
    exact hlevel hindex
  · intro error herror
    obtain ⟨hfailed, hidle, hbehind⟩ := h.behind error herror
    exact ⟨hfailed, hidle, fun hseen => Nat.lt_of_lt_of_le (hbehind hseen) hle⟩

theorem Sound.answer (h : Sound catalog session) :
    Sound catalog (session.answer catalog (resource.watch catalog session.cursor)).2 := by
  obtain ⟨-, heq⟩ | ⟨payload, -, hdecode, heq⟩ | ⟨error, hne, hfailed, heq⟩ :=
    answer_cases session catalog
  · rw [heq]
    exact ⟨h.numbered, nofun, h.cursor, h.taken, nofun⟩
  · rw [heq]
    refine ⟨h.numbered, nofun, ?_, ?_, nofun⟩
    · exact fun _ => ⟨Nat.le_refl _, fun _ => ⟨payload, rfl⟩⟩
    · rintro entries other ⟨⟩
      exact hdecode
  · rw [heq]
    refine ⟨h.numbered, nofun, h.cursor, h.taken, ?_⟩
    rintro other ⟨⟩
    refine ⟨hfailed, rfl, fun hseen => ?_⟩
    exact Nat.lt_of_le_of_ne (h.cursor hseen).1 (Ne.symm hne)

theorem Sound.step (h : Sound catalog session) (event : Event) :
    Sound catalog (session.step catalog event).2 := by
  obtain heq | ⟨write, heq⟩ | ⟨hmust, heq⟩ | heq | ⟨hidle, heq⟩ := h.step_cases event
  · rw [heq]
    exact h
  · rw [heq]
    exact h.write write
  · rw [heq]
    refine ⟨h.numbered, ?_, h.cursor, h.taken, ?_⟩
    · rintro program ⟨⟩
      rfl
    · -- a call that waits comes after no failure
      intro error herror
      rw [h.not_mustWait herror] at hmust
      cases hmust
  · rw [heq]
    exact h.answer
  · rw [heq]
    refine ⟨h.numbered, fun program hwaiting => ?_, fun hseen => absurd rfl hseen, h.taken, ?_⟩
    · cases hidle.symm.trans hwaiting
    · intro error herror
      exact ⟨(h.behind error herror).1, hidle, fun hseen => absurd rfl hseen⟩

theorem Sound.run (h : Sound catalog session) (events : List Event) :
    Sound catalog (session.run catalog events) := by
  induction events generalizing session with
  | nil => exact h
  | cons event rest ih => exact ih (h.step event)

/-- A call says that nothing has changed only where the cursor is level with the store. -/
theorem Sound.level_of_unchanged (h : Sound catalog session) {event : Event}
    (hunchanged : (session.step catalog event).1 = some (.ok .unchanged)) :
    resource.indexIn catalog session.store = session.cursor.last := by
  obtain heq | ⟨write, heq⟩ | ⟨-, heq⟩ | heq | ⟨-, heq⟩ := h.step_cases event
  case inr.inr.inr.inl =>
    rw [heq] at hunchanged
    obtain ⟨hlevel, -⟩ | ⟨payload, -, -, heq⟩ | ⟨error, -, -, heq⟩ := answer_cases session catalog
    · exact hlevel
    · rw [heq] at hunchanged
      cases hunchanged
    · rw [heq] at hunchanged
      cases hunchanged
  -- nothing but an answer comes to anything
  all_goals
    rw [heq] at hunchanged
    cases hunchanged

/-- After a change that did not decode, the next call meets a change at once. -/
theorem Sound.call_after_error (h : Sound catalog session) {error : Error}
    (herror : session.returned = some (.error error)) :
    ∃ outcome, (session.step catalog .call).1 = some outcome ∧ outcome ≠ .ok .unchanged := by
  obtain ⟨-, hidle, hbehind⟩ := h.behind error herror
  have hstep : session.step catalog .call
      = session.answer catalog (resource.watch catalog session.cursor) := by
    simp only [Session.step, hidle, h.not_mustWait herror]
    rfl
  rw [hstep]
  obtain ⟨hlevel, -⟩ | ⟨payload, -, -, heq⟩ | ⟨error, -, -, heq⟩ := answer_cases session catalog
  · -- the cursor is not level: it is at the start, or behind
    have hpos := h.index_pos
    have hlt := hbehind (by omega)
    omega
  · rw [heq]
    exact ⟨_, rfl, nofun⟩
  · rw [heq]
    exact ⟨_, rfl, nofun⟩

end Preservation

/-! ## No change is lost -/

/-- **No change is lost.** Along every run of writes, calls of one watch, and resets of its cursor,
from an empty store and a watch that has seen nothing: where a call says that nothing has changed,
what is stored under the watched path is what the last payload was decoded from; and every call that
ends in an error does so as a change does not decode, whereupon the next call is answered at once,
with a change or an error, whatever was written in between. -/
theorem loses_nothing (catalog : Catalog) (resource : Resource) (limit : Nat)
    (events : List Event) :
    let session := (start resource limit).run catalog events
    (∀ event, (session.step catalog event).1 = some (.ok .unchanged) →
      ∃ payload, session.taken = some (resource.entriesIn catalog session.store, payload) ∧
        resource.decode catalog (resource.entriesIn catalog session.store) = .ok payload) ∧
    (∀ error, session.returned = some (.error error) →
      error.isUndecodable = true ∧
        ∃ outcome, (session.step catalog .call).1 = some outcome ∧
          outcome ≠ .ok .unchanged) := by
  intro session
  have hsound : Sound catalog session := (sound_start catalog resource limit).run events
  constructor
  · intro event hunchanged
    exact hsound.taken_of_level (hsound.level_of_unchanged hunchanged)
  · intro error herror
    exact ⟨(hsound.behind error herror).1, hsound.call_after_error herror⟩

end Session

end EngineCatalog
