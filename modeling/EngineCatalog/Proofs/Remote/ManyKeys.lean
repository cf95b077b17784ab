import EngineCatalog.Proofs.Dict.Prefix
import EngineCatalog.Proofs.Remote.Listing
import EngineCatalog.Proofs.Remote.Transaction
import EngineCatalog.Proofs.Store.Contents

/-!
# Reads of several keys

A read of several keys asks for them chunk by chunk, and for each key of a chunk for all keys that
start with it. What comes back is filtered by the keys of the chunk, not by the key that each member
asked for. Main statement: a key that is there is given back as often as keys of its chunk are what
it starts with. So each is given back once, as a store in memory does it, exactly if no key that is
there starts with another key of its chunk (`Remote.readMany_from`).

* `Store.serveReads` — the store that is reached. It answers a transaction of reads member by
  member, each with all keys that start with the key of the member.
* `Store.readTogether` — what one chunk comes to.
-/

namespace EngineCatalog.KeyValue

open Json (EndsValue ReadsBack Reader Record)
open Text (Bytes)

/-! ## The results of a transaction -/

/-- A result of a transaction as JSON. -/
def resultJson (result : Option Pair) : Json :=
  .object [("KV", (result.map Pair.toJson).getD .null)]

/-- The results of a transaction that is accepted. -/
def writeResults (results : List (Option Pair)) : Bytes :=
  Json.write (.object [("Results", .list (results.map resultJson)), ("Errors", .null)])

theorem floatFree_resultJson (result : Option Pair) : Json.FloatFree (resultJson result) := by
  cases result <;> simp [resultJson, Pair.floatFree]

/-- A result is read back. -/
theorem readsBack_result {result : Option Pair}
    (h : ∀ pair, result = some pair → pair.modified < Nat.pow 2 64) (depth : Nat) :
    ReadsBack (resultRecord.reader (depth + 2)) (Json.write (resultJson result)) result := by
  have hpair : ReadsBack (Reader.optional Pair.record.reader (depth + 1))
      (Json.write ((result.map Pair.toJson).getD .null)) result := by
    cases result with
    | none => exact fun _ _ => rfl
    | some pair =>
      have hread := Pair.readsBack (h pair rfl) depth
      obtain ⟨bytes, hwrite⟩ : ∃ bytes, Json.write pair.toJson = 0x7b :: bytes :=
        Json.exists_write_object _
      rw [Option.map_some, Option.getD_some]
      rw [hwrite] at hread ⊢
      exact Json.readsBack_optional rfl (by decide) hread
  have hmember : ReadsBack (resultRecord.readMember (depth + 1) ([], none) "KV")
      (0x3a :: Json.write ((result.map Pair.toJson).getD .null)) (["KV"], result) :=
    Record.readsBack_field rfl rfl (hpair.map _) rfl
  exact Record.readsBack_object (.cons hmember (.nil _)) rfl

/-- The results of a transaction are read back. -/
theorem readResults_writeResults {pairs : List Pair}
    (h : ∀ pair ∈ pairs, pair.modified < Nat.pow 2 64) :
    readResults (writeResults (pairs.map some)) = .ok pairs := by
  have hresults : ReadsBack (Reader.optional (Reader.list resultRecord.reader) 126)
      (Json.write (.list ((pairs.map some).map resultJson))) (some (pairs.map some)) := by
    have hread := @Json.readsBack_list _ resultRecord.reader resultJson (pairs.map some) 125
      (fun result _ => floatFree_resultJson result) (by
        intro result hresult
        obtain ⟨pair, hpair, rfl⟩ := List.mem_map.mp hresult
        refine readsBack_result (fun other heq => ?_) 123
        exact Option.some.inj heq ▸ h pair hpair)
    obtain ⟨bytes, hwrite⟩ := Json.exists_write_list ((pairs.map some).map resultJson)
    rw [hwrite] at hread ⊢
    exact Json.readsBack_optional rfl (by decide) hread
  have hmember : ReadsBack (resultsRecord.readMember 126 ([], []) "Results")
      (0x3a :: Json.write (.list ((pairs.map some).map resultJson)))
      (["Results"], pairs.map some) :=
    Record.readsBack_field rfl rfl (hresults.map _) rfl
  have herrors : ReadsBack (resultsRecord.readMember 126 (["Results"], pairs.map some) "Errors")
      (0x3a :: Json.write .null) (["Results"], pairs.map some) :=
    @Record.readsBack_passed _ _ _ _ ("Errors", .null) rfl rfl fun _ _ => rfl
  have hread : resultsRecord.reader.run (writeResults (pairs.map some)) = .ok (pairs.map some) :=
    (Record.readsBack_object (.cons hmember (.cons herrors (.nil _))) rfl).run
  rw [readResults, hread]
  simp

/-! ## The store that is reached -/

namespace Store

variable {store : Store} {entry : Entry} {path : String} {all : Bool} {paths chunk : List String}

/-- The entry is what the store has at its key. -/
def Holds (store : Store) (entry : Entry) : Prop :=
  store.entries.find? entry.key = some ⟨entry.value, entry.modified⟩

/-- All that is stored can be listed. -/
def IsListable (store : Store) : Prop :=
  ∀ entry, store.Holds entry → entry.IsListable

/-- What a transaction of reads finds: for each member in turn, all keys that start with its key. -/
def readSteps (store : Store) (steps : List Step) : List Entry :=
  steps.flatMap fun step => store.queryEntries ("/" ++ step.key) true

/-- The answer of a store that is reached over HTTP to a transaction of reads. It answers nothing
else. -/
def serveReads (store : Store) (request : Request) : Outcome Response :=
  match request.body.map Step.readAll with
  | some (.ok steps) =>
    if steps.all fun step => step.verb = "get-tree" then
      let results := (store.readSteps steps).map fun entry => some (Pair.ofEntry entry)
      .ok ⟨200, Dict.empty, writeResults results⟩
    else .error (.transport "not a transaction of reads")
  | _ => .error (.transport "not a transaction")

/-- Runs a program against the store, which stays as it is. -/
def serveHttp {α : Type} (store : Store) (program : Program http α) : Option α :=
  (program.run (σ := http) (fun request _ => (store.serveReads request, ())) ()).map Prod.fst

/-- What the keys of one chunk come to: all that starts with one of them is found, and what is none
of them is left out. -/
def readTogether (store : Store) (chunk : List String) : List Entry :=
  (chunk.flatMap fun path => store.queryEntries path true).filter
    fun entry => chunk.contains entry.key

/-- The store answers the request for a chunk. -/
theorem serveReads_ofPaths (h : ∀ path ∈ chunk, startsWith "/" path = true) (method : Method)
    (url : String) (timeout : Span) :
    store.serveReads ⟨method, url, some (Step.writeAll (chunk.map Step.ofPath)), timeout⟩
      = .ok ⟨200, Dict.empty, writeResults (((chunk.flatMap fun path =>
          store.queryEntries path true).map Pair.ofEntry).map some)⟩ := by
  have hsteps : store.readSteps (chunk.map Step.ofPath)
      = chunk.flatMap fun path => store.queryEntries path true := by
    rw [readSteps, List.flatMap_map]
    refine List.flatMap_congr fun path hpath => ?_
    rw [Step.ofPath, Step.slash_bareKey (h path hpath)]
  have hverbs : (chunk.map Step.ofPath).all (fun step => step.verb = "get-tree") = true := by
    simp [Step.ofPath]
  rw [serveReads]
  simp only [Option.map_some, Step.readAll_writeAll, hverbs, if_true, hsteps, List.map_map]
  rfl

end Store

/-- Of listed pairs those with a requested key are taken. -/
theorem requested_map_ofEntry {chunk : List String} {entries : List Entry}
    (h : ∀ entry ∈ entries, startsWith "/" entry.key = true) :
    Remote.requested chunk (entries.map Pair.ofEntry)
      = .ok (entries.filter fun entry => chunk.contains entry.key) := by
  induction entries with
  | nil => rfl
  | cons entry more ih =>
    obtain ⟨hentry, hmore⟩ := List.forall_mem_cons.mp h
    rw [List.map_cons, Remote.requested, Pair.entry_ofEntry hentry, ih hmore, List.filter_cons]
    change Except.ok _ = _
    split <;> rfl

/-- An operation goes on with what its first part comes to. -/
theorem Store.serveHttp_bind {α β : Type} {store : Store} {operation : Operation http α}
    {result : α} (h : store.serveHttp operation.run = some (.ok result))
    (f : α → Operation http β) :
    store.serveHttp (operation >>= f).run = store.serveHttp (f result).run := by
  obtain ⟨⟨outcome, _⟩, hrun, rfl⟩ := Option.map_eq_some_iff.mp h
  have hbind := Program.run_bind (σ := http) (fun request _ => (store.serveReads request, ()))
    operation.run (ExceptT.bindCont f) ()
  rw [hrun] at hbind
  exact congrArg (Option.map Prod.fst) hbind

theorem Store.serveHttp_ofOutcome {α : Type} {store : Store} (result : α) :
    store.serveHttp (Operation.ofOutcome (.ok result)).run = some (.ok result) := rfl

theorem Store.holds_of_mem_flatMap {store : Store} {paths : List String} {all : Bool}
    {entry : Entry} (h : entry ∈ paths.flatMap fun path => store.queryEntries path all) :
    store.Holds entry := by
  obtain ⟨path, -, hentry⟩ := List.mem_flatMap.mp h
  exact (Store.mem_queryEntries.mp hentry).2

namespace Remote

variable {store : Store}

/-- The request for a chunk is answered. -/
theorem serveHttp_sendChunk (remote : Remote) (before : Nat) {chunk : List String}
    (h : ∀ path ∈ chunk, startsWith "/" path = true) :
    store.serveHttp (remote.sendChunk before (chunk.map Step.ofPath)).run
      = some (.ok ⟨200, Dict.empty, writeResults (((chunk.flatMap fun path =>
          store.queryEntries path true).map Pair.ofEntry).map some)⟩) := by
  have hsend : store.serveHttp (send ⟨.put, remote.transactionUrl,
      some (Step.writeAll (chunk.map Step.ofPath)), remote.timeout⟩).run
      = some (store.serveReads ⟨.put, remote.transactionUrl,
        some (Step.writeAll (chunk.map Step.ofPath)), remote.timeout⟩) := rfl
  rw [Store.serveReads_ofPaths h] at hsend
  rw [sendChunk, Store.serveHttp_bind hsend]
  rfl

/-- Chunks are read one after the other. -/
theorem serveHttp_readChunks (hstore : store.IsListable) (remote : Remote) (before : Nat)
    {chunks : List (List String)}
    (h : ∀ chunk ∈ chunks, ∀ path ∈ chunk, startsWith "/" path = true) :
    store.serveHttp (remote.readChunks before chunks).run
      = some (.ok (chunks.flatMap store.readTogether)) := by
  induction chunks generalizing before with
  | nil => rfl
  | cons chunk more ih =>
    obtain ⟨hchunk, hmore⟩ := List.forall_mem_cons.mp h
    have hlistable : ∀ entry ∈ chunk.flatMap fun path => store.queryEntries path true,
        entry.IsListable := fun entry hentry => hstore entry (Store.holds_of_mem_flatMap hentry)
    have hresults : readResults (writeResults (((chunk.flatMap fun path =>
        store.queryEntries path true).map Pair.ofEntry).map some))
        = .ok ((chunk.flatMap fun path => store.queryEntries path true).map Pair.ofEntry) := by
      refine readResults_writeResults fun pair hpair => ?_
      obtain ⟨entry, hentry, rfl⟩ := List.mem_map.mp hpair
      exact (hlistable entry hentry).fits
    have hrequested : requested chunk
        ((chunk.flatMap fun path => store.queryEntries path true).map Pair.ofEntry)
        = .ok (store.readTogether chunk) :=
      requested_map_ofEntry fun entry hentry => (hlistable entry hentry).slash
    rw [readChunks, Store.serveHttp_bind (remote.serveHttp_sendChunk before hchunk), hresults,
      Store.serveHttp_bind (Store.serveHttp_ofOutcome _), hrequested,
      Store.serveHttp_bind (Store.serveHttp_ofOutcome _), Store.serveHttp_bind (ih _ hmore),
      List.flatMap_cons]
    rfl

end Remote

/-! ## How often a key is given back -/

namespace Store

variable {store : Store} {entry : Entry}

/-- The entries of several queries have an entry as often as queries cover it. -/
theorem count_flatMap_queryEntries (h : store.Holds entry) (paths : List String) (all : Bool) :
    (paths.flatMap fun path => store.queryEntries path all).count entry
      = paths.countP fun path => covers path all entry.key := by
  induction paths with
  | nil => rfl
  | cons path more ih =>
    have hnodup : (store.queryEntries path all).Nodup := by
      refine (store.pairwise_queryEntries path all).imp ?_
      rintro one other hlt rfl
      exact String.lt_irrefl _ hlt
    have hmem : entry ∈ store.queryEntries path all ↔ covers path all entry.key = true :=
      mem_queryEntries.trans (and_iff_left h)
    rw [List.flatMap_cons, List.count_append, ih, hnodup.count, List.countP_cons]
    simp only [hmem, Nat.add_comm]

/-- A store in memory gives back an entry as often as its key is asked for. -/
theorem count_readMany (h : store.Holds entry) (paths : List String) :
    (store.readMany paths).count entry = paths.count entry.key := by
  rw [readMany, count_flatMap_queryEntries h, List.count]
  refine List.countP_congr fun path _ => ?_
  rw [covers, if_neg Bool.false_ne_true, decide_eq_true_iff, beq_iff_eq]
  exact eq_comm

/-- One chunk gives back an entry, if its key is asked for, as often as keys of the chunk are what
it starts with. -/
theorem count_readTogether (h : store.Holds entry) {chunk : List String}
    (hkey : entry.key ∈ chunk) :
    (store.readTogether chunk).count entry
      = chunk.countP fun path => startsWith path entry.key := by
  have hkept : (store.readTogether chunk).count entry
      = (chunk.flatMap fun path => store.queryEntries path true).count entry :=
    List.count_filter (List.contains_iff_mem.mpr hkey)
  rw [hkept, count_flatMap_queryEntries h]
  rfl

theorem holds_and_mem_of_mem_readTogether {chunk : List String}
    (h : entry ∈ store.readTogether chunk) : store.Holds entry ∧ entry.key ∈ chunk := by
  obtain ⟨hentry, hkey⟩ := List.mem_filter.mp h
  exact ⟨holds_of_mem_flatMap hentry, List.contains_iff_mem.mp hkey⟩

/-- The chunks give back what is stored under their keys, and nothing else. -/
theorem holds_and_mem_of_mem_flatMap {chunks : List (List String)}
    (h : entry ∈ chunks.flatMap store.readTogether) :
    store.Holds entry ∧ entry.key ∈ chunks.flatten := by
  obtain ⟨chunk, hchunk, hentry⟩ := List.mem_flatMap.mp h
  obtain ⟨hholds, hkey⟩ := holds_and_mem_of_mem_readTogether hentry
  exact ⟨hholds, List.mem_flatten.mpr ⟨chunk, hchunk, hkey⟩⟩

theorem holds_and_mem_of_mem_readMany {paths : List String} (h : entry ∈ store.readMany paths) :
    store.Holds entry ∧ entry.key ∈ paths := by
  obtain ⟨path, hpath, hquery⟩ := List.mem_flatMap.mp h
  obtain ⟨hcovers, hholds⟩ := mem_queryEntries.mp hquery
  have hkey : entry.key = path := by simpa [covers] using hcovers
  exact ⟨hholds, hkey ▸ hpath⟩

/-- Where all keys are distinct, the chunk of its key decides how often an entry is given back. -/
theorem count_flatMap_readTogether (h : store.Holds entry) {chunks : List (List String)}
    (hdistinct : chunks.flatten.Nodup) {chunk : List String} (hchunk : chunk ∈ chunks)
    (hkey : entry.key ∈ chunk) :
    (chunks.flatMap store.readTogether).count entry
      = chunk.countP fun path => startsWith path entry.key := by
  obtain ⟨front, back, rfl⟩ := List.append_of_mem hchunk
  have hother : ∀ others : List (List String), entry.key ∉ others.flatten →
      (others.flatMap store.readTogether).count entry = 0 :=
    fun others hothers => List.count_eq_zero.mpr fun hentry =>
      hothers (holds_and_mem_of_mem_flatMap hentry).2
  rw [List.flatten_append, List.flatten_cons, List.nodup_append] at hdistinct
  obtain ⟨-, hback, hfront⟩ := hdistinct
  rw [List.nodup_append] at hback
  rw [List.flatMap_append, List.flatMap_cons, List.count_append, List.count_append,
    hother front fun hmem => hfront _ hmem _ (List.mem_append_left _ hkey) rfl,
    hother back fun hmem => hback.2.2 _ hkey _ hmem rfl, count_readTogether h hkey]
  omega

/-- Among distinct keys one is a start of itself alone exactly if none of the others is. -/
theorem countP_startsWith_eq_one_iff {chunk : List String} {key : String} (hdistinct : chunk.Nodup)
    (hkey : key ∈ chunk) :
    (chunk.countP fun path => startsWith path key) = 1
      ↔ ∀ other ∈ chunk, startsWith other key = true → other = key := by
  have hself : startsWith key key = true := startsWith_iff.mpr (List.prefix_refl _)
  constructor
  · intro hone other hother hstarts
    rw [List.countP_eq_length_filter, List.length_eq_one_iff] at hone
    obtain ⟨only, honly⟩ := hone
    have hmem : ∀ path ∈ chunk, startsWith path key = true → path = only := by
      intro path hpath hstarts
      have hfilter : path ∈ chunk.filter fun path => startsWith path key :=
        List.mem_filter.mpr ⟨hpath, hstarts⟩
      rw [honly] at hfilter
      exact List.mem_singleton.mp hfilter
    rw [hmem other hother hstarts, hmem key hkey hself]
  · intro halone
    have hcongr : (chunk.countP fun path => startsWith path key) = chunk.count key := by
      refine List.countP_congr fun path hpath => ?_
      rw [beq_iff_eq]
      exact ⟨halone path hpath, fun heq => heq ▸ hself⟩
    rw [hcongr, hdistinct.count, if_pos hkey]

/-- The chunks give back what a store in memory does, each entry as often, exactly if each key that
is there is a start of itself alone within its chunk. -/
theorem perm_readMany_iff {chunks : List (List String)} (hdistinct : chunks.flatten.Nodup) :
    (chunks.flatMap store.readTogether).Perm (store.readMany chunks.flatten)
      ↔ ∀ chunk ∈ chunks, ∀ entry, store.Holds entry → entry.key ∈ chunk →
        ∀ other ∈ chunk, startsWith other entry.key = true → other = entry.key := by
  have hchunk : ∀ chunk ∈ chunks, ∀ entry, store.Holds entry → entry.key ∈ chunk →
      ((chunks.flatMap store.readTogether).count entry = (store.readMany chunks.flatten).count entry
        ↔ ∀ other ∈ chunk, startsWith other entry.key = true → other = entry.key) := by
    intro chunk hmem entry hholds hkey
    have honce : (store.readMany chunks.flatten).count entry = 1 := by
      rw [count_readMany hholds, hdistinct.count,
        if_pos (List.mem_flatten.mpr ⟨chunk, hmem, hkey⟩)]
    have hnodup : chunk.Nodup := (List.pairwise_flatten.mp hdistinct).1 chunk hmem
    rw [count_flatMap_readTogether hholds hdistinct hmem hkey, honce,
      countP_startsWith_eq_one_iff hnodup hkey]
  rw [List.perm_iff_count]
  constructor
  · intro hcount chunk hmem entry hholds hkey
    exact (hchunk chunk hmem entry hholds hkey).mp (hcount entry)
  · intro halone entry
    by_cases hentry : store.Holds entry ∧ entry.key ∈ chunks.flatten
    · obtain ⟨hholds, hkey⟩ := hentry
      obtain ⟨chunk, hmem, hkey⟩ := List.mem_flatten.mp hkey
      exact (hchunk chunk hmem entry hholds hkey).mpr (halone chunk hmem entry hholds hkey)
    · -- neither of the two gives it back
      rw [List.count_eq_zero.mpr fun hmem => hentry (holds_and_mem_of_mem_flatMap hmem),
        List.count_eq_zero.mpr fun hmem => hentry (holds_and_mem_of_mem_readMany hmem)]

end Store

namespace Remote

/-- The chunks together are the items. -/
theorem flatten_chunks {α : Type} {size : Nat} (hsize : 0 < size) (items : List α) :
    (chunks size items).flatten = items := by
  have hlength : (chunks size items).length ≤ items.length := by
    by_contra hlt
    have hplace := (lt_length_chunks_iff hsize items items.length).mp (Nat.not_le.mp hlt)
    exact absurd hplace (Nat.not_lt.mpr (Nat.le_mul_of_pos_right _ hsize))
  have hflatten := flatten_take_chunks hsize items items.length
  rwa [List.take_of_length_le hlength,
    List.take_of_length_le (Nat.le_mul_of_pos_right _ hsize)] at hflatten

/-- **Keys are given back as often as keys of their chunk are what they start with.** For all
settings, whatever is stored, a read of distinct keys succeeds: a key that is there is given back as
often as keys of its chunk are what it starts with, and nothing else is given back. So what is given
back are the entries that a store in memory gives back, each as often, exactly if no key that is
there starts with another key of its chunk. -/
theorem readMany_from (settings : StoreSettings) {store : Store} (hstore : store.IsListable)
    {paths : List String} (hpaths : ∀ path ∈ paths, startsWith "/" path = true)
    (hdistinct : paths.Nodup) :
    ∃ entries,
      store.serveHttp ((Remote.of settings).answer (.readMany paths)) = some (.ok entries) ∧
      (∀ chunk ∈ chunks (chunkSize settings) paths, ∀ entry, store.Holds entry →
        entry.key ∈ chunk →
          entries.count entry = chunk.countP fun path => startsWith path entry.key) ∧
      (∀ entry ∈ entries, store.Holds entry ∧ entry.key ∈ paths) ∧
      (entries.Perm (store.readMany paths) ↔ ∀ chunk ∈ chunks (chunkSize settings) paths,
        ∀ entry, store.Holds entry → entry.key ∈ chunk →
          ∀ other ∈ chunk, startsWith other entry.key = true → other = entry.key) := by
  have hflatten : (chunks (chunkSize settings) paths).flatten = paths :=
    flatten_chunks (chunkSize_pos settings) paths
  have hslash : ∀ chunk ∈ chunks (chunkSize settings) paths, ∀ path ∈ chunk,
      startsWith "/" path = true := by
    intro chunk hchunk path hpath
    exact hpaths path (hflatten ▸ List.mem_flatten.mpr ⟨chunk, hchunk, hpath⟩)
  have hread : store.serveHttp ((Remote.of settings).answer (.readMany paths))
      = some (.ok ((chunks (chunkSize settings) paths).flatMap store.readTogether)) :=
    serveHttp_readChunks hstore (Remote.of settings) 0 hslash
  rw [← hflatten] at hdistinct
  have hmember := fun entry => @Store.holds_and_mem_of_mem_flatMap store entry
    (chunks (chunkSize settings) paths)
  have hperm := @Store.perm_readMany_iff store _ hdistinct
  rw [hflatten] at hmember hperm
  exact ⟨_, hread, fun chunk hchunk entry hholds hkey =>
    Store.count_flatMap_readTogether hholds hdistinct hchunk hkey, hmember, hperm⟩

/-- Two keys, one of which starts with the other. -/
def nestedKeys : Store :=
  (Store.fresh 1).after [.put "/a" (Text.encode "1"), .put "/ab" (Text.encode "2")]

theorem isListable_nestedKeys : nestedKeys.IsListable := by
  rintro ⟨key, value, modified⟩ hholds
  have hmem := Dict.mem_entries_iff.mpr hholds
  have hentries : nestedKeys.entries.entries
      = [("/a", ⟨some (Text.encode "1"), 2⟩), ("/ab", ⟨some (Text.encode "2"), 3⟩)] := rfl
  rw [hentries, List.mem_cons, List.mem_singleton] at hmem
  rcases hmem with heq | heq <;> obtain ⟨rfl, heq⟩ := Prod.mk.inj heq
  · obtain ⟨rfl, rfl⟩ := Stored.mk.inj heq
    exact ⟨by decide, by decide⟩
  · obtain ⟨rfl, rfl⟩ := Stored.mk.inj heq
    exact ⟨by decide, by decide⟩

/-- With the usual settings the longer one is given back for each of three keys it starts with, one
of which every key starts with. -/
theorem readMany_from_nestedKeys :
    (nestedKeys.IsListable ∧ ∀ path ∈ ["/", "/a", "/ab"], startsWith "/" path = true) ∧
      ∃ entries,
        nestedKeys.serveHttp ((Remote.of StoreSettings.shape.blank).answer
          (.readMany ["/", "/a", "/ab"])) = some (.ok entries) ∧
        entries.count ⟨"/ab", some (Text.encode "2"), 3⟩ = 3 := by
  have hpaths : ∀ path ∈ ["/", "/a", "/ab"], startsWith "/" path = true := by decide
  obtain ⟨entries, hread, hcount, -⟩ :=
    readMany_from StoreSettings.shape.blank isListable_nestedKeys hpaths (by decide)
  refine ⟨⟨isListable_nestedKeys, hpaths⟩, entries, hread, ?_⟩
  exact hcount ["/", "/a", "/ab"] (by decide) ⟨"/ab", some (Text.encode "2"), 3⟩ rfl (by decide)

/-- The two keys alone are read as three entries, where a store in memory gives back each once. -/
theorem readMany_twice :
    let paths := ["/a", "/ab"]
    let short : Entry := ⟨"/a", some (Text.encode "1"), 2⟩
    let long : Entry := ⟨"/ab", some (Text.encode "2"), 3⟩
    paths.Nodup ∧
      nestedKeys.serveHttp ((Remote.of StoreSettings.shape.blank).answer
        (.readMany paths)) = some (.ok [short, long, long]) ∧
      nestedKeys.readMany paths = [short, long] := by
  refine ⟨by decide, ?_, rfl⟩
  exact (serveHttp_readChunks isListable_nestedKeys _ 0 (by decide)).trans rfl

end Remote

end EngineCatalog.KeyValue
