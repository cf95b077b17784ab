import EngineCatalog.Proofs.Catalog.Publication
import EngineCatalog.Proofs.Watch.Loop

/-!
# The chains that are published form a map

Seen from outside, the properties of chains are a map from ids to properties: publishing puts into
it, withdrawing takes out of it, and nothing else that is written changes it
(`Publication.onChains`). Main statement: in the usual layout, after any valid publications, both
the read and the watch of all chains give back exactly that map (`chains_after_publications`).

The invariant is `HoldsChains`: the key of each chain holds the written form of its properties, and
these can be read back. That ids are read back from keys is `KeySettings.PlacesChains.chainId?_eq_some`,
that properties are read back is `ChainProperties.run_write`, and that the other writes leave the
chains alone is that their paths lie apart (`Layout.KeepsChainsApart`).
-/

namespace EngineCatalog

open KeyValue (Store Write Change Entry)
open Watch (Cursor)
open Catalog (judgeChain chainProperties)

/-! ## The map -/

/-- What a publication makes of the chains that are published. -/
def Publication.onChains (chains : Dict ChainProperties) : Publication → Dict ChainProperties
  | .chain id properties => chains.insert id properties
  | .chains all => chains.union all
  | .deleteChain id => chains.erase id
  | _ => chains

/-- The chains that are published after some publications. -/
def publishedChains (publications : List Publication) : Dict ChainProperties :=
  publications.foldl Publication.onChains Dict.empty

/-- The store holds these chains. -/
structure HoldsChains (layout : Layout) (store : Store) (chains : Dict ChainProperties) : Prop where
  /-- the key of each chain holds its properties, and those of other ids hold nothing -/
  stored : ∀ id, store.stored? (layout.chainKey id)
    = (chains.find? id).map fun properties => some properties.write
  /-- each id is a segment, and the properties can be read back -/
  readable : ∀ id properties, chains.find? id = some properties →
    isSegment id.toList = true ∧ properties.IsReadable

/-- What is written beside the chains lies apart from them. -/
def Layout.KeepsChainsApart (layout : Layout) : Prop :=
  ∀ path ∈ [layout.oldChains, layout.deployments, layout.libraries, layout.commonVariables ++ "/",
    layout.oldVariablesListing], Apart layout.chainsListing path

/-- Below the root of a layout it is enough that the parts lie apart. -/
theorem Layout.keepsChainsApart_of {keys : KeySettings}
    (h : ∀ part ∈ ["/chains-runtime-configurations", keys.deployments, keys.libraries,
      keys.commonVariables ++ "/", keys.oldVariables ++ "/"],
      Apart (keys.runtime ++ keys.chains ++ "/") part) : (Layout.of keys).KeepsChainsApart := by
  have hroot : ∀ part, Apart (keys.runtime ++ keys.chains ++ "/") part →
      Apart (Layout.of keys).chainsListing ((Layout.of keys).root ++ part) := by
    intro part hpart
    simpa [chainsListing, Layout.of, String.append_assoc] using
      hpart.append (Layout.of keys).root
  simp only [List.forall_mem_cons] at h
  obtain ⟨hold, hstamp, hlibraries, hvariables, holdVariables, -⟩ := h
  simp only [KeepsChainsApart, List.forall_mem_cons]
  refine ⟨hroot _ hold, hroot _ hstamp, hroot _ hlibraries, ?_, ?_, List.forall_mem_nil _⟩
  · simpa [Layout.of, String.append_assoc] using hroot _ hvariables
  · simpa [oldVariablesListing, Layout.of, String.append_assoc] using hroot _ holdVariables

theorem Layout.keepsChainsApart_usual : Layout.usual.KeepsChainsApart :=
  Layout.keepsChainsApart_of (by decide)

/-! ## Publications keep the map -/

theorem chainKey_injective (layout : Layout) : Function.Injective layout.chainKey := by
  intro id other h
  rw [Layout.chainKey, Layout.chainKey, ← String.toList_inj] at h
  simpa [String.toList_inj] using h

/-- Below the path of chains there are keys with any text behind the path. -/
theorem exists_eq_chainKey {layout : Layout} {key : String}
    (h : startsWith layout.chainsListing key = true) : ∃ rest, key = layout.chainKey rest := by
  obtain ⟨rest, hrest⟩ := startsWith_iff.mp h
  refine ⟨String.ofList rest, ?_⟩
  rw [← String.toList_inj, ← hrest, Layout.chainKey, String.toList_append, String.toList_ofList]
  rfl

section Keep

variable {layout : Layout} {store : Store} {chains : Dict ChainProperties}

theorem holdsChains_fresh (layout : Layout) (limit : Nat) :
    HoldsChains layout (Store.fresh limit) Dict.empty :=
  ⟨fun _ => rfl, nofun⟩

/-- A publication changes what the keys of chains hold as it changes the map. -/
theorem Publication.leaves_chainKey (hapart : layout.KeepsChainsApart) (publication : Publication)
    (chains : Dict ChainProperties) (id : String) :
    (publication.write layout).leaves (layout.chainKey id)
        ((chains.find? id).map fun properties => some properties.write)
      = ((publication.onChains chains).find? id).map fun properties => some properties.write := by
  have hkey : startsWith layout.chainsListing (layout.chainKey id) = true := startsWith_append _ id
  have hother : publication.path layout ∈ [layout.oldChains, layout.deployments, layout.libraries,
      layout.commonVariables ++ "/", layout.oldVariablesListing] →
      ∀ found, (publication.write layout).leaves (layout.chainKey id) found = found :=
    fun hpath => leaves_of_apart (hapart _ hpath) hkey
  cases publication with
  | chain other properties =>
    simp only [write, Write.leaves, onChains, Dict.find?_insert, (chainKey_injective layout).eq_iff]
    split <;> rfl
  | chains all => exact Change.foldl_leaves_set (chainKey_injective layout) _ all.entries chains id
  | deleteChain other =>
    have hcovers : Store.covers (layout.chainKey other) false (layout.chainKey id) = true
        ↔ other = id := by
      simp [Store.covers, (chainKey_injective layout).eq_iff, eq_comm]
    simp only [write, Write.leaves, onChains, Dict.find?_erase, hcovers]
    split <;> rfl
  | _ => exact hother (by simp [path]) _

/-- Valid publications keep the properties of all chains readable. -/
theorem Publication.readable_onChains {publication : Publication}
    (hvalid : publication.IsValid layout)
    (h : ∀ id properties, chains.find? id = some properties →
      isSegment id.toList = true ∧ properties.IsReadable) :
    ∀ id properties, (publication.onChains chains).find? id = some properties →
      isSegment id.toList = true ∧ properties.IsReadable := by
  intro id properties hfind
  cases publication with
  | chain other more =>
    rw [onChains, Dict.find?_insert] at hfind
    split at hfind
    · rename_i heq
      obtain rfl := Option.some.inj hfind
      exact heq ▸ hvalid
    · exact h id properties hfind
  | chains all =>
    rw [onChains, Dict.union, Dict.find?_insertAll, Option.or_eq_some_iff] at hfind
    rcases hfind with hnew | ⟨-, hold⟩
    · have hmem := List.mem_reverse.mp (Sorted.mem_of_find?_eq_some hnew)
      exact hvalid id properties (Dict.mem_entries_iff.mp hmem)
    · exact h id properties hold
  | deleteChain other =>
    rw [onChains, Dict.find?_erase] at hfind
    split at hfind
    · cases hfind
    · exact h id properties hfind
  | _ => exact h id properties hfind

/-- A valid publication changes the chains that the store holds as it changes the map. -/
theorem HoldsChains.perform (h : HoldsChains layout store chains)
    (hwritable : layout.IsWritable) (hapart : layout.KeepsChainsApart) {publication : Publication}
    (hvalid : publication.IsValid layout) :
    HoldsChains layout (store.perform (publication.write layout)).2
      (publication.onChains chains) := by
  refine ⟨fun id => ?_, publication.readable_onChains hvalid h.readable⟩
  obtain ⟨-, hstored⟩ := store.stored?_perform (publication.isAccepted hwritable hvalid)
  rw [hstored, h.stored, publication.leaves_chainKey hapart]

/-- So do all publications one after the other. -/
theorem HoldsChains.after (h : HoldsChains layout store chains) (hwritable : layout.IsWritable)
    (hapart : layout.KeepsChainsApart) {publications : List Publication}
    (hvalid : ∀ publication ∈ publications, publication.IsValid layout) :
    HoldsChains layout (store.after (publications.map (Publication.write layout)))
      (publications.foldl Publication.onChains chains) := by
  induction publications generalizing store chains with
  | nil => exact h
  | cons publication more ih =>
    obtain ⟨hfirst, hmore⟩ := List.forall_mem_cons.mp hvalid
    exact ih (h.perform hwritable hapart hfirst) hmore

/-! ## The map is read back -/

/-- What lies below the path of chains is their properties. -/
theorem HoldsChains.mem_queryEntries (h : HoldsChains layout store chains) {entry : Entry}
    (hentry : entry ∈ store.queryEntries layout.chainsListing true) :
    ∃ id properties, chains.find? id = some properties ∧ entry.key = layout.chainKey id ∧
      entry.value = some properties.write := by
  obtain ⟨id, hkey⟩ := exists_eq_chainKey (Store.mem_queryEntries.mp hentry).1
  have hstored := h.stored id
  rw [← hkey, Store.stored?_of_mem_queryEntries hentry, eq_comm, Option.map_eq_some_iff] at hstored
  obtain ⟨properties, hproperties, hvalue⟩ := hstored
  exact ⟨id, properties, hproperties, hkey, hvalue.symm⟩

/-- All properties of chains lie below their path. -/
theorem HoldsChains.exists_entry (h : HoldsChains layout store chains) {id : String}
    {properties : ChainProperties} (hfind : chains.find? id = some properties) :
    ∃ entry ∈ store.queryEntries layout.chainsListing true, entry.key = layout.chainKey id ∧
      entry.value = some properties.write := by
  have hstored := h.stored id
  rw [hfind, Option.map_some] at hstored
  exact Store.exists_mem_queryEntries (startsWith_append layout.chainsListing id) hstored

/-- An entry with the properties of a chain decodes to them. -/
theorem HoldsChains.judgeChain_eq (h : HoldsChains layout store chains)
    (hplaces : ∀ id : String, isSegment id.toList = true →
      chainId? (layout.chainKey id) layout.marker = some id) {entry : Entry} {id : String}
    {properties : ChainProperties} (hfind : chains.find? id = some properties)
    (hkey : entry.key = layout.chainKey id) (hvalue : entry.value = some properties.write) :
    judgeChain layout.marker entry = .decoded (id, properties) := by
  obtain ⟨hsegment, ⟨bytes, hbytes⟩, hfree⟩ := h.readable id properties hfind
  rw [judgeChain, hkey, hplaces id hsegment]
  simp only [hvalue, ChainProperties.run_write hbytes hfree]
  rfl

/-- The chains that the store holds are what is read. -/
theorem HoldsChains.chainProperties_eq (h : HoldsChains layout store chains)
    (hplaces : ∀ id : String, isSegment id.toList = true →
      chainId? (layout.chainKey id) layout.marker = some id) :
    chainProperties layout.marker (store.queryEntries layout.chainsListing true) = .ok chains := by
  set entries := store.queryEntries layout.chainsListing true with hentries
  have hjudge : ∀ entry ∈ entries, ∃ id properties, chains.find? id = some properties ∧
      judgeChain layout.marker entry = .decoded (id, properties) := by
    intro entry hentry
    obtain ⟨id, properties, hfind, hkey, hvalue⟩ := h.mem_queryEntries hentry
    exact ⟨id, properties, hfind, h.judgeChain_eq hplaces hfind hkey hvalue⟩
  have hfailures : Catalog.failures (judgeChain layout.marker) entries = [] := by
    rw [Catalog.failures, List.filterMap_eq_nil_iff]
    intro entry hentry
    obtain ⟨id, properties, -, hdecoded⟩ := hjudge entry hentry
    rw [hdecoded]
    rfl
  have hmem : ∀ id properties, (id, properties) ∈ Catalog.decoded (judgeChain layout.marker) entries
      ↔ chains.find? id = some properties := by
    intro id properties
    rw [Catalog.decoded, List.mem_filterMap]
    constructor
    · rintro ⟨entry, hentry, hvalue⟩
      obtain ⟨found, other, hfind, hdecoded⟩ := hjudge entry hentry
      rw [hdecoded] at hvalue
      obtain ⟨rfl, rfl⟩ := Prod.mk.inj (Option.some.inj hvalue)
      exact hfind
    · intro hfind
      obtain ⟨entry, hentry, hkey, hvalue⟩ := h.exists_entry hfind
      exact ⟨entry, hentry, by rw [h.judgeChain_eq hplaces hfind hkey hvalue]; rfl⟩
  rw [chainProperties, Catalog.collect, hfailures]
  exact congrArg Except.ok (Dict.ofList_eq_of_mem_iff hmem)

end Keep

/-! ## Reading and watching -/

section Read

variable {catalog : Catalog} {store : Store} {chains : Dict ChainProperties}

/-- The read of all chains gives back what the store holds. -/
theorem HoldsChains.serve_chains (h : HoldsChains catalog.layout store chains)
    (hplaces : ∀ id : String, isSegment id.toList = true →
      chainId? (catalog.layout.chainKey id) catalog.layout.marker = some id) :
    store.serve catalog.chains = some (.ok chains, store) := by
  have hdecode := h.chainProperties_eq hplaces
  rw [Catalog.chains, Catalog.serve_readOr, Store.read]
  by_cases hnone : (store.queryEntries catalog.layout.chainsListing true).isEmpty = true
  · -- nothing is stored, and so there are no chains
    rw [List.isEmpty_iff.mp hnone] at hdecode
    have hempty : chains = Dict.empty := (Except.ok.inj hdecode).symm
    rw [if_pos hnone, hempty]
    rfl
  · rw [if_neg hnone]
    exact congrArg (fun outcome => some (outcome, store)) hdecode

/-- The first call of a watch of all chains gives back what the store holds, without a wait. -/
theorem HoldsChains.serve_watchChains (h : HoldsChains catalog.layout store chains)
    (hplaces : ∀ id : String, isSegment id.toList = true →
      chainId? (catalog.layout.chainKey id) catalog.layout.marker = some id)
    (hnumbered : store.Numbered) :
    @Session.mustWait .chains store (catalog.watchChains Cursor.start) = false ∧
      ∃ cursor, store.serve (catalog.watchChains Cursor.start)
        = some ((.ok (.changed chains), cursor), store) := by
  refine ⟨@Session.mustWait_watch .chains catalog Cursor.start store, ?_⟩
  have hindex : Cursor.start.changes
      (store.query catalog.layout.chainsListing true).index = true :=
    decide_eq_true (Nat.ne_of_gt (hnumbered.queryIndex_pos catalog.layout.chainsListing true))
  have hdecode : chainProperties catalog.layout.marker
      (store.query catalog.layout.chainsListing true).entries = .ok chains :=
    h.chainProperties_eq hplaces
  refine ⟨Cursor.start.observe (store.query catalog.layout.chainsListing true).index, ?_⟩
  have hserve : store.serve (catalog.watchChains Cursor.start)
      = some (Cursor.start.receive (chainProperties catalog.layout.marker)
          (.ok (store.query catalog.layout.chainsListing true)), store) := rfl
  rw [hserve, Cursor.receive, if_pos hindex, hdecode]

end Read

/-- **The published chains form a map.** In the usual layout, from an empty store, valid publications
all succeed. Afterwards the read of all chains gives back the map that they come down to, and so does
the first call of a watch, without a wait. -/
theorem chains_after_publications (wait : Span) (limit : Nat) (publications : List Publication)
    (hvalid : ∀ publication ∈ publications, publication.IsValid Layout.usual) :
    ∃ store, (Catalog.usual wait).publishAll publications (Store.fresh limit) = some store ∧
      store.serve (Catalog.usual wait).chains
        = some (.ok (publishedChains publications), store) ∧
      @Session.mustWait .chains store ((Catalog.usual wait).watchChains Cursor.start) = false ∧
      ∃ cursor, store.serve ((Catalog.usual wait).watchChains Cursor.start)
        = some ((.ok (.changed (publishedChains publications)), cursor), store) := by
  have hplaces : ∀ id : String, isSegment id.toList = true →
      chainId? (Layout.usual.chainKey id) Layout.usual.marker = some id := by
    intro id hid
    exact KeySettings.PlacesChains.chainId?_eq_some (by decide) rfl hid
  have hholds : HoldsChains (Catalog.usual wait).layout
      ((Store.fresh limit).after (publications.map (Publication.write Layout.usual)))
      (publishedChains publications) :=
    (holdsChains_fresh Layout.usual limit).after Layout.isWritable_usual
      Layout.keepsChainsApart_usual hvalid
  have hnumbered := Store.numbered_after_fresh limit
    (publications.map (Publication.write Layout.usual))
  exact ⟨_, (Catalog.usual wait).publishAll_eq Layout.isWritable_usual hvalid _,
    hholds.serve_chains hplaces, hholds.serve_watchChains hplaces hnumbered⟩

/-- Properties of a chain with one whole number. -/
def oneProperty : ChainProperties :=
  ⟨Dict.empty.insert "size" (.number (.int 3))⟩

/-- A chain that is published, another one beside it, and the first one withdrawn, with other
publications in between. -/
def mixedPublications : List Publication := [
  .chain "orders" oneProperty,
  .setVariable "region" "north",
  .chains (Dict.empty.insert "bills" oneProperty),
  .deleteOldVariables,
  .deleteChain "orders",
  .stamp 7]

/-- After them the other chain is left. -/
theorem chains_after_mixedPublications :
    (∀ publication ∈ mixedPublications, publication.IsValid Layout.usual) ∧
      ∃ store, (Catalog.usual ⟨0⟩).publishAll mixedPublications (Store.fresh 1) = some store ∧
        store.serve (Catalog.usual ⟨0⟩).chains
          = some (.ok (Dict.empty.insert "bills" oneProperty), store) := by
  have hfree : Json.FloatFree oneProperty.toJson := by
    refine .object fun member hmember => ?_
    obtain rfl := List.mem_singleton.mp hmember
    exact .int 3
  have hreadable : oneProperty.IsReadable := ⟨⟨oneProperty.write, rfl⟩, hfree⟩
  have hvalid : ∀ publication ∈ mixedPublications, publication.IsValid Layout.usual := by
    simp only [mixedPublications, List.forall_mem_cons]
    refine ⟨⟨rfl, hreadable⟩, rfl, ?_, trivial, rfl, trivial, List.forall_mem_nil _⟩
    intro id properties hfind
    rw [Dict.find?_insert] at hfind
    split at hfind
    · rename_i heq
      obtain rfl := Option.some.inj hfind
      exact ⟨heq ▸ rfl, hreadable⟩
    · cases hfind
  have hmap : publishedChains mixedPublications = Dict.empty.insert "bills" oneProperty := rfl
  obtain ⟨store, hpublish, hchains, -⟩ :=
    chains_after_publications ⟨0⟩ 1 mixedPublications hvalid
  exact ⟨hvalid, store, hpublish, hmap ▸ hchains⟩

end EngineCatalog
