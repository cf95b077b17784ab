import EngineCatalog.Proofs.Catalog.Chains

/-!
# The keys that chains are read from

All keys below the path of chains are read, and the id of a chain stands in a key up to the next
slash: a key further down is read as if it were the chain's own one. Of several keys with one id the
last one counts, and a chain's own key is the first of them. Main statement: what is given for a
chain is what the last key about it decodes to, so all chains are given from their own keys exactly
where no key further down that counts decodes to anything else (`chains_own_iff`).

* `Layout.IsAbout` — the key is the chain's own one, or it lies below it.
* `Store.IsLastAbout` — of the keys that are stored it is the last one about the chain.
* `Catalog.Gives` — a read or a watch gives the chains back.
-/

namespace EngineCatalog

open KeyValue (Entry Listing Store Write keyValue)
open Watch (Cursor Update)
open Catalog (Verdict judgeChain chainProperties)

/-! ## Keys about a chain -/

namespace Layout

variable {layout : Layout} {id key : String}

/-- The key is the chain's own one, or it lies below it. -/
def IsAbout (layout : Layout) (id key : String) : Prop :=
  key = layout.chainKey id ∨ ∃ part, key = layout.chainKey id ++ "/" ++ part

theorem isAbout_chainKey {rest : String} :
    layout.IsAbout id (layout.chainKey rest) ↔ rest = id ∨ ∃ part, rest = id ++ "/" ++ part := by
  have hbelow : ∀ part,
      layout.chainKey id ++ "/" ++ part = layout.chainKey (id ++ "/" ++ part) := by
    intro part
    simp [chainKey, String.append_assoc]
  simp only [IsAbout, hbelow, (chainKey_injective layout).eq_iff]

/-- Keys about a chain lie below the path of chains. -/
theorem IsAbout.covers_chainsListing (h : layout.IsAbout id key) :
    Store.covers layout.chainsListing true key = true := by
  have hkey : ∃ rest, key = layout.chainsListing ++ rest := by
    rcases h with rfl | ⟨part, rfl⟩
    · exact ⟨id, rfl⟩
    · exact ⟨id ++ "/" ++ part, by simp [chainKey, chainsListing, String.append_assoc]⟩
  obtain ⟨rest, rfl⟩ := hkey
  exact startsWith_append _ rest

/-- Below the path of chains, the id that is read is that of the chain which the key is about. -/
def ReadsIds (layout : Layout) : Prop :=
  ∀ key id, startsWith layout.chainsListing key = true →
    (chainId? key layout.marker = some id ↔ isSegment id.toList = true ∧ layout.IsAbout id key)

theorem readsIds_of {keys : KeySettings} (hplaces : keys.PlacesChains) (h : keys.check = .ok ()) :
    (of keys).ReadsIds := by
  intro key id hkey
  obtain ⟨rest, rfl⟩ := exists_eq_chainKey hkey
  rw [isAbout_chainKey]
  exact hplaces.chainId?_eq_some_iff h

theorem readsIds_usual : usual.ReadsIds :=
  readsIds_of (by decide) rfl

end Layout

/-! ## The key that counts -/

namespace KeyValue.Store

/-- Something is stored at the key, with or without a value. -/
def Has (store : Store) (key : String) : Prop :=
  ∃ value, store.stored? key = some value

/-- What is stored at the key decodes to the properties. -/
def DecodesTo (store : Store) (key : String) (properties : ChainProperties) : Prop :=
  ∃ bytes, store.stored? key = some (some bytes) ∧
    ChainProperties.reader.run bytes = .ok properties

/-- A key decodes to one thing only. -/
theorem DecodesTo.unique {store : Store} {key : String} {properties other : ChainProperties}
    (h : store.DecodesTo key properties) (hother : store.DecodesTo key other) :
    properties = other := by
  obtain ⟨bytes, hbytes, hrun⟩ := h
  obtain ⟨more, hmore, hrunOther⟩ := hother
  obtain rfl := Option.some.inj (Option.some.inj (hbytes.symm.trans hmore))
  exact Except.ok.inj (hrun.symm.trans hrunOther)

/-- The last one of the stored keys about a chain. -/
structure IsLastAbout (store : Store) (layout : Layout) (id key : String) : Prop where
  /-- it is about the chain -/
  about : layout.IsAbout id key
  /-- it is stored -/
  has : store.Has key
  /-- none behind it is both -/
  last : ∀ other, layout.IsAbout id other → store.Has other → ¬ key < other

end KeyValue.Store

/-! ## What is given for a chain -/

section Decode

variable {marker : String} {entry : Entry} {entries : List Entry} {id : String}
  {properties : ChainProperties} {chains : Dict ChainProperties}

/-- What is read comes from entries of which none fails. -/
theorem chainProperties_eq_ok (h : chainProperties marker entries = .ok chains) :
    (∀ entry ∈ entries, ∀ reason, judgeChain marker entry ≠ .failed reason) ∧
      chains = Dict.ofList (Catalog.decoded (judgeChain marker) entries) := by
  rw [chainProperties, Catalog.collect] at h
  split at h
  · rename_i hnone
    refine ⟨fun entry hentry reason hfailed => ?_, (Except.ok.inj h).symm⟩
    rw [List.isEmpty_iff, Catalog.failures, List.filterMap_eq_nil_iff] at hnone
    have hreason := hnone entry hentry
    rw [hfailed] at hreason
    cases hreason
  · cases h

/-- An entry decodes to what its value decodes to, under the id in its key. -/
theorem value?_judgeChain_eq_some_iff :
    (judgeChain marker entry).value? = some (id, properties) ↔ chainId? entry.key marker = some id ∧
      ∃ bytes, entry.value = some bytes ∧ ChainProperties.reader.run bytes = .ok properties := by
  rw [judgeChain]
  cases chainId? entry.key marker with
  | none => simp [Verdict.value?]
  | some found =>
    cases entry.value with
    | none => simp [Verdict.value?]
    | some bytes =>
      cases hrun : ChainProperties.reader.run bytes with
      | ok read => simp [Verdict.ofFault, Verdict.value?, Except.map, hrun]
      | error fault => simp [Verdict.ofFault, Verdict.value?, Except.map, hrun]

/-- An entry with an id in its key decodes, or it fails. -/
theorem exists_value?_judgeChain (hread : ∀ reason, judgeChain marker entry ≠ .failed reason)
    (hid : chainId? entry.key marker = some id) :
    ∃ properties, (judgeChain marker entry).value? = some (id, properties) := by
  rw [judgeChain, hid] at hread ⊢
  cases hvalue : entry.value with
  | none => exact absurd (by rw [hvalue]) (hread "no value stored")
  | some bytes =>
    cases hrun : ChainProperties.reader.run bytes with
    | ok read => exact ⟨read, by simp [Verdict.ofFault, Verdict.value?, Except.map, hrun]⟩
    | error fault =>
      refine absurd ?_ (hread fault.message)
      simp [Verdict.ofFault, Except.map, hvalue, hrun]

/-- Where entries stand in the order of their keys, those behind one of them are those above it. -/
theorem mem_behind_iff {front back : List Entry} {other : Entry}
    (h : (front ++ entry :: back).Pairwise fun one other => one.key < other.key) :
    other ∈ back ↔ other ∈ front ++ entry :: back ∧ entry.key < other.key := by
  rw [List.pairwise_append] at h
  constructor
  · intro hback
    exact ⟨List.mem_append_right _ (List.mem_cons_of_mem _ hback),
      List.rel_of_pairwise_cons h.2.1 hback⟩
  · rintro ⟨hmem, hlt⟩
    rcases List.mem_append.mp hmem with hfront | hmem
    · exact absurd hlt (String.lt_asymm (h.2.2 other hfront entry List.mem_cons_self))
    · rcases List.mem_cons.mp hmem with rfl | hback
      · exact absurd hlt (String.lt_irrefl _)
      · exact hback

end Decode

section Last

variable {layout : Layout} {store : Store} {chains : Dict ChainProperties} {id : String}
  {properties : ChainProperties}

/-- What is read for a chain is what the last key about it decodes to. -/
theorem find?_chainProperties_iff (hreads : layout.ReadsIds)
    (h : chainProperties layout.marker (store.queryEntries layout.chainsListing true)
      = .ok chains) :
    chains.find? id = some properties ↔ isSegment id.toList = true ∧
      ∃ key, store.IsLastAbout layout id key ∧ store.DecodesTo key properties := by
  obtain ⟨hread, rfl⟩ := chainProperties_eq_ok h
  set entries := store.queryEntries layout.chainsListing true with hentries
  have hordered : entries.Pairwise fun one other => one.key < other.key :=
    store.pairwise_queryEntries layout.chainsListing true
  have hid : ∀ entry ∈ entries, chainId? entry.key layout.marker = some id
      ↔ isSegment id.toList = true ∧ layout.IsAbout id entry.key :=
    fun entry hentry => hreads entry.key id (Store.mem_queryEntries.mp hentry).1
  have hstored : ∀ entry ∈ entries, store.stored? entry.key = some entry.value :=
    fun entry hentry => Store.stored?_of_mem_queryEntries hentry
  rw [Dict.ofList, Dict.find?_insertAll, Dict.find?_empty, Option.or_none, Catalog.decoded,
    Sorted.find?_reverse_filterMap_eq_some_iff]
  constructor
  · rintro ⟨front, entry, back, hsplit, hvalue, hback⟩
    have hentry : entry ∈ entries := by simp [hsplit]
    obtain ⟨hfound, bytes, hbytes, hrun⟩ := value?_judgeChain_eq_some_iff.mp hvalue
    obtain ⟨hsegment, habout⟩ := (hid entry hentry).mp hfound
    refine ⟨hsegment, entry.key, ⟨habout, ⟨entry.value, hstored entry hentry⟩, ?_⟩,
      bytes, hbytes ▸ hstored entry hentry, hrun⟩
    rintro other hother ⟨value, hvalue⟩ hlt
    obtain ⟨later, hlater, rfl, -⟩ :=
      Store.exists_mem_queryEntries hother.covers_chainsListing hvalue
    have hmem : later ∈ back := by
      rw [hsplit] at hordered
      exact (mem_behind_iff hordered).mpr ⟨hsplit ▸ hlater, hlt⟩
    obtain ⟨more, hmore⟩ := exists_value?_judgeChain (hread later hlater)
      ((hid later hlater).mpr ⟨hsegment, hother⟩)
    exact hback later hmem more hmore
  · rintro ⟨hsegment, key, ⟨habout, -, hlast⟩, bytes, hbytes, hrun⟩
    obtain ⟨entry, hentry, rfl, hvalue⟩ :=
      Store.exists_mem_queryEntries habout.covers_chainsListing hbytes
    obtain ⟨front, back, hsplit⟩ := List.append_of_mem hentry
    refine ⟨front, entry, back, hsplit, value?_judgeChain_eq_some_iff.mpr
      ⟨(hid entry hentry).mpr ⟨hsegment, habout⟩, bytes, hvalue, hrun⟩, ?_⟩
    intro later hlater more hmore
    rw [hentries, hsplit] at hordered
    obtain ⟨hmem, hlt⟩ := (mem_behind_iff hordered).mp hlater
    rw [← hsplit, ← hentries] at hmem
    obtain ⟨-, hother⟩ := (hid later hmem).mp (value?_judgeChain_eq_some_iff.mp hmore).1
    exact hlast later.key hother ⟨later.value, hstored later hmem⟩ hlt

/-- The last key about a chain decodes to something, or nothing is read at all. -/
theorem exists_decodesTo_of_isLastAbout (hreads : layout.ReadsIds)
    (h : chainProperties layout.marker (store.queryEntries layout.chainsListing true)
      = .ok chains) {key : String} (hsegment : isSegment id.toList = true)
    (hlast : store.IsLastAbout layout id key) : ∃ properties, store.DecodesTo key properties := by
  obtain ⟨value, hvalue⟩ := hlast.has
  obtain ⟨entry, hentry, rfl, rfl⟩ := Store.exists_mem_queryEntries
    hlast.about.covers_chainsListing hvalue
  obtain ⟨properties, hproperties⟩ := exists_value?_judgeChain
    ((chainProperties_eq_ok h).1 entry hentry)
    ((hreads entry.key id hlast.about.covers_chainsListing).mpr ⟨hsegment, hlast.about⟩)
  obtain ⟨-, bytes, hbytes, hrun⟩ := value?_judgeChain_eq_some_iff.mp hproperties
  exact ⟨properties, bytes, hbytes ▸ hvalue, hrun⟩

end Last

/-! ## Reading and watching -/

/-- A read of all chains gives them back, or a watch that says that they have changed. -/
def Catalog.Gives (catalog : Catalog) (store : Store) (chains : Dict ChainProperties) : Prop :=
  (∃ after, store.serve catalog.chains = some (.ok chains, after)) ∨
    ∃ cursor next after,
      store.serve (catalog.watchChains cursor) = some ((.ok (.changed chains), next), after)

/-- A watch that says that something has changed gives back what the entries decode to. -/
theorem decode_of_receive {α : Type} {cursor next : Cursor} {decode : List Entry → Outcome α}
    {listing : Listing} {payload : α}
    (h : cursor.receive decode (.ok listing) = (.ok (.changed payload), next)) :
    decode listing.entries = .ok payload := by
  rw [Cursor.receive] at h
  split at h
  · split at h
    · rename_i found hdecode
      obtain rfl := Update.changed.inj (Except.ok.inj (Prod.mk.inj h).1)
      exact hdecode
    · cases h
  · cases h

/-- What is given is what the entries below the path of chains come to. -/
theorem Catalog.Gives.chainProperties_eq {catalog : Catalog} {store : Store}
    {chains : Dict ChainProperties} (h : catalog.Gives store chains) :
    chainProperties catalog.layout.marker (store.queryEntries catalog.layout.chainsListing true)
      = .ok chains := by
  rcases h with ⟨after, hread⟩ | ⟨cursor, next, after, hwatch⟩
  · rw [Catalog.chains, Catalog.serve_readOr, Store.read] at hread
    have houtcome := (Prod.mk.inj (Option.some.inj hread)).1
    by_cases hnone : (store.queryEntries catalog.layout.chainsListing true).isEmpty = true
    · rw [if_pos hnone] at houtcome
      rw [List.isEmpty_iff.mp hnone]
      exact houtcome
    · rw [if_neg hnone] at houtcome
      exact houtcome
  · have hrun := @Session.run_watch .chains catalog cursor store
    exact decode_of_receive (Prod.mk.inj (Option.some.inj (hrun.symm.trans hwatch))).1

/-- **Chains are given from their last keys.** Whatever is stored, with the usual layout a read or a
watch gives for a chain what the last key about it decodes to. So the properties of all chains come
from their own keys exactly if the own key of each chain with a key further down is stored, and
decodes to the same as the last of these. -/
theorem chains_own_iff (wait : Span) (store : Store) (chains : Dict ChainProperties)
    (h : (Catalog.usual wait).Gives store chains) :
    (∀ id properties, chains.find? id = some properties ↔ isSegment id.toList = true ∧
      ∃ key, store.IsLastAbout Layout.usual id key ∧ store.DecodesTo key properties) ∧
    ((∀ id properties, chains.find? id = some properties →
        store.DecodesTo (Layout.usual.chainKey id) properties) ↔
      ∀ id key, isSegment id.toList = true → store.IsLastAbout Layout.usual id key →
        key ≠ Layout.usual.chainKey id → ∃ properties, store.DecodesTo key properties ∧
          store.DecodesTo (Layout.usual.chainKey id) properties) := by
  have hread := h.chainProperties_eq
  have hfind : ∀ id properties, chains.find? id = some properties ↔ isSegment id.toList = true ∧
      ∃ key, store.IsLastAbout Layout.usual id key ∧ store.DecodesTo key properties :=
    fun id properties => find?_chainProperties_iff Layout.readsIds_usual hread
  refine ⟨hfind, ?_, ?_⟩
  · intro hown id key hsegment hlast _
    obtain ⟨properties, hdecodes⟩ :=
      exists_decodesTo_of_isLastAbout Layout.readsIds_usual hread hsegment hlast
    exact ⟨properties, hdecodes,
      hown id properties ((hfind id properties).mpr ⟨hsegment, key, hlast, hdecodes⟩)⟩
  · intro hsame id properties hproperties
    obtain ⟨hsegment, key, hlast, hdecodes⟩ := (hfind id properties).mp hproperties
    by_cases hkey : key = Layout.usual.chainKey id
    · exact hkey ▸ hdecodes
    · obtain ⟨other, hother, hown⟩ := hsame id key hsegment hlast hkey
      obtain rfl : other = properties := hother.unique hdecodes
      exact hown

/-- Properties with one number. -/
def ChainProperties.ofNumber (number : Int) : ChainProperties :=
  ⟨Dict.empty.insert "a" (.number (.int number))⟩

/-- A chain with a key further down. -/
def deeperKey : Store :=
  (Store.fresh 1).after [
    .put (Layout.usual.chainKey "orders") (ChainProperties.ofNumber 1).write,
    .put (Layout.usual.chainKey "orders" ++ "/deep") (ChainProperties.ofNumber 2).write]

theorem gives_deeperKey :
    (Catalog.usual ⟨0⟩).Gives deeperKey
      (Dict.empty.insert "orders" (ChainProperties.ofNumber 2)) :=
  .inl ⟨deeperKey, rfl⟩

/-- What is given for it is what the key further down decodes to. -/
theorem chains_own_iff_deeperKey :
    (Catalog.usual ⟨0⟩).Gives deeperKey
        (Dict.empty.insert "orders" (ChainProperties.ofNumber 2)) ∧
      ∃ key, deeperKey.IsLastAbout Layout.usual "orders" key ∧
        deeperKey.DecodesTo key (ChainProperties.ofNumber 2) := by
  have hfind := (chains_own_iff ⟨0⟩ deeperKey _ gives_deeperKey).1 "orders"
    (ChainProperties.ofNumber 2)
  exact ⟨gives_deeperKey, (hfind.mp (Dict.find?_insert_self _ _ _)).2⟩

/-- A chain is given with other properties than its own key has, and it is given with them still
after it was withdrawn and its own key is gone. -/
theorem chain_given_from_deeperKey :
    let own := Layout.usual.chainKey "orders"
    let chains := Dict.empty.insert "orders" (ChainProperties.ofNumber 2)
    let withdrawn := (deeperKey.perform (.delete own false)).2
    (Catalog.usual ⟨0⟩).Gives deeperKey chains ∧
      deeperKey.DecodesTo own (ChainProperties.ofNumber 1) ∧
      ¬ deeperKey.DecodesTo own (ChainProperties.ofNumber 2) ∧
      (Catalog.usual ⟨0⟩).Gives withdrawn chains ∧ ¬ withdrawn.Has own := by
  intro own chains withdrawn
  have hown : deeperKey.DecodesTo own (ChainProperties.ofNumber 1) :=
    ⟨(ChainProperties.ofNumber 1).write, rfl, rfl⟩
  have hother : ¬ deeperKey.DecodesTo own (ChainProperties.ofNumber 2) := by
    intro hother
    exact absurd (congrArg ChainProperties.write (hown.unique hother)) (by decide)
  have hgone : withdrawn.stored? own = none := by
    rw [(@Store.stored?_perform deeperKey (.delete own false) trivial).2]
    simp [Write.leaves, Store.covers]
  refine ⟨gives_deeperKey, hown, hother, .inl ⟨withdrawn, rfl⟩, ?_⟩
  rintro ⟨value, hvalue⟩
  rw [hgone] at hvalue
  cases hvalue

end EngineCatalog
