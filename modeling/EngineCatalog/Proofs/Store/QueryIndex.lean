import EngineCatalog.Proofs.Store.Write

/-!
# The index of a query

A query comes with the index of the last change of what it covers. Main statement: along every run
of writes this index never falls, and where it is the same again, nothing that the query covers has
changed in between (`queryIndex_after`). So one who remembers the index of an answer can tell by
comparing whether the answer is still up to date.

* `covers` — which keys a query is about, for a single key and for a path alike.
* `Numbered` — the invariant: all indexes in a store are positive and at most its own.
* `Advances` — what every write does to a query: its index does not fall, and where its entries
  change, its index rises above the index that the store had before.
-/

namespace EngineCatalog.KeyValue

open Text (Bytes)

namespace Store

variable {α : Type} {store s t u : Store} {path : String} {all : Bool}

/-! ## What a query covers -/

/-- The query is about the key. -/
def covers (path : String) (all : Bool) (key : String) : Bool :=
  if all then startsWith path key else key = path

theorem mem_select {dict : Dict α} {key : String} {value : α} :
    (key, value) ∈ select dict path all
      ↔ covers path all key = true ∧ dict.find? key = some value := by
  cases all with
  | true =>
    rw [select, if_pos rfl, Dict.underPrefix_eq_filter, List.mem_filter, Dict.mem_entries_iff,
      and_comm, covers, if_pos rfl]
  | false =>
    rw [select, if_neg Bool.false_ne_true, Option.mem_toList, Option.map_eq_some_iff, covers,
      if_neg Bool.false_ne_true, decide_eq_true_iff]
    constructor
    · rintro ⟨v, hv, heq⟩
      obtain ⟨rfl, rfl⟩ := Prod.mk.inj heq
      exact ⟨rfl, hv⟩
    · rintro ⟨rfl, hv⟩
      exact ⟨value, hv, rfl⟩

/-- For a single key and for a path alike, a selection is a filter by the keys it covers. -/
theorem select_eq_filter (dict : Dict α) (path : String) (all : Bool) :
    select dict path all = (dict.filter fun key _ => covers path all key).entries := by
  cases all with
  | true =>
    rw [select, if_pos rfl, Dict.underPrefix_eq_filter]
    rfl
  | false =>
    have hfind : (dict.filter fun key _ => covers path false key)
        = ((dict.find? path).map fun value => Dict.empty.insert path value).getD Dict.empty := by
      apply Dict.ext_find?
      intro key
      rw [Dict.find?_filter, covers, if_neg Bool.false_ne_true]
      by_cases hkey : key = path
      · subst hkey
        cases dict.find? key <;> simp [Option.filter]
      · cases dict.find? path <;> cases dict.find? key <;>
          simp [Option.filter, hkey, Dict.find?_insert_ne (Ne.symm hkey)]
    rw [hfind, select, if_neg Bool.false_ne_true]
    cases dict.find? path <;> rfl

/-- Dictionaries that agree on what a query covers have the same selection. -/
theorem select_congr {a b : Dict α}
    (h : ∀ key, covers path all key = true → a.find? key = b.find? key) :
    select a path all = select b path all := by
  rw [select_eq_filter, select_eq_filter]
  congr 1
  apply Dict.ext_find?
  intro key
  rw [Dict.find?_filter, Dict.find?_filter]
  by_cases hkey : covers path all key = true
  · rw [h key hkey]
  · cases a.find? key <;> cases b.find? key <;> simp [Option.filter, hkey]

theorem mem_queryEntries {entry : Entry} :
    entry ∈ store.queryEntries path all ↔ covers path all entry.key = true ∧
      store.entries.find? entry.key = some ⟨entry.value, entry.modified⟩ := by
  rw [queryEntries, List.mem_map]
  constructor
  · rintro ⟨⟨key, stored⟩, hmem, rfl⟩
    exact mem_select.mp hmem
  · intro h
    exact ⟨(entry.key, ⟨entry.value, entry.modified⟩), mem_select.mpr h, rfl⟩

/-- What a query comes to is in the order of the keys. -/
theorem pairwise_queryEntries (store : Store) (path : String) (all : Bool) :
    (store.queryEntries path all).Pairwise fun one other => one.key < other.key := by
  rw [queryEntries, select_eq_filter]
  exact List.pairwise_map.mpr (List.pairwise_map.mp (Dict.ascending _))

theorem mem_changeIndexes {index : Nat} :
    index ∈ store.changeIndexes path all ↔ ∃ key, covers path all key = true ∧
      ((∃ stored, store.entries.find? key = some stored ∧ stored.modified = index)
        ∨ store.tombstones.find? key = some index) := by
  rw [changeIndexes, List.mem_append, List.mem_map, List.mem_map]
  constructor
  · rintro (⟨⟨key, stored⟩, hmem, rfl⟩ | ⟨⟨key, i⟩, hmem, rfl⟩)
    · obtain ⟨hkey, hfind⟩ := mem_select.mp hmem
      exact ⟨key, hkey, .inl ⟨stored, hfind, rfl⟩⟩
    · obtain ⟨hkey, hfind⟩ := mem_select.mp hmem
      exact ⟨key, hkey, .inr hfind⟩
  · rintro ⟨key, hkey, ⟨stored, hfind, rfl⟩ | hfind⟩
    · exact .inl ⟨(key, stored), mem_select.mpr ⟨hkey, hfind⟩, rfl⟩
    · exact .inr ⟨(key, index), mem_select.mpr ⟨hkey, hfind⟩, rfl⟩

/-! ## The index as a maximum -/

theorem queryIndex_of_unknown (h : store.changeIndexes path all = []) :
    store.queryIndex path all = store.index := by
  rw [queryIndex, h]
  rfl

theorem queryIndex_le_iff {bound : Nat} (h : store.changeIndexes path all ≠ []) :
    store.queryIndex path all ≤ bound
      ↔ (∀ index ∈ store.changeIndexes path all, index ≤ bound) ∧ store.reaped ≤ bound := by
  obtain ⟨top, htop⟩ := Option.isSome_iff_exists.mp (List.isSome_max?_of_ne_nil h)
  rw [queryIndex, htop]
  simp only [Nat.max_le, List.max?_le_iff htop]

theorem le_queryIndex_of_mem {index : Nat} (h : index ∈ store.changeIndexes path all) :
    index ≤ store.queryIndex path all :=
  ((queryIndex_le_iff (List.ne_nil_of_mem h)).mp (Nat.le_refl _)).1 index h

theorem reaped_le_queryIndex (h : store.changeIndexes path all ≠ []) :
    store.reaped ≤ store.queryIndex path all :=
  ((queryIndex_le_iff h).mp (Nat.le_refl _)).2

/-- Stores that agree on what a query covers, and on their own indexes, answer it alike. -/
theorem query_congr
    (hentries : ∀ key, covers path all key = true → t.entries.find? key = s.entries.find? key)
    (htombstones : ∀ key, covers path all key = true →
      t.tombstones.find? key = s.tombstones.find? key)
    (hindex : t.index = s.index) (hreaped : t.reaped = s.reaped) :
    t.query path all = s.query path all := by
  rw [query, query, queryIndex, queryIndex, changeIndexes, changeIndexes, queryEntries,
    queryEntries, select_congr hentries, select_congr htombstones, hindex, hreaped]

/-! ## The invariant -/

/-- All indexes in the store are positive and at most its own. -/
structure Numbered (store : Store) : Prop where
  /-- the store's own index is positive -/
  index_pos : 0 < store.index
  /-- so are those of the keys -/
  entries : ∀ {key stored}, store.entries.find? key = some stored →
    0 < stored.modified ∧ stored.modified ≤ store.index
  /-- and those of the tombstones -/
  tombstones : ∀ {key index}, store.tombstones.find? key = some index →
    0 < index ∧ index ≤ store.index
  /-- no tombstone that is gone was later than the store -/
  reaped : store.reaped ≤ store.index

theorem numbered_fresh (limit : Nat) : Numbered (fresh limit) where
  index_pos := Nat.one_pos
  entries := fun h => nomatch h
  tombstones := fun h => nomatch h
  reaped := Nat.zero_le 1

theorem Numbered.advance (h : Numbered store) : Numbered store.advance :=
  ⟨Nat.succ_pos _, fun hfind => ⟨(h.entries hfind).1, Nat.le_succ_of_le (h.entries hfind).2⟩,
    fun hfind => ⟨(h.tombstones hfind).1, Nat.le_succ_of_le (h.tombstones hfind).2⟩,
    Nat.le_succ_of_le h.reaped⟩

theorem Numbered.set (h : Numbered store) (key : String) (value : Option Bytes) :
    Numbered (store.set key value store.index) := by
  refine ⟨h.index_pos, ?_, ?_, h.reaped⟩
  · intro k stored hfind
    rw [Store.set, Dict.find?_insert] at hfind
    split at hfind
    · obtain rfl := Option.some.inj hfind
      exact ⟨h.index_pos, Nat.le_refl _⟩
    · exact h.entries hfind
  · intro k index hfind
    rw [Store.set, Dict.find?_erase] at hfind
    split at hfind
    · cases hfind
    · exact h.tombstones hfind

theorem Numbered.reap (h : Numbered store) : Numbered store.reap := by
  refine ⟨?_, ?_, ?_, ?_⟩
  · rw [reap_index]
    exact h.index_pos
  · intro key stored hfind
    rw [reap_entries] at hfind
    rw [reap_index]
    exact h.entries hfind
  · intro key index hfind
    rw [reap_index]
    exact h.tombstones (find?_of_find?_reap hfind)
  · rw [reap_index]
    exact (reap_reaped_le_iff fun _ _ hfind => (h.tombstones hfind).2).mpr h.reaped

/-- The store with tombstones in place of some keys, before it is reaped. -/
def entomb (store : Store) (keys : List String) (index : Nat) : Store :=
  { store with
    entries := store.entries.eraseAll keys
    tombstones := store.tombstones.insertAll (keys.map fun key => (key, index)) }

theorem bury_eq (store : Store) (keys : List String) (index : Nat) :
    store.bury keys index = (store.entomb keys index).reap := rfl

theorem find?_entomb_entries (store : Store) (keys : List String) (index : Nat) (key : String) :
    (store.entomb keys index).entries.find? key
      = if key ∈ keys then none else store.entries.find? key :=
  Dict.find?_eraseAll _ _ _

theorem find?_entomb_tombstones (store : Store) (keys : List String) (index : Nat)
    (key : String) :
    (store.entomb keys index).tombstones.find? key
      = if key ∈ keys then some index else store.tombstones.find? key :=
  Dict.find?_insertAll_const _ _ _ _

theorem Numbered.entomb (h : Numbered store) (keys : List String) :
    Numbered (store.entomb keys store.index) := by
  refine ⟨h.index_pos, ?_, ?_, h.reaped⟩
  · intro key stored hfind
    rw [find?_entomb_entries] at hfind
    split at hfind
    · cases hfind
    · exact h.entries hfind
  · intro key index hfind
    rw [find?_entomb_tombstones] at hfind
    split at hfind
    · obtain rfl := Option.some.inj hfind
      exact ⟨h.index_pos, Nat.le_refl _⟩
    · exact h.tombstones hfind

theorem Numbered.queryIndex_le (h : Numbered store) (path : String) (all : Bool) :
    store.queryIndex path all ≤ store.index := by
  by_cases hnone : store.changeIndexes path all = []
  · exact Nat.le_of_eq (queryIndex_of_unknown hnone)
  · refine (queryIndex_le_iff hnone).mpr ⟨fun index hindex => ?_, h.reaped⟩
    obtain ⟨key, -, ⟨stored, hfind, rfl⟩ | hfind⟩ := mem_changeIndexes.mp hindex
    · exact (h.entries hfind).2
    · exact (h.tombstones hfind).2

/-- Index 0 is left for those who have seen nothing. -/
theorem Numbered.queryIndex_pos (h : Numbered store) (path : String) (all : Bool) :
    0 < store.queryIndex path all := by
  by_cases hnone : store.changeIndexes path all = []
  · rw [queryIndex_of_unknown hnone]
    exact h.index_pos
  · obtain ⟨index, hindex⟩ := List.exists_mem_of_ne_nil _ hnone
    refine Nat.lt_of_lt_of_le ?_ (le_queryIndex_of_mem hindex)
    obtain ⟨key, -, ⟨stored, hfind, rfl⟩ | hfind⟩ := mem_changeIndexes.mp hindex
    · exact (h.entries hfind).1
    · exact (h.tombstones hfind).1

/-! ## What a write does to a query

A write moves the index of the store on once, and what it sets or buries gets the new index, above
all that a query had before. A query about none of that stays as it was; only where it knows of
nothing does it follow the index of the store. -/

/-- From one store to a later one, the index of a query does not fall, and where its entries
change it rises above `since`, which is the index that the store had before the write. -/
structure Advances (path : String) (all : Bool) (since : Nat) (s t : Store) : Prop where
  /-- the index of the query does not fall -/
  index_le : s.queryIndex path all ≤ t.queryIndex path all
  /-- its entries are the same, or its index is new -/
  entries_eq : t.queryEntries path all = s.queryEntries path all
    ∨ since < t.queryIndex path all

theorem Advances.of_query_eq {since : Nat} (h : t.query path all = s.query path all) :
    Advances path all since s t :=
  ⟨Nat.le_of_eq (congrArg Listing.index h).symm, .inl (congrArg Listing.entries h)⟩

theorem Advances.trans {since later : Nat} (hst : Advances path all since s t)
    (htu : Advances path all later t u) (hle : since ≤ later) : Advances path all since s u := by
  refine ⟨Nat.le_trans hst.index_le htu.index_le, ?_⟩
  rcases htu.entries_eq with heq | hnew
  · rcases hst.entries_eq with heq' | hnew'
    · exact .inl (heq.trans heq')
    · exact .inr (Nat.lt_of_lt_of_le hnew' htu.index_le)
  · exact .inr (Nat.lt_of_le_of_lt hle hnew)

/-- Where something that a query covers has the index of the store, the query has it, too. -/
theorem Advances.of_mem {since : Nat} (hs : Numbered s) (hindex : s.index = since + 1)
    (hmem : s.index ∈ t.changeIndexes path all) : Advances path all since s t := by
  have hle := le_queryIndex_of_mem hmem
  refine ⟨Nat.le_trans (hs.queryIndex_le path all) hle, .inr ?_⟩
  omega

/-- Moving the index on changes no entry; it only shows where nothing is known. -/
theorem advances_advance (path : String) (all : Bool) (since : Nat) (s : Store) :
    Advances path all since s s.advance := by
  refine ⟨?_, .inl rfl⟩
  by_cases hnone : s.changeIndexes path all = []
  · have hnone' : s.advance.changeIndexes path all = [] := hnone
    rw [queryIndex_of_unknown hnone, queryIndex_of_unknown hnone']
    exact Nat.le_succ _
  · have hknown : s.advance.changeIndexes path all ≠ [] := hnone
    exact (queryIndex_le_iff hnone).mpr ((queryIndex_le_iff hknown).mp (Nat.le_refl _))

theorem advances_set {since : Nat} (hs : Numbered s) (hindex : s.index = since + 1)
    (key : String) (value : Option Bytes) (path : String) (all : Bool) :
    Advances path all since s (s.set key value s.index) := by
  by_cases hkey : covers path all key = true
  · refine Advances.of_mem hs hindex (mem_changeIndexes.mpr ⟨key, hkey, .inl ?_⟩)
    exact ⟨⟨value, s.index⟩, Dict.find?_insert_self _ _ _, rfl⟩
  · -- a key that the query is not about
    have hne : ∀ k, covers path all k = true → key ≠ k := by
      rintro k hk rfl
      exact hkey hk
    refine Advances.of_query_eq (query_congr ?_ ?_ rfl rfl)
    · intro k hk
      exact Dict.find?_insert_ne (hne k hk)
    · intro k hk
      rw [Store.set, Dict.find?_erase, if_neg (hne k hk)]

theorem advances_entomb {since : Nat} (hs : Numbered s) (hindex : s.index = since + 1)
    (keys : List String) (path : String) (all : Bool) :
    Advances path all since s (s.entomb keys s.index) := by
  by_cases hsome : ∃ key ∈ keys, covers path all key = true
  · obtain ⟨key, hmem, hkey⟩ := hsome
    refine Advances.of_mem hs hindex (mem_changeIndexes.mpr ⟨key, hkey, .inr ?_⟩)
    rw [find?_entomb_tombstones, if_pos hmem]
  · have hout : ∀ k, covers path all k = true → k ∉ keys := fun k hk hmem => hsome ⟨k, hmem, hk⟩
    refine Advances.of_query_eq (query_congr ?_ ?_ rfl rfl)
    · intro k hk
      rw [find?_entomb_entries, if_neg (hout k hk)]
    · intro k hk
      rw [find?_entomb_tombstones, if_neg (hout k hk)]

/-- A reaped deletion still counts: the index of a query does not fall when tombstones go. -/
theorem advances_reap {since : Nat} (hs : Numbered s) (path : String) (all : Bool) :
    Advances path all since s s.reap := by
  have hentries : s.reap.queryEntries path all = s.queryEntries path all := by
    rw [queryEntries, queryEntries, reap_entries]
  refine ⟨?_, .inl hentries⟩
  by_cases hnone : s.reap.changeIndexes path all = []
  · rw [queryIndex_of_unknown hnone, reap_index]
    exact hs.queryIndex_le path all
  · obtain ⟨index, hindex⟩ := List.exists_mem_of_ne_nil _ hnone
    -- what is known after the reaping was known before
    have hknown : s.changeIndexes path all ≠ [] := by
      obtain ⟨key, hkey, ⟨stored, hfind, rfl⟩ | hfind⟩ := mem_changeIndexes.mp hindex
      · rw [reap_entries] at hfind
        exact List.ne_nil_of_mem (mem_changeIndexes.mpr ⟨key, hkey, .inl ⟨stored, hfind, rfl⟩⟩)
      · exact List.ne_nil_of_mem
          (mem_changeIndexes.mpr ⟨key, hkey, .inr (find?_of_find?_reap hfind)⟩)
    refine (queryIndex_le_iff hknown).mpr ⟨fun i hi => ?_, ?_⟩
    · obtain ⟨key, hkey, ⟨stored, hfind, rfl⟩ | hfind⟩ := mem_changeIndexes.mp hi
      · refine le_queryIndex_of_mem (mem_changeIndexes.mpr ⟨key, hkey, .inl ⟨stored, ?_, rfl⟩⟩)
        rw [reap_entries]
        exact hfind
      · rcases find?_reap_tombstones hfind with hstays | hgone
        · exact le_queryIndex_of_mem (mem_changeIndexes.mpr ⟨key, hkey, .inr hstays⟩)
        · -- the reaped index stands in for the tombstone
          exact Nat.le_trans hgone (reaped_le_queryIndex hnone)
    · exact Nat.le_trans (reaped_le_reap s) (reaped_le_queryIndex hnone)

/-- What a write keeps and what it does to every query, whether it is accepted or not. -/
theorem perform_advances (hs : Numbered s) (write : Write) :
    Numbered (s.perform write).2 ∧ s.index ≤ (s.perform write).2.index ∧
      ∀ path all, Advances path all s.index s (s.perform write).2 := by
  -- what holds of the store at every point of the write, whose index is the next one
  let P : Store → Prop := fun t =>
    Numbered t ∧ t.index = s.index + 1 ∧ ∀ path all, Advances path all s.index s t
  have hadvance : P s.advance :=
    ⟨hs.advance, rfl, fun path all => advances_advance path all s.index s⟩
  have hset : ∀ t key value, isAbsolute key = true → P t →
      P (t.set key value (s.index + 1)) := by
    rintro t key value - ⟨hnum, hindex, hadv⟩
    rw [← hindex]
    exact ⟨hnum.set key value, hindex, fun path all =>
      (hadv path all).trans (advances_set hnum hindex key value path all) (Nat.le_refl _)⟩
  have hbury : ∀ t keys, (∀ key ∈ keys, t.entries.contains key = true) → P t →
      P (t.bury keys (s.index + 1)) := by
    rintro t keys - ⟨hnum, hindex, hadv⟩
    rw [← hindex, bury_eq]
    have hent := hnum.entomb keys
    refine ⟨hent.reap, (reap_index _).trans hindex, fun path all => ?_⟩
    exact ((hadv path all).trans (advances_entomb hnum hindex keys path all) (Nat.le_refl _)).trans
      (advances_reap hent path all) (Nat.le_refl _)
  rcases perform_cases write hadvance hset hbury with heq | ⟨hnum, hindex, hadv⟩
  · rw [heq]
    exact ⟨hs, Nat.le_refl _, fun path all => Advances.of_query_eq rfl⟩
  · exact ⟨hnum, by omega, hadv⟩

/-- A write leaves the store as it is or moves its index on by one. -/
theorem perform_eq_or_index (store : Store) (write : Write) :
    (store.perform write).2 = store ∨ (store.perform write).2.index = store.index + 1 := by
  have hbury : ∀ (t : Store) (keys : List String), (∀ key ∈ keys, t.entries.contains key = true) →
      t.index = store.index + 1 → (t.bury keys (store.index + 1)).index = store.index + 1 := by
    intro t keys _ ht
    rw [bury_eq, reap_index]
    exact ht
  have hset : ∀ (t : Store) (key : String) (value : Option Bytes), isAbsolute key = true →
      t.index = store.index + 1 → (t.set key value (store.index + 1)).index = store.index + 1 :=
    fun _ _ _ _ ht => ht
  exact perform_cases (P := fun t => t.index = store.index + 1) write rfl hset hbury

/-- The same along a run of writes. -/
theorem after_advances (hs : Numbered s) (writes : List Write) :
    Numbered (s.after writes) ∧ s.index ≤ (s.after writes).index ∧
      ∀ path all, Advances path all s.index s (s.after writes) := by
  induction writes generalizing s with
  | nil => exact ⟨hs, Nat.le_refl _, fun path all => Advances.of_query_eq rfl⟩
  | cons write rest ih =>
    obtain ⟨hnum, hle, hadv⟩ := perform_advances hs write
    obtain ⟨hnum', hle', hadv'⟩ := ih hnum
    exact ⟨hnum', Nat.le_trans hle hle', fun path all =>
      (hadv path all).trans (hadv' path all) hle⟩

theorem numbered_after_fresh (limit : Nat) (writes : List Write) :
    Numbered ((fresh limit).after writes) :=
  (after_advances (numbered_fresh limit) writes).1

/-- Where the index of a query is the same again, its entries are, too. -/
theorem Numbered.queryEntries_after_eq (hs : Numbered s) (writes : List Write)
    (heq : (s.after writes).queryIndex path all = s.queryIndex path all) :
    (s.after writes).queryEntries path all = s.queryEntries path all := by
  obtain ⟨-, -, hadv⟩ := after_advances hs writes
  rcases (hadv path all).entries_eq with hsame | hnew
  · exact hsame
  · have hle := hs.queryIndex_le path all
    omega

/-- **Law of the query index.** From every store that writes have led to, and along every further
run of writes, accepted or not, the index of a query never falls; and where it is the same again,
the query answers with the same entries. -/
theorem queryIndex_after (limit : Nat) (before later : List Write) (path : String) (all : Bool) :
    ((fresh limit).after before).queryIndex path all
        ≤ (((fresh limit).after before).after later).queryIndex path all ∧
      ((((fresh limit).after before).after later).queryIndex path all
          = ((fresh limit).after before).queryIndex path all →
        (((fresh limit).after before).after later).queryEntries path all
          = ((fresh limit).after before).queryEntries path all) := by
  have hnum := numbered_after_fresh limit before
  obtain ⟨-, -, hadv⟩ := after_advances hnum later
  exact ⟨(hadv path all).index_le, hnum.queryEntries_after_eq later⟩

end Store

end EngineCatalog.KeyValue
