import EngineCatalog.Proofs.Text.Order
import EngineCatalog.Proofs.Store.Contents
import Mathlib.Order.Bounds.Defs

/-!
# The keys that a path stands for

What is stored below a path is found by a walk through the keys in their order: from the path
upwards, for as long as the keys start with it. Main statement: in the order of bytes this walk
meets the keys whose bytes start with those of the path, all of them, each once and in order; so
these are the keys that a query of the path answers with, that its deletion takes away, and whose
tombstones its index counts (`Store.walk_meets_range`).

* `IsRange` — the entries of a dictionary whose keys start with a part, in the order of bytes.
* `Store.lastBurial?` — the highest index of a tombstone at a key or below a path.
-/

namespace EngineCatalog

open Text (encode)

variable {α : Type}

/-! ## The order of bytes -/

/-- The keys ascend by their bytes. -/
def AscendsByBytes (entries : List (String × α)) : Prop :=
  (Sorted.keys entries).Pairwise fun one other => encode one < encode other

theorem ascending_iff_ascendsByBytes {entries : List (String × α)} :
    Sorted.Ascending entries ↔ AscendsByBytes entries := by
  simp only [Sorted.Ascending, AscendsByBytes, Text.encode_lt_encode_iff]

/-- The walk from a part upwards goes by the bytes of the keys. -/
theorem Sorted.underPrefix_eq_bytes (part : String) (entries : List (String × α)) :
    Sorted.underPrefix part entries
      = (entries.dropWhile fun entry => encode entry.1 < encode part).takeWhile
          fun entry => (encode part).isPrefixOf (encode entry.1) := by
  have hstart : ∀ key, startsWith part key = (encode part).isPrefixOf (encode key) := fun key =>
    Bool.eq_iff_iff.mpr (Text.startsWith_iff_encode.trans List.isPrefixOf_iff_prefix.symm)
  simp only [Sorted.underPrefix, hstart, Text.encode_lt_encode_iff]

/-! ## What starts with a part -/

/-- The entries are those of the dictionary whose keys start with the part, byte by byte, in the
order of the bytes of their keys. So each is there once. -/
structure IsRange (part : String) (dict : Dict α) (entries : List (String × α)) : Prop where
  /-- no other entries are there, and none is missing -/
  mem_iff : ∀ {key value}, (key, value) ∈ entries ↔
    encode part <+: encode key ∧ dict.find? key = some value
  /-- they are in order -/
  ascends : AscendsByBytes entries

theorem isRange_underPrefix (part : String) (dict : Dict α) :
    IsRange part dict (dict.underPrefix part) := by
  rw [Dict.underPrefix_eq_filter]
  refine ⟨?_, ascending_iff_ascendsByBytes.mp (Sorted.ascending_filter dict.ascending)⟩
  intro key value
  rw [List.mem_filter, Dict.mem_entries_iff, Text.startsWith_iff_encode, and_comm]

/-- Keys beside a path are not below it, and one that is the path itself is. -/
example :
    ((Names.ofList ["/b", "/aé", "/a/é", "/a", "/a/", "/a/b"]).underPrefix "/a/").map Prod.fst
      = ["/a/", "/a/b", "/a/é"] := by decide

/-! ## What a store does with a path -/

namespace KeyValue

/-- The highest number is not lost where that of the second part stands for the whole part. -/
theorem max?_append_max? (front back : List Nat) :
    (front ++ back).max? = (front ++ back.max?.toList).max? := by
  cases hback : back.max? with
  | none =>
    rw [List.max?_eq_none_iff.mp hback]
    rfl
  | some top =>
    obtain ⟨hmem, hle⟩ := List.max?_eq_some_iff.mp hback
    apply Option.ext
    intro index
    simp only [List.max?_eq_some_iff, List.mem_append, Option.mem_toList, Option.some.injEq]
    constructor
    · rintro ⟨hindex, hall⟩
      have htop := hall top (.inr hmem)
      refine ⟨hindex.imp_right fun hin => Nat.le_antisymm htop (hle index hin), ?_⟩
      rintro i (hi | rfl)
      · exact hall i (.inl hi)
      · exact htop
    · rintro ⟨hindex, hall⟩
      refine ⟨?_, ?_⟩
      · rcases hindex with hin | rfl
        · exact .inl hin
        · exact .inr hmem
      rintro i (hi | hi)
      · exact hall i (.inl hi)
      · exact Nat.le_trans (hle i hi) (hall top (.inr rfl))

namespace Store

theorem covers_all_iff {path key : String} :
    covers path true key = true ↔ encode path <+: encode key := by
  rw [covers, if_pos rfl, Text.startsWith_iff_encode]

/-- The highest index of a tombstone at a key or below a path. -/
def lastBurial? (store : Store) (path : String) (all : Bool) : Option Nat :=
  ((select store.tombstones path all).map Prod.snd).max?

/-- What a store does with a path is about the keys that start with it, byte by byte. -/
structure GoesByRange (store : Store) (part : String) : Prop where
  /-- a query answers with these keys -/
  query : IsRange part store.entries ((store.queryEntries part true).map fun entry =>
    (entry.key, ⟨entry.value, entry.modified⟩))
  /-- a deletion buries these keys, and is no write where there are none -/
  delete : ∃ removed, IsRange part store.entries removed ∧
    store.delete part true = if removed.isEmpty then store
      else store.advance.bury (removed.map Prod.fst) (store.index + 1)
  /-- after it none of them is there, and all others are as they were -/
  find?_delete : ∀ key, (store.delete part true).entries.find? key
    = if encode part <+: encode key then none else store.entries.find? key
  /-- the highest index of a tombstone is that among these keys -/
  lastBurial? : ∀ index, store.lastBurial? part true = some index ↔
    IsGreatest {i | ∃ key, encode part <+: encode key ∧ store.tombstones.find? key = some i} index
  /-- it is this one that the index of a query counts -/
  changeIndexes : (store.changeIndexes part true).max?
    = ((store.queryEntries part true).map Entry.modified
        ++ (store.lastBurial? part true).toList).max?

theorem goesByRange (store : Store) (part : String) : store.GoesByRange part where
  query := by
    have hsame : ((store.queryEntries part true).map fun entry =>
        (entry.key, (⟨entry.value, entry.modified⟩ : Stored)))
          = store.entries.underPrefix part := by
      rw [queryEntries, List.map_map]
      exact List.map_id _
    rw [hsame]
    exact isRange_underPrefix part store.entries
  delete := by
    refine ⟨_, isRange_underPrefix part store.entries, ?_⟩
    rw [Store.delete, select, if_pos rfl, List.isEmpty_map]
  find?_delete := fun key => by
    simp only [Store.find?_delete, covers_all_iff]
  lastBurial? := fun index => by
    have hmem : ∀ i, i ∈ (select store.tombstones part true).map Prod.snd ↔
        ∃ key, encode part <+: encode key ∧ store.tombstones.find? key = some i := by
      intro i
      simp only [List.mem_map, Prod.exists, mem_select, covers_all_iff]
      constructor
      · rintro ⟨key, _, hkey, rfl⟩
        exact ⟨key, hkey⟩
      · rintro ⟨key, hkey⟩
        exact ⟨key, i, hkey, rfl⟩
    rw [Store.lastBurial?, List.max?_eq_some_iff, hmem]
    exact and_congr_right fun _ => forall_congr' fun i => imp_congr_left (hmem i)
  changeIndexes := by
    have hfound : (store.queryEntries part true).map Entry.modified
        = (select store.entries part true).map fun entry => entry.2.modified := by
      rw [queryEntries, List.map_map]
      rfl
    rw [Store.changeIndexes, hfound, max?_append_max?]
    rfl

/-- **The walk meets the range.** For all dictionaries, whose keys are in the order of their bytes,
the walk from a part upwards goes by bytes, and meets the entries whose keys start with the part,
each once and in order. So queries, deletions and the index of the last tombstone below a path are
about these keys, in every store. -/
theorem walk_meets_range (part : String) :
    (∀ {α : Type} (entries : List (String × α)),
      Sorted.Ascending entries ↔ AscendsByBytes entries) ∧
    (∀ {α : Type} (dict : Dict α), IsRange part dict (dict.underPrefix part) ∧
      dict.underPrefix part
        = (dict.entries.dropWhile fun entry => encode entry.1 < encode part).takeWhile
            fun entry => (encode part).isPrefixOf (encode entry.1)) ∧
    ∀ store : Store, store.GoesByRange part :=
  ⟨fun _ => ascending_iff_ascendsByBytes,
    fun dict => ⟨isRange_underPrefix part dict, Sorted.underPrefix_eq_bytes part dict.entries⟩,
    fun store => store.goesByRange part⟩

end Store

end KeyValue

end EngineCatalog
