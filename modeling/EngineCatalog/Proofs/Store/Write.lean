import EngineCatalog.KeyValue.Store
import EngineCatalog.Proofs.Dict.Lookup
import EngineCatalog.Proofs.Dict.Prefix
import Mathlib.Data.List.Basic

/-!
# Runs of writes

`Write` lists the writes of a store in memory, `Store.perform` makes one, accepted or not, and
`Store.after` makes several. What a write can do is said once: it leaves the store as it is, or it
moves the index on and then sets and buries keys at the new index (`perform_cases`). What holds
along every run is proved from that.
-/

namespace EngineCatalog.KeyValue

open Text (Bytes)

/-- A write of a store in memory. -/
inductive Write where
  /-- sets a key to a value -/
  | put (key : String) (value : Bytes)
  /-- sets a key without a value -/
  | putEmpty (key : String)
  /-- deletes a key, or all keys that start with a path -/
  | delete (path : String) (all : Bool)
  /-- applies changes, all or none -/
  | transact (changes : List Change)
  deriving DecidableEq

namespace Store

/-- Makes a write: its outcome and the store after it. -/
def perform (store : Store) : Write → Outcome Unit × Store
  | .put key value => store.settle (store.put key value)
  | .putEmpty key => store.settle (store.putEmpty key)
  | .delete path all => (.ok (), store.delete path all)
  | .transact changes => store.settle (store.transact changes)

/-- The store after writes one after the other, accepted or not. -/
def after (store : Store) (writes : List Write) : Store :=
  writes.foldl (fun store write => (store.perform write).2) store

/-! ## What a write can do -/

theorem rejections_eq_nil_iff (place : Nat) (changes : List Change) :
    rejections place changes = [] ↔ ∀ change ∈ changes, isAbsolute change.key = true := by
  induction changes generalizing place with
  | nil => simp [rejections]
  | cons change rest ih =>
    rw [rejections]
    by_cases h : isAbsolute change.key = true
    · rw [if_pos h, ih]
      simp [h]
    · simp [h]

/-- The keys that a deletion takes away are there. -/
theorem contains_of_mem_select {α : Type} {dict : Dict α} {path key : String} {all : Bool}
    (h : key ∈ (select dict path all).map Prod.fst) : dict.contains key = true := by
  obtain ⟨⟨k, value⟩, hmem, rfl⟩ := List.mem_map.mp h
  cases all with
  | true =>
    rw [select, if_pos rfl, Dict.underPrefix_eq_filter] at hmem
    exact Dict.contains_of_find? (Dict.mem_entries_iff.mp (List.mem_filter.mp hmem).1)
  | false =>
    rw [select, if_neg Bool.false_ne_true, Option.mem_toList, Option.map_eq_some_iff] at hmem
    obtain ⟨v, hv, heq⟩ := hmem
    obtain ⟨rfl, -⟩ := Prod.mk.inj heq
    exact Dict.contains_of_find? hv

section Perform

variable {store : Store} {P : Store → Prop}

/-- What setting and burying at an index keep, the changes of a transaction keep. -/
theorem foldl_change {index : Nat} {changes : List Change}
    (hkeys : ∀ change ∈ changes, isAbsolute change.key = true)
    (hset : ∀ t key value, isAbsolute key = true → P t → P (t.set key value index))
    (hbury : ∀ t keys, (∀ key ∈ keys, t.entries.contains key = true) → P t →
      P (t.bury keys index)) {t : Store} (ht : P t) :
    P (changes.foldl (change index) t) := by
  induction changes generalizing t with
  | nil => exact ht
  | cons one rest ih =>
    rw [List.foldl_cons]
    apply ih (fun c hc => hkeys c (List.mem_cons_of_mem _ hc))
    have hkey := hkeys one List.mem_cons_self
    cases one with
    | set key value => exact hset t key (some value) hkey ht
    | delete key => exact hbury t _ (fun k hk => contains_of_mem_select hk) ht

/-- A write leaves the store as it is, or moves the index on and then sets and buries keys at the
new index. -/
theorem perform_cases (write : Write) (hadvance : P store.advance)
    (hset : ∀ t key value, isAbsolute key = true → P t → P (t.set key value (store.index + 1)))
    (hbury : ∀ t keys, (∀ key ∈ keys, t.entries.contains key = true) → P t →
      P (t.bury keys (store.index + 1))) :
    (store.perform write).2 = store ∨ P (store.perform write).2 := by
  have hwrite : ∀ key value, (store.settle (store.write key value)).2 = store
      ∨ P (store.settle (store.write key value)).2 := by
    intro key value
    rw [Store.write]
    by_cases hkey : isAbsolute key = true
    · rw [if_pos hkey]
      exact .inr (hset _ key value hkey hadvance)
    · rw [if_neg hkey]
      exact .inl rfl
  cases write with
  | put key value => exact hwrite key (some value)
  | putEmpty key => exact hwrite key none
  | delete path all =>
    rw [perform, delete]
    by_cases hnone : ((select store.entries path all).map Prod.fst).isEmpty = true
    · rw [if_pos hnone]
      exact .inl rfl
    · rw [if_neg hnone]
      exact .inr (hbury _ _ (fun key hkey => contains_of_mem_select hkey) hadvance)
  | transact changes =>
    rw [perform, transact]
    by_cases hnone : changes.isEmpty = true
    · rw [if_pos hnone]
      exact .inl rfl
    · rw [if_neg hnone]
      cases hrej : rejections 0 changes with
      | nil => exact .inr (foldl_change ((rejections_eq_nil_iff 0 changes).mp hrej) hset hbury
          hadvance)
      | cons error errors => exact .inl rfl

end Perform

/-! ## What burying does -/

@[simp] theorem reap_entries (store : Store) : store.reap.entries = store.entries := by
  rw [reap]
  split <;> rfl

@[simp] theorem reap_index (store : Store) : store.reap.index = store.index := by
  rw [reap]
  split <;> rfl

theorem foldl_max_le_iff {bound start : Nat} {indexes : List Nat} :
    indexes.foldl max start ≤ bound ↔ start ≤ bound ∧ ∀ index ∈ indexes, index ≤ bound := by
  have hmax : (start :: indexes).max? = some (indexes.foldl max start) := List.max?_cons'
  rw [List.max?_le_iff hmax]
  simp

/-- A tombstone that is gone leaves its index behind; the others stay. -/
theorem find?_reap_tombstones {store : Store} {key : String} {index : Nat}
    (h : store.tombstones.find? key = some index) :
    store.reap.tombstones.find? key = some index ∨ index ≤ store.reap.reaped := by
  rw [reap]
  by_cases hfew : store.tombstones.size ≤ store.limit
  · rw [if_pos hfew]
    exact .inl h
  · rw [if_neg hfew]
    set gone := store.byAge.take (store.tombstones.size - (store.limit - store.limit / 4)) with hg
    by_cases hgone : key ∈ gone.map Prod.fst
    · -- its index is among those whose maximum is left behind
      refine .inr ((foldl_max_le_iff.mp (Nat.le_refl _)).2 index ?_)
      obtain ⟨⟨k, i⟩, hmem, rfl⟩ := List.mem_map.mp hgone
      have hentry : (k, i) ∈ store.tombstones.entries :=
        List.mem_mergeSort.mp (List.mem_of_mem_take hmem)
      obtain rfl := Option.some.inj ((Dict.mem_entries_iff.mp hentry).symm.trans h)
      exact List.mem_map_of_mem hmem
    · left
      rw [Dict.find?_eraseAll, if_neg hgone]
      exact h

/-- Reaping adds no tombstone. -/
theorem find?_of_find?_reap {store : Store} {key : String} {index : Nat}
    (h : store.reap.tombstones.find? key = some index) :
    store.tombstones.find? key = some index := by
  rw [reap] at h
  split at h
  · exact h
  · rw [Dict.find?_eraseAll] at h
    split at h
    · cases h
    · exact h

/-- The index that is left behind rises, but to no more than the indexes of tombstones. -/
theorem reap_reaped_le_iff {store : Store} {bound : Nat}
    (hbound : ∀ key index, store.tombstones.find? key = some index → index ≤ bound) :
    store.reap.reaped ≤ bound ↔ store.reaped ≤ bound := by
  rw [reap]
  split
  · rfl
  · rw [foldl_max_le_iff]
    refine ⟨And.left, fun h => ⟨h, fun index hindex => ?_⟩⟩
    obtain ⟨⟨k, i⟩, hmem, rfl⟩ := List.mem_map.mp hindex
    exact hbound k i (Dict.mem_entries_iff.mp
      (List.mem_mergeSort.mp (List.mem_of_mem_take hmem)))

theorem reaped_le_reap (store : Store) : store.reaped ≤ store.reap.reaped := by
  rw [reap]
  split
  · exact Nat.le_refl _
  · exact (foldl_max_le_iff.mp (Nat.le_refl _)).1

end Store

end EngineCatalog.KeyValue
