import EngineCatalog.Proofs.Store.QueryIndex

/-!
# What holds of every store

However a store in memory came about, its indexes, keys and tombstones fit together
(`Store.Consistent`), and its index never falls. Main statement: this holds after every run of
writes, accepted or not (`Store.consistent_after`).

Deleting is the only write that makes tombstones. A deletion may make more of them than the store
keeps, and its reaping takes the oldest away at once; so no tombstone that is left is older than one
that is gone, and there are never too many.
-/

namespace EngineCatalog

/-- A text that can be a key: it starts with a slash, is longer than this one byte, and does not end
with a slash. -/
structure IsKey (text : String) : Prop where
  /-- it starts with a slash -/
  front : text.toList.head? = some '/'
  /-- it is longer than one byte -/
  long : 1 < text.utf8ByteSize
  /-- it does not end with a slash -/
  back : text.toList.getLast? ≠ some '/'

/-- After the slash that a text starts with, as many bytes follow as the rest has. -/
theorem utf8ByteSize_slash {text : String} {rest : List Char} (h : text.toList = '/' :: rest) :
    text.utf8ByteSize = 1 + (String.ofList rest).utf8ByteSize := by
  have htext : text = "/" ++ String.ofList rest := by
    apply String.toList_inj.mp
    simp [h]
  rw [htext, String.utf8ByteSize_append]
  rfl

theorem isAbsolute_iff {text : String} : isAbsolute text = true ↔ IsKey text := by
  rw [isAbsolute]
  constructor
  · intro h
    split at h
    · rename_i c rest hlist
      have hrest : (String.ofList (c :: rest)).utf8ByteSize ≠ 0 := by
        rw [Ne, String.utf8ByteSize_eq_zero_iff, ← String.toList_inj, String.toList_ofList]
        exact List.cons_ne_nil c rest
      refine ⟨by rw [hlist]; rfl, ?_, ?_⟩
      · rw [utf8ByteSize_slash hlist]
        omega
      · rw [hlist, List.getLast?_cons_cons]
        simpa using h
    · cases h
  · rintro ⟨hfront, hlong, hback⟩
    obtain ⟨rest, hlist⟩ : ∃ rest, text.toList = '/' :: rest := List.head?_eq_some_iff.mp hfront
    cases rest with
    | nil =>
      rw [utf8ByteSize_slash hlist] at hlong
      exact absurd hlong (Nat.lt_irrefl 1)
    | cons c rest =>
      rw [hlist, List.getLast?_cons_cons] at hback
      rw [hlist]
      simpa using hback

namespace Dict

variable {α : Type}

theorem size_erase_le (dict : Dict α) (key : String) : (dict.erase key).size ≤ dict.size :=
  List.length_filter_le _ _

end Dict

namespace KeyValue

open Text (Bytes)

namespace Store

variable {store : Store} {limit : Nat}

/-! ## Reaping -/

theorem perm_byAge (store : Store) : store.byAge.Perm store.tombstones.entries :=
  List.mergeSort_perm _ _

/-- By age, no tombstone is older than one before it. -/
theorem pairwise_byAge (store : Store) : store.byAge.Pairwise fun one other => one.2 ≤ other.2 := by
  have hsorted : store.byAge.Pairwise fun a b => decide (a.2 ≤ b.2) = true := by
    refine List.pairwise_mergeSort (fun a b c hab hbc => ?_) (fun a b => ?_) _
    · simp only [decide_eq_true_eq] at *
      omega
    · simp only [Bool.or_eq_true, decide_eq_true_eq]
      omega
  exact hsorted.imp fun h => of_decide_eq_true h

/-- The store keeps no more tombstones than its limit. -/
theorem size_reap_le (store : Store) : store.reap.tombstones.size ≤ store.limit := by
  rw [reap]
  split
  · assumption
  · set count := store.tombstones.size - (store.limit - store.limit / 4) with hcount
    let keep : String × Nat → Bool := fun one =>
      !((store.byAge.take count).map Prod.fst).contains one.1
    -- what is gone comes first by age, and only what comes after it can be left
    have hgone : (store.byAge.take count).filter keep = [] := by
      refine List.filter_eq_nil_iff.mpr fun one hone => ?_
      have hmem : one.1 ∈ (store.byAge.take count).map Prod.fst := List.mem_map_of_mem hone
      simpa [keep] using hmem
    have hlength : store.byAge.length = store.tombstones.size := (perm_byAge store).length_eq
    calc (store.tombstones.entries.filter keep).length
        = (store.byAge.filter keep).length := ((perm_byAge store).filter keep).length_eq.symm
      _ = ((store.byAge.drop count).filter keep).length := by
        conv_lhs => rw [← List.take_append_drop count store.byAge, List.filter_append, hgone]
        rfl
      _ ≤ (store.byAge.drop count).length := List.length_filter_le _ _
      _ = store.tombstones.size - count := by rw [List.length_drop, hlength]
      _ ≤ store.limit := by omega

/-- What is gone was no younger than what is left. -/
theorem reap_reaped_le {key : String} {index : Nat}
    (hreaped : ∀ {key index}, store.tombstones.find? key = some index → store.reaped ≤ index)
    (hfind : store.reap.tombstones.find? key = some index) : store.reap.reaped ≤ index := by
  have hbefore := find?_of_find?_reap hfind
  have hle := hreaped hbefore
  rw [reap] at hfind ⊢
  split at hfind
  · rename_i hfew
    rw [if_pos hfew]
    exact hle
  · rename_i hmany
    rw [if_neg hmany]
    refine foldl_max_le_iff.mpr ⟨hle, fun other hother => ?_⟩
    obtain ⟨gone, hgone, rfl⟩ := List.mem_map.mp hother
    -- the tombstone that is left stands behind all that are gone
    have hmem : (key, index) ∈ store.byAge :=
      (perm_byAge store).mem_iff.mpr (Dict.mem_entries_iff.mpr hbefore)
    set count := store.tombstones.size - (store.limit - store.limit / 4)
    rw [← List.take_append_drop count store.byAge, List.mem_append] at hmem
    rcases hmem with hmem | hmem
    · rw [Dict.find?_eraseAll, if_pos (List.mem_map_of_mem hmem)] at hfind
      cases hfind
    · have hsorted := pairwise_byAge store
      rw [← List.take_append_drop count store.byAge, List.pairwise_append] at hsorted
      exact hsorted.2.2 gone hgone (key, index) hmem

@[simp] theorem reap_limit (store : Store) : store.reap.limit = store.limit := by
  rw [reap]
  split <;> rfl

/-! ## The invariant -/

/-- The indexes, keys and tombstones of a store fit together. It was made to keep `limit`
tombstones. -/
structure Consistent (limit : Nat) (store : Store) : Prop where
  /-- index 0 is left for those who have seen nothing -/
  index_pos : 1 ≤ store.index
  /-- what is stored has a key, and an index from those of writes -/
  entries : ∀ {key stored}, store.entries.find? key = some stored →
    IsKey key ∧ 2 ≤ stored.modified ∧ stored.modified ≤ store.index
  /-- the index of a tombstone is one of those, too -/
  tombstones : ∀ {key index}, store.tombstones.find? key = some index →
    2 ≤ index ∧ index ≤ store.index
  /-- no key has an entry and a tombstone -/
  apart : ∀ {key}, store.entries.contains key = true → store.tombstones.contains key = false
  /-- no tombstone that is gone is younger than one that is left -/
  reaped : ∀ {key index}, store.tombstones.find? key = some index → store.reaped ≤ index
  /-- nor is it later than the store -/
  reaped_le : store.reaped ≤ store.index
  /-- one tombstone at least can be kept -/
  limit_eq : store.limit = max limit 1
  /-- no more tombstones are there than can be kept -/
  size_le : store.tombstones.size ≤ max limit 1

theorem consistent_fresh (limit : Nat) : Consistent limit (fresh limit) where
  index_pos := Nat.le_refl 1
  entries := nofun
  tombstones := nofun
  apart := nofun
  reaped := nofun
  reaped_le := Nat.zero_le 1
  limit_eq := rfl
  size_le := Nat.zero_le _

namespace Consistent

theorem advance (h : Consistent limit store) : Consistent limit store.advance where
  index_pos := Nat.le_add_left 1 store.index
  entries := fun hfind =>
    ⟨(h.entries hfind).1, (h.entries hfind).2.1, Nat.le_succ_of_le (h.entries hfind).2.2⟩
  tombstones := fun hfind =>
    ⟨(h.tombstones hfind).1, Nat.le_succ_of_le (h.tombstones hfind).2⟩
  apart := h.apart
  reaped := h.reaped
  reaped_le := Nat.le_succ_of_le h.reaped_le
  limit_eq := h.limit_eq
  size_le := h.size_le

/-- Setting a key takes its tombstone away. -/
theorem set (h : Consistent limit store) (hindex : 2 ≤ store.index) {key : String}
    (hkey : IsKey key) (value : Option Bytes) : Consistent limit (store.set key value store.index) := by
  have hleft : ∀ {k index}, (store.tombstones.erase key).find? k = some index →
      key ≠ k ∧ store.tombstones.find? k = some index := by
    intro k index hfind
    rw [Dict.find?_erase] at hfind
    split at hfind
    · cases hfind
    · rename_i hne
      exact ⟨hne, hfind⟩
  refine ⟨h.index_pos, ?_, fun hfind => h.tombstones (hleft hfind).2, ?_,
    fun hfind => h.reaped (hleft hfind).2, h.reaped_le, h.limit_eq,
    Nat.le_trans (Dict.size_erase_le _ _) h.size_le⟩
  · intro k stored hfind
    rw [Store.set, Dict.find?_insert] at hfind
    split at hfind
    · rename_i heq
      obtain rfl := Option.some.inj hfind
      exact ⟨heq ▸ hkey, hindex, Nat.le_refl _⟩
    · exact h.entries hfind
  · intro k hcontains
    rw [← Bool.not_eq_true]
    intro hburied
    obtain ⟨index, hfind⟩ := Dict.contains_iff.mp hburied
    obtain ⟨hne, hfind⟩ := hleft hfind
    have hbefore : store.entries.contains k = true := by
      rw [Store.set, Dict.contains_insert, decide_eq_false hne, Bool.false_or] at hcontains
      exact hcontains
    have hnone := h.apart hbefore
    rw [Dict.contains_of_find? hfind] at hnone
    cases hnone

/-- Where keys are buried, no store has more tombstones than it keeps. -/
theorem bury (h : Consistent limit store) (hindex : 2 ≤ store.index) (keys : List String) :
    Consistent limit (store.bury keys store.index) := by
  -- what is said of tombstones holds before the reaping, but for their number
  have hnew : ∀ {k index}, (store.entomb keys store.index).tombstones.find? k = some index →
      index = store.index ∨ store.tombstones.find? k = some index := by
    intro k index hfind
    rw [find?_entomb_tombstones] at hfind
    split at hfind
    · exact .inl (Option.some.inj hfind).symm
    · exact .inr hfind
  have hbounds : ∀ {k index}, (store.entomb keys store.index).tombstones.find? k = some index →
      (2 ≤ index ∧ index ≤ store.index) ∧ store.reaped ≤ index := by
    intro k index hfind
    rcases hnew hfind with rfl | hold
    · exact ⟨⟨hindex, Nat.le_refl _⟩, h.reaped_le⟩
    · exact ⟨h.tombstones hold, h.reaped hold⟩
  rw [bury_eq]
  refine ⟨?_, ?_, ?_, ?_, ?_, ?_, ?_, ?_⟩
  · rw [reap_index]
    exact h.index_pos
  · intro k stored hfind
    rw [reap_entries, find?_entomb_entries] at hfind
    rw [reap_index]
    split at hfind
    · cases hfind
    · exact h.entries hfind
  · intro k index hfind
    rw [reap_index]
    exact (hbounds (find?_of_find?_reap hfind)).1
  · intro k hcontains
    obtain ⟨stored, hstored⟩ := Dict.contains_iff.mp hcontains
    rw [reap_entries, find?_entomb_entries] at hstored
    rw [← Bool.not_eq_true]
    intro hburied
    obtain ⟨index, hfind⟩ := Dict.contains_iff.mp hburied
    have hbefore := find?_of_find?_reap hfind
    rw [find?_entomb_tombstones] at hbefore
    split at hstored
    · cases hstored
    · rename_i hout
      rw [if_neg hout] at hbefore
      have hnone := h.apart (Dict.contains_of_find? hstored)
      rw [Dict.contains_of_find? hbefore] at hnone
      cases hnone
  · exact reap_reaped_le fun hfind => (hbounds hfind).2
  · rw [reap_index]
    exact (reap_reaped_le_iff fun _ _ hfind => (hbounds hfind).1.2).mpr h.reaped_le
  · rw [reap_limit]
    exact h.limit_eq
  · exact Nat.le_trans (size_reap_le _) (Nat.le_of_eq h.limit_eq)

/-- What one write keeps, whether it is accepted or not; and the index does not fall. -/
theorem perform (h : Consistent limit store) (write : Write) :
    Consistent limit (store.perform write).2 ∧ store.index ≤ (store.perform write).2.index := by
  -- within a write that changes something, the index is the next one
  let P : Store → Prop := fun t => Consistent limit t ∧ t.index = store.index + 1
  have hindex : 2 ≤ store.index + 1 := Nat.succ_le_succ h.index_pos
  have hset : ∀ t key value, isAbsolute key = true → P t →
      P (t.set key value (store.index + 1)) := by
    rintro t key value hkey ⟨hconsistent, heq⟩
    rw [← heq] at hindex ⊢
    exact ⟨hconsistent.set hindex (isAbsolute_iff.mp hkey) value, heq⟩
  have hbury : ∀ t keys, (∀ key ∈ keys, t.entries.contains key = true) → P t →
      P (t.bury keys (store.index + 1)) := by
    rintro t keys - ⟨hconsistent, heq⟩
    rw [← heq] at hindex ⊢
    refine ⟨hconsistent.bury hindex keys, ?_⟩
    rw [bury_eq, reap_index]
    exact heq
  rcases perform_cases write (P := P) ⟨h.advance, rfl⟩ hset hbury with hsame | ⟨hconsistent, heq⟩
  · rw [hsame]
    exact ⟨h, Nat.le_refl _⟩
  · exact ⟨hconsistent, by omega⟩

/-- The same along a run of writes. -/
theorem after (h : Consistent limit store) (writes : List Write) :
    Consistent limit (store.after writes) ∧ store.index ≤ (store.after writes).index := by
  induction writes generalizing store with
  | nil => exact ⟨h, Nat.le_refl _⟩
  | cons write more ih =>
    obtain ⟨hconsistent, hle⟩ := h.perform write
    obtain ⟨hlast, hle'⟩ := ih hconsistent
    exact ⟨hlast, Nat.le_trans hle hle'⟩

end Consistent

/-- **Every store is consistent.** This holds of every store that writes have led to, whatever they
were and whether they were accepted or not, and along every further run of writes its index does not
fall. -/
theorem consistent_after (limit : Nat) (before later : List Write) :
    Consistent limit ((fresh limit).after before) ∧
      ((fresh limit).after before).index ≤ (((fresh limit).after before).after later).index := by
  have hconsistent := ((consistent_fresh limit).after before).1
  exact ⟨hconsistent, (hconsistent.after later).2⟩

end Store

end KeyValue

end EngineCatalog
