import EngineCatalog.Proofs.Store.Consistency
import EngineCatalog.Proofs.Store.Contents
import Mathlib.Data.List.Induction

/-!
# What a transaction comes to

A transaction is carried out as a whole or not at all. If it is, it comes to the same as its changes
one after the other, made to the keys with their values and to nothing else: tombstones that come
and go on the way do not show. Main statement: `transact_as_one`.

* `Store.contents` — the keys with their values; `Change.apply` — a change of them.
* `Change.last?` — the last change about a key, which decides what is stored there.
* `Change.complaints` — what is said about the changes whose keys cannot be written.
-/

namespace EngineCatalog.KeyValue

open Text (Bytes)

instance (text : String) : Decidable (IsKey text) :=
  decidable_of_iff (isAbsolute text = true) isAbsolute_iff

/-! ## Changes of keys and values -/

namespace Change

/-- The keys with their values after a change. -/
def apply (contents : Dict (Option Bytes)) : Change → Dict (Option Bytes)
  | .set key value => contents.insert key (some value)
  | .delete key => contents.erase key

/-- The last change about a key. -/
def last? (key : String) (changes : List Change) : Option Change :=
  changes.reverse.find? fun change => change.key = key

/-- What is stored at the key of a change made at an index. -/
def stores (index : Nat) : Change → Option Stored
  | .set _ value => some ⟨some value, index⟩
  | .delete _ => none

/-- The messages for the changes whose keys cannot be written, each with the place of its change in
the list. -/
def complaints (changes : List Change) : List String :=
  (changes.zipIdx.filter fun placed => ¬ IsKey placed.1.key).map fun placed =>
    s!"op {placed.2}: invalid key {Text.quote placed.1.key}"

theorem find?_apply (contents : Dict (Option Bytes)) (change : Change) (key : String) :
    (change.apply contents).find? key = change.leaves key (contents.find? key) := by
  cases change with
  | set path value => exact Dict.find?_insert _ _ _ _
  | delete path => exact Dict.find?_erase _ _ _

theorem find?_foldl_apply (contents : Dict (Option Bytes)) (changes : List Change) (key : String) :
    (changes.foldl apply contents).find? key
      = changes.foldl (Change.leaves key) (contents.find? key) := by
  induction changes generalizing contents with
  | nil => rfl
  | cons change more ih => rw [List.foldl_cons, List.foldl_cons, ih, find?_apply]

theorem last?_concat (key : String) (changes : List Change) (change : Change) :
    last? key (changes ++ [change])
      = if change.key = key then some change else last? key changes := by
  rw [last?, List.reverse_concat, List.find?_cons]
  by_cases hkey : change.key = key
  · simp [hkey]
  · simp [hkey, last?]

end Change

namespace Store

/-- The keys with their values. -/
def contents (store : Store) : Dict (Option Bytes) :=
  store.entries.map fun _ stored => stored.value

theorem find?_contents (store : Store) (key : String) :
    store.contents.find? key = store.stored? key :=
  Dict.find?_map _ _ _

/-! ## Changes at one index -/

@[simp] theorem change_index (index : Nat) (store : Store) (change : Change) :
    (store.change index change).index = store.index := by
  cases change with
  | set path value => rfl
  | delete path => exact reap_index _

@[simp] theorem foldl_change_index (index : Nat) (changes : List Change) (store : Store) :
    (changes.foldl (Store.change index) store).index = store.index := by
  induction changes generalizing store with
  | nil => rfl
  | cons change more ih => rw [List.foldl_cons, ih, change_index]

/-- A change made at an index decides what is stored at its key, and only there. -/
theorem find?_change (index : Nat) (store : Store) (change : Change) (key : String) :
    (store.change index change).entries.find? key
      = if change.key = key then change.stores index else store.entries.find? key := by
  cases change with
  | set path value => exact Dict.find?_insert _ _ _ _
  | delete path =>
    rw [Store.change, find?_bury_select, Change.key, Change.stores]
    by_cases hkey : path = key
    · simp [covers, hkey]
    · simp [covers, hkey, Ne.symm hkey]

/-- The last change about a key decides what is stored there. -/
theorem find?_foldl_change (index : Nat) (changes : List Change) (store : Store) (key : String) :
    (changes.foldl (Store.change index) store).entries.find? key
      = match Change.last? key changes with
        | none => store.entries.find? key
        | some change => change.stores index := by
  induction changes using List.reverseRecOn with
  | nil => rfl
  | append_singleton changes change ih =>
    rw [List.foldl_concat, find?_change, Change.last?_concat]
    split
    · rfl
    · exact ih

/-! ## Transactions -/

theorem rejections_eq (place : Nat) (changes : List Change) :
    rejections place changes
      = ((changes.zipIdx place).filter fun placed => ¬ IsKey placed.1.key).map fun placed =>
          s!"op {placed.2}: invalid key {Text.quote placed.1.key}" := by
  induction changes generalizing place with
  | nil => rfl
  | cons change more ih =>
    rw [rejections, List.zipIdx_cons, List.filter_cons, ih]
    by_cases hkey : isAbsolute change.key = true
    · simp [hkey, isAbsolute_iff.mp hkey]
    · simp [hkey, mt isAbsolute_iff.mpr hkey]

theorem transact_rejected (store : Store) {changes : List Change}
    (h : ∃ change ∈ changes, ¬ IsKey change.key) :
    store.transact changes = .error (.rejected (Change.complaints changes)) := by
  obtain ⟨change, hmem, hkey⟩ := h
  have hsome : rejections 0 changes ≠ [] := fun hnone =>
    hkey (isAbsolute_iff.mp ((rejections_eq_nil_iff 0 changes).mp hnone change hmem))
  have hcomplaints : rejections 0 changes = Change.complaints changes := rejections_eq 0 changes
  rw [transact, if_neg (by simpa using List.ne_nil_of_mem hmem), ← hcomplaints]
  cases hrej : rejections 0 changes with
  | nil => exact absurd hrej hsome
  | cons error errors => rfl

theorem transact_accepted (store : Store) {changes : List Change}
    (h : ∀ change ∈ changes, IsKey change.key) :
    store.transact changes = .ok (changes.foldl (Store.change (store.index + 1))
      (if changes = [] then store else store.advance)) := by
  have hnone : rejections 0 changes = [] :=
    (rejections_eq_nil_iff 0 changes).mpr fun change hmem => isAbsolute_iff.mpr (h change hmem)
  rw [transact, hnone]
  cases changes with
  | nil => rfl
  | cons change more => rfl

/-- **A transaction is carried out as one.** If a key cannot be written, it is rejected with one
message for each such key, in the order of the list, and the store stays as it is. Otherwise it is
carried out: its changes, if there are any, move the index on by one; the keys and their values are
those after the changes one after the other; a key that was set last has the new index, one that was
deleted last is not there, and one that no change is about has kept its value and its index. Where
there are no changes, the store stays as it is. -/
theorem transact_as_one (store : Store) (changes : List Change) :
    ((∃ change ∈ changes, ¬ IsKey change.key) →
      store.perform (.transact changes) = (.error (.rejected (Change.complaints changes)), store)) ∧
    ((∀ change ∈ changes, IsKey change.key) →
      ∃ after, store.perform (.transact changes) = (.ok (), after) ∧
        after.index = store.index + (if changes = [] then 0 else 1) ∧
        after.contents = changes.foldl Change.apply store.contents ∧
        ∀ key, after.entries.find? key = match Change.last? key changes with
          | some (.set _ value) => some ⟨some value, after.index⟩
          | some (.delete _) => none
          | none => store.entries.find? key) ∧
    (changes = [] → store.perform (.transact changes) = (.ok (), store)) := by
  refine ⟨fun hbad => ?_, fun hkeys => ?_, fun hnone => ?_⟩
  · rw [perform, transact_rejected store hbad]
    rfl
  · -- the changes start from the store with its index moved on, if there are any
    set first := if changes = [] then store else store.advance with hfirst
    have hindex : first.index = store.index + (if changes = [] then 0 else 1) := by
      rw [hfirst]
      split <;> rfl
    have hentries : first.entries = store.entries := by
      rw [hfirst]
      split <;> rfl
    refine ⟨changes.foldl (Store.change (store.index + 1)) first, ?_, ?_, ?_, fun key => ?_⟩
    · rw [perform, transact_accepted store hkeys]
      rfl
    · rw [foldl_change_index, hindex]
    · apply Dict.ext_find?
      intro key
      rw [find?_contents, stored?_foldl_change, Change.find?_foldl_apply, find?_contents, stored?,
        hentries, stored?]
    · rw [find?_foldl_change, foldl_change_index, hentries]
      cases hlast : Change.last? key changes with
      | none => rfl
      | some change =>
        have hsome : changes ≠ [] := by
          rintro rfl
          cases hlast
        rw [hindex, if_neg hsome]
        cases change <;> rfl
  · rw [hnone]
    rfl

end Store

end EngineCatalog.KeyValue
