import EngineCatalog.Proofs.Store.QueryIndex

/-!
# The keys of a store

A call brings into the store the keys that it creates, and no others (`contains_answer`). A
transaction is carried out as a whole or not at all, whatever keys it is about.
-/

namespace EngineCatalog.KeyValue

/-- The keys that a call creates, if it is accepted. -/
def Call.creates : Call → String → Prop
  | .put path _, key => isAbsolute path = true ∧ key = path
  | .transact changes, key =>
    (∀ change ∈ changes, isAbsolute change.key = true) ∧ ∃ value, .set key value ∈ changes
  | _, _ => False

namespace Store

variable {store : Store} {key : String}

theorem contains_set (store : Store) (path key : String) (value : Option Text.Bytes)
    (index : Nat) :
    (store.set path value index).entries.contains key
      = (decide (path = key) || store.entries.contains key) :=
  Dict.contains_insert _ _ _ _

theorem contains_of_contains_bury {keys : List String} {index : Nat}
    (h : (store.bury keys index).entries.contains key = true) :
    store.entries.contains key = true := by
  obtain ⟨stored, hfind⟩ := Dict.contains_iff.mp h
  rw [bury_eq, reap_entries, find?_entomb_entries] at hfind
  split at hfind
  · cases hfind
  · exact Dict.contains_of_find? hfind

theorem contains_of_contains_delete {path : String} {all : Bool}
    (h : (store.delete path all).entries.contains key = true) :
    store.entries.contains key = true := by
  rw [delete] at h
  split at h
  · exact h
  · have hbefore : store.advance.entries.contains key = true := contains_of_contains_bury h
    exact hbefore

/-- The changes of a transaction bring in the keys that they set. -/
theorem contains_foldl_change {index : Nat} {changes : List Change} {store : Store}
    (h : (changes.foldl (change index) store).entries.contains key = true) :
    store.entries.contains key = true ∨ ∃ value, Change.set key value ∈ changes := by
  induction changes generalizing store with
  | nil => exact .inl h
  | cons one rest ih =>
    rcases ih h with hbefore | ⟨value, hmem⟩
    · cases one with
      | set path value =>
        rw [change, contains_set, Bool.or_eq_true, decide_eq_true_iff] at hbefore
        rcases hbefore with rfl | hbefore
        · exact .inr ⟨value, List.mem_cons_self⟩
        · exact .inl hbefore
      | delete path => exact .inl (contains_of_contains_bury hbefore)
    · exact .inr ⟨value, List.mem_cons_of_mem _ hmem⟩

/-- Where all changes set keys, the keys are there afterwards. -/
theorem contains_foldl_set {index : Nat} {changes : List Change} {store : Store}
    (hsets : ∀ change ∈ changes, ∃ path value, change = .set path value)
    (h : store.entries.contains key = true ∨ ∃ value, Change.set key value ∈ changes) :
    (changes.foldl (change index) store).entries.contains key = true := by
  induction changes generalizing store with
  | nil =>
    rcases h with h | ⟨value, hmem⟩
    · exact h
    · cases hmem
  | cons one rest ih =>
    apply ih (fun change hchange => hsets change (List.mem_cons_of_mem _ hchange))
    obtain ⟨path, value, rfl⟩ := hsets one List.mem_cons_self
    rw [change, contains_set, Bool.or_eq_true, decide_eq_true_iff]
    rcases h with h | ⟨other, hmem⟩
    · exact .inl (.inr h)
    · rcases List.mem_cons.mp hmem with heq | hmem
      · obtain ⟨rfl, rfl⟩ := Change.set.inj heq
        exact .inl (.inl rfl)
      · exact .inr ⟨other, hmem⟩

theorem contains_settle_put (path : String) (value : Text.Bytes) :
    (store.settle (store.put path value)).2.entries.contains key = true
      ↔ store.entries.contains key = true ∨ (isAbsolute path = true ∧ key = path) := by
  rw [put, write]
  by_cases hpath : isAbsolute path = true
  · have hset : (store.settle (.ok (store.advance.set path (some value) (store.index + 1)))).2
        = store.advance.set path (some value) (store.index + 1) := rfl
    have hadvance : store.advance.entries = store.entries := rfl
    rw [if_pos hpath, hset, contains_set, hadvance, Bool.or_eq_true, decide_eq_true_iff]
    simp only [hpath, true_and, eq_comm, or_comm]
  · have hkeep : (store.settle (.error (invalidKey path))).2 = store := rfl
    rw [if_neg hpath, hkeep]
    simp only [hpath, false_and, or_false, Bool.false_eq_true]

/-- Transactions without bad keys are carried out. -/
theorem transact_of_absolute (store : Store) {changes : List Change}
    (h : ∀ change ∈ changes, isAbsolute change.key = true) :
    ∃ first, store.transact changes = .ok (changes.foldl (change (store.index + 1)) first) ∧
      first.entries = store.entries := by
  rw [transact]
  by_cases hnone : changes.isEmpty = true
  · rw [if_pos hnone, List.isEmpty_iff.mp hnone]
    exact ⟨store, rfl, rfl⟩
  · rw [if_neg hnone, (rejections_eq_nil_iff 0 changes).mpr h]
    exact ⟨store.advance, rfl, rfl⟩

/-- Transactions with a bad key are not. -/
theorem transact_of_not_absolute (store : Store) {changes : List Change}
    (h : ¬ ∀ change ∈ changes, isAbsolute change.key = true) :
    ∃ error, store.transact changes = .error error := by
  rw [transact]
  by_cases hnone : changes.isEmpty = true
  · rw [List.isEmpty_iff.mp hnone] at h
    exact absurd (fun _ hmem => absurd hmem List.not_mem_nil) h
  · rw [if_neg hnone]
    cases hrej : rejections 0 changes with
    | nil => exact absurd ((rejections_eq_nil_iff 0 changes).mp hrej) h
    | cons error errors => exact ⟨_, rfl⟩

/-- A transaction that only sets keys brings in all of them. -/
theorem contains_answer_transact {changes : List Change}
    (habsolute : ∀ change ∈ changes, isAbsolute change.key = true)
    (hsets : ∀ change ∈ changes, ∃ path value, change = .set path value)
    (hmem : ∃ value, Change.set key value ∈ changes) :
    (store.answer (.transact changes)).2.entries.contains key = true := by
  obtain ⟨first, htransact, -⟩ := store.transact_of_absolute habsolute
  rw [answer, htransact]
  exact contains_foldl_set hsets (.inr hmem)

/-- A call brings in only the keys that it creates. -/
theorem contains_answer {call : Call}
    (h : (store.answer call).2.entries.contains key = true) :
    store.entries.contains key = true ∨ call.creates key := by
  cases call with
  | read path all => exact .inl h
  | await path all since wait => exact .inl h
  | put path value => exact (contains_settle_put path value).mp h
  | delete path all => exact .inl (contains_of_contains_delete h)
  | transact changes =>
    rw [answer] at h
    by_cases hkeys : ∀ change ∈ changes, isAbsolute change.key = true
    · obtain ⟨first, htransact, hfirst⟩ := store.transact_of_absolute hkeys
      rw [htransact] at h
      rcases contains_foldl_change h with hbefore | hset
      · rw [hfirst] at hbefore
        exact .inl hbefore
      · exact .inr ⟨hkeys, hset⟩
    · obtain ⟨error, htransact⟩ := store.transact_of_not_absolute hkeys
      rw [htransact] at h
      exact .inl h
  | readMany paths => exact .inl h

end Store

end EngineCatalog.KeyValue
