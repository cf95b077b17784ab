import EngineCatalog.Dict
import Mathlib.Data.List.Basic

/-!
# Looking up in dictionaries

Every operation on a dictionary is described by what a lookup finds afterwards. Since the keys
ascend, a lookup finds exactly what is among the entries (`Dict.mem_entries_iff`), and dictionaries
with the same lookups are the same (`Dict.ext_find?`).
-/

namespace EngineCatalog

variable {α β : Type}

/-! ## Lists of entries -/

namespace Sorted

theorem mem_of_find?_eq_some {key : String} {value : α} {entries : List (String × α)}
    (h : find? key entries = some value) : (key, value) ∈ entries := by
  induction entries with
  | nil => simp [find?] at h
  | cons entry rest ih =>
    obtain ⟨k, v⟩ := entry
    rw [find?] at h
    by_cases hk : k = key
    · rw [if_pos hk] at h
      obtain rfl := Option.some.inj h
      rw [hk]
      exact List.mem_cons_self
    · rw [if_neg hk] at h
      exact List.mem_cons_of_mem _ (ih h)

theorem mem_keys_of_mem {entry : String × α} {entries : List (String × α)} (h : entry ∈ entries) :
    entry.1 ∈ keys entries :=
  List.mem_map_of_mem h

/-- In ascending entries a lookup finds every one of them: no two have the same key. -/
theorem find?_eq_some_of_mem {key : String} {value : α} {entries : List (String × α)}
    (hasc : Ascending entries) (h : (key, value) ∈ entries) : find? key entries = some value := by
  induction entries with
  | nil => cases h
  | cons entry rest ih =>
    obtain ⟨k, v⟩ := entry
    obtain ⟨hlt, hrest⟩ := List.pairwise_cons.mp hasc
    rw [find?]
    rcases List.mem_cons.mp h with heq | hmem
    · obtain ⟨rfl, rfl⟩ := Prod.mk.inj heq
      rw [if_pos rfl]
    · have hne : k ≠ key := by
        rintro rfl
        exact String.lt_irrefl k (hlt k (mem_keys_of_mem hmem))
      rw [if_neg hne]
      exact ih hrest hmem

theorem find?_eq_some_iff {key : String} {value : α} {entries : List (String × α)}
    (hasc : Ascending entries) : find? key entries = some value ↔ (key, value) ∈ entries :=
  ⟨mem_of_find?_eq_some, find?_eq_some_of_mem hasc⟩

theorem find?_insert (key k : String) (value : α) (entries : List (String × α)) :
    find? k (insert key value entries) = if key = k then some value else find? k entries := by
  induction entries with
  | nil => rfl
  | cons entry rest ih =>
    obtain ⟨k', v'⟩ := entry
    rw [insert]
    by_cases hlt : key < k'
    · rw [if_pos hlt, find?]
    · rw [if_neg hlt]
      by_cases heq : key = k'
      · subst heq
        rw [if_pos rfl, find?, find?]
        split <;> rfl
      · rw [if_neg heq, find?, find?, ih]
        by_cases hk : k' = k
        · rw [if_pos hk, if_pos hk, if_neg fun h => heq (h.trans hk.symm)]
        · rw [if_neg hk, if_neg hk]

theorem find?_append (key : String) (front back : List (String × α)) :
    find? key (front ++ back) = (find? key front).or (find? key back) := by
  induction front with
  | nil => rfl
  | cons entry rest ih =>
    obtain ⟨k, v⟩ := entry
    rw [List.cons_append, find?, find?, ih]
    split <;> rfl

theorem find?_isSome_iff {key : String} {entries : List (String × α)} :
    (find? key entries).isSome ↔ key ∈ keys entries := by
  induction entries with
  | nil => simp [find?, keys]
  | cons entry rest ih =>
    obtain ⟨k, v⟩ := entry
    rw [find?]
    by_cases hk : k = key
    · simp [hk, keys]
    · rw [if_neg hk, ih]
      simp [keys, Ne.symm hk]

/-- One entry alone is found under its key. -/
theorem find?_toList_eq_some_iff {entry : Option (String × α)} {key : String} {value : α} :
    find? key entry.toList = some value ↔ entry = some (key, value) := by
  cases entry with
  | none => simp [find?]
  | some entry =>
    obtain ⟨k, v⟩ := entry
    simp [find?]

theorem find?_eq_none_iff {key : String} {entries : List (String × α)} :
    find? key entries = none ↔ ∀ value, (key, value) ∉ entries := by
  rw [← Option.not_isSome_iff_eq_none, find?_isSome_iff, keys, List.mem_map]
  constructor
  · intro h value hmem
    exact h ⟨(key, value), hmem, rfl⟩
  · rintro h ⟨⟨k, value⟩, hmem, rfl⟩
    exact h value hmem

/-- Where entries are made of a list in turn, a lookup from behind finds the last one that has the
key. -/
theorem find?_reverse_filterMap_eq_some_iff {make : β → Option (String × α)} {items : List β}
    {key : String} {value : α} :
    find? key (items.filterMap make).reverse = some value
      ↔ ∃ front item back, items = front ++ item :: back ∧ make item = some (key, value) ∧
        ∀ later ∈ back, ∀ other, make later ≠ some (key, other) := by
  have hnone : ∀ back : List β, find? key (back.filterMap make).reverse = none
      ↔ ∀ later ∈ back, ∀ other, make later ≠ some (key, other) := by
    intro back
    simp only [find?_eq_none_iff, List.mem_reverse, List.mem_filterMap, not_exists, not_and]
    exact ⟨fun h later hlater other => h other later hlater,
      fun h other later hlater => h later hlater other⟩
  induction items with
  | nil => simp [find?]
  | cons first more ih =>
    have hsplit : find? key ((first :: more).filterMap make).reverse
        = (find? key (more.filterMap make).reverse).or (find? key (make first).toList) := by
      rw [List.filterMap_cons]
      cases make first with
      | none => simp [find?]
      | some entry => simp [find?_append]
    rw [hsplit, Option.or_eq_some_iff, hnone, find?_toList_eq_some_iff]
    constructor
    · rintro (hmore | ⟨hmore, hfirst⟩)
      · obtain ⟨front, item, back, rfl, hitem⟩ := ih.mp hmore
        exact ⟨first :: front, item, back, rfl, hitem⟩
      · exact ⟨[], first, more, rfl, hfirst, hmore⟩
    · rintro ⟨front, item, back, hitems, hitem, hback⟩
      cases front with
      | nil =>
        obtain ⟨rfl, rfl⟩ := List.cons_eq_cons.mp hitems
        exact .inr ⟨hback, hitem⟩
      | cons head front =>
        obtain ⟨rfl, rfl⟩ := List.cons_eq_cons.mp hitems
        exact .inl (ih.mpr ⟨front, item, back, rfl, hitem, hback⟩)

/-- A key above all others is put at the end. -/
theorem insert_of_lt {key : String} {value : α} {entries : List (String × α)}
    (h : ∀ k ∈ keys entries, k < key) : insert key value entries = entries ++ [(key, value)] := by
  induction entries with
  | nil => rfl
  | cons entry rest ih =>
    obtain ⟨k, v⟩ := entry
    have hlt : k < key := h k List.mem_cons_self
    have hne : key ≠ k := by
      rintro rfl
      exact String.lt_irrefl _ hlt
    rw [insert, if_neg (String.lt_asymm hlt), if_neg hne,
      ih fun k' hk' => h k' (List.mem_cons_of_mem _ hk'), List.cons_append]

/-- Entries that ascend are put in one behind the other. -/
theorem foldl_insert {front back : List (String × α)} (h : Ascending (front ++ back)) :
    back.foldl (fun entries entry => insert entry.1 entry.2 entries) front = front ++ back := by
  induction back generalizing front with
  | nil => simp
  | cons entry rest ih =>
    have hlt : ∀ k ∈ keys front, k < entry.1 := by
      intro k hk
      rw [Ascending, keys, List.map_append] at h
      exact (List.pairwise_append.mp h).2.2 k hk entry.1 List.mem_cons_self
    have happend : front ++ entry :: rest = (front ++ [entry]) ++ rest := by simp
    rw [List.foldl_cons, insert_of_lt hlt, happend]
    exact ih (happend ▸ h)

end Sorted

/-! ## Dictionaries -/

namespace Dict

theorem entries_insertAll (dict : Dict α) (entries : List (String × α)) :
    (dict.insertAll entries).entries
      = entries.foldl (fun all entry => Sorted.insert entry.1 entry.2 all) dict.entries := by
  induction entries generalizing dict with
  | nil => rfl
  | cons entry rest ih => exact ih (dict.insert entry.1 entry.2)

/-- A dictionary is that of its entries. -/
theorem ofList_entries (dict : Dict α) : ofList dict.entries = dict := by
  apply ext_entries
  rw [ofList, entries_insertAll]
  exact Sorted.foldl_insert dict.ascending

/-- What a lookup finds is what is among the entries. -/
theorem mem_entries_iff {dict : Dict α} {key : String} {value : α} :
    (key, value) ∈ dict.entries ↔ dict.find? key = some value :=
  (Sorted.find?_eq_some_iff dict.ascending).symm

theorem mem_keys_iff {dict : Dict α} {key : String} :
    key ∈ dict.keys ↔ dict.contains key = true :=
  Sorted.find?_isSome_iff.symm

/-- No two entries have the same key. -/
theorem nodup_keys (dict : Dict α) : dict.keys.Nodup := by
  refine List.Pairwise.imp ?_ dict.ascending
  rintro key other hlt rfl
  exact String.lt_irrefl key hlt

theorem contains_iff {dict : Dict α} {key : String} :
    dict.contains key = true ↔ ∃ value, dict.find? key = some value :=
  Option.isSome_iff_exists

theorem contains_of_find? {dict : Dict α} {key : String} {value : α}
    (h : dict.find? key = some value) : dict.contains key = true :=
  contains_iff.mpr ⟨value, h⟩

theorem not_isEmpty_of_contains {dict : Dict α} {key : String} (h : dict.contains key = true) :
    ¬ dict.isEmpty = true := by
  intro hnone
  rw [isEmpty, List.isEmpty_iff] at hnone
  rw [← mem_keys_iff, keys, hnone] at h
  cases h

theorem isEmpty_iff {dict : Dict α} :
    dict.isEmpty = true ↔ ∀ key, dict.contains key = false := by
  constructor
  · intro h key
    rw [← Bool.not_eq_true]
    intro hkey
    exact not_isEmpty_of_contains hkey h
  · intro h
    refine List.isEmpty_iff.mpr (List.eq_nil_iff_forall_not_mem.mpr ?_)
    rintro ⟨key, value⟩ hentry
    have hkey := contains_of_find? (mem_entries_iff.mp hentry)
    rw [h key] at hkey
    cases hkey

@[simp] theorem find?_empty (key : String) : (empty : Dict α).find? key = none := rfl

@[simp] theorem contains_empty (key : String) : (empty : Dict α).contains key = false := rfl

theorem find?_insert (dict : Dict α) (key k : String) (value : α) :
    (dict.insert key value).find? k = if key = k then some value else dict.find? k :=
  Sorted.find?_insert key k value dict.entries

@[simp] theorem find?_insert_self (dict : Dict α) (key : String) (value : α) :
    (dict.insert key value).find? key = some value := by
  rw [find?_insert, if_pos rfl]

theorem find?_insert_ne {dict : Dict α} {key k : String} {value : α} (h : key ≠ k) :
    (dict.insert key value).find? k = dict.find? k := by
  rw [find?_insert, if_neg h]

theorem contains_insert (dict : Dict α) (key k : String) (value : α) :
    (dict.insert key value).contains k = (decide (key = k) || dict.contains k) := by
  rw [contains, find?_insert]
  by_cases h : key = k <;> simp [h, contains]

/-- A filter keeps what a lookup finds if the condition holds of it. -/
theorem find?_filter (dict : Dict α) (keep : String → α → Bool) (key : String) :
    (dict.filter keep).find? key = (dict.find? key).filter (keep key) := by
  apply Option.ext
  intro value
  rw [← mem_entries_iff, filter, List.mem_filter, mem_entries_iff, Option.filter_eq_some_iff]

/-- A filter that looks at keys alone keeps those that it likes. -/
theorem contains_filter (dict : Dict α) (keep : String → Bool) (key : String) :
    (dict.filter fun key _ => keep key).contains key = (dict.contains key && keep key) := by
  rw [contains, find?_filter, contains]
  cases dict.find? key with
  | none => rfl
  | some value => cases keep key <;> simp [Option.filter]

theorem find?_eraseAll (dict : Dict α) (keys : List String) (key : String) :
    (dict.eraseAll keys).find? key = if key ∈ keys then none else dict.find? key := by
  rw [eraseAll, find?_filter]
  by_cases h : key ∈ keys
  · simp [h]
  · rw [if_neg h]
    cases dict.find? key <;> simp [Option.filter, h]

theorem find?_erase (dict : Dict α) (key k : String) :
    (dict.erase key).find? k = if key = k then none else dict.find? k := by
  have heq : dict.erase key = dict.eraseAll [key] := by
    apply ext_entries
    simp [erase, eraseAll, filter, Sorted.erase]
  rw [heq, find?_eraseAll]
  by_cases h : key = k
  · rw [if_pos h, if_pos (List.mem_singleton.mpr h.symm)]
  · rw [if_neg h, if_neg fun hm => h (List.mem_singleton.mp hm).symm]

theorem find?_map (dict : Dict α) (f : String → α → β) (key : String) :
    (dict.map f).find? key = (dict.find? key).map (f key) := by
  apply Option.ext
  intro value
  rw [← mem_entries_iff, map, List.mem_map, Option.map_eq_some_iff]
  constructor
  · rintro ⟨⟨k, v⟩, hmem, heq⟩
    obtain ⟨rfl, rfl⟩ := Prod.mk.inj heq
    exact ⟨v, mem_entries_iff.mp hmem, rfl⟩
  · rintro ⟨v, hv, rfl⟩
    exact ⟨(key, v), mem_entries_iff.mpr hv, rfl⟩

@[simp] theorem contains_map (dict : Dict α) (f : String → α → β) (key : String) :
    (dict.map f).contains key = dict.contains key := by
  rw [contains, find?_map, Option.isSome_map, contains]

/-- Of two entries at one key the later one counts. -/
theorem find?_insertAll (dict : Dict α) (entries : List (String × α)) (key : String) :
    (dict.insertAll entries).find? key
      = (Sorted.find? key entries.reverse).or (dict.find? key) := by
  induction entries generalizing dict with
  | nil => rfl
  | cons entry rest ih =>
    obtain ⟨k, v⟩ := entry
    have hstep : dict.insertAll ((k, v) :: rest) = (dict.insert k v).insertAll rest := rfl
    rw [hstep, ih, find?_insert, List.reverse_cons, Sorted.find?_append, Option.or_assoc]
    congr 1
    rw [Sorted.find?, Sorted.find?]
    split <;> rfl

/-- Putting one value at several keys. -/
theorem find?_insertAll_const (dict : Dict α) (keys : List String) (value : α) (key : String) :
    (dict.insertAll (keys.map fun k => (k, value))).find? key
      = if key ∈ keys then some value else dict.find? key := by
  induction keys generalizing dict with
  | nil => rfl
  | cons k rest ih =>
    have hstep : dict.insertAll ((k :: rest).map fun k => (k, value))
        = (dict.insert k value).insertAll (rest.map fun k => (k, value)) := rfl
    rw [hstep, ih, find?_insert]
    by_cases hrest : key ∈ rest
    · rw [if_pos hrest, if_pos (List.mem_cons_of_mem _ hrest)]
    · rw [if_neg hrest]
      by_cases hk : k = key
      · rw [if_pos hk, if_pos (hk ▸ List.mem_cons_self)]
      · rw [if_neg hk, if_neg]
        rintro hmem
        rcases List.mem_cons.mp hmem with h | h
        · exact hk h.symm
        · exact hrest h

theorem contains_insertAll {dict : Dict α} {entries : List (String × α)} {key : String} :
    (dict.insertAll entries).contains key = true
      ↔ key ∈ Sorted.keys entries ∨ dict.contains key = true := by
  rw [contains, find?_insertAll, Option.isSome_or, Bool.or_eq_true, Sorted.find?_isSome_iff]
  simp [Sorted.keys, contains]

theorem contains_ofList {entries : List (String × α)} {key : String} :
    (ofList entries).contains key = true ↔ key ∈ Sorted.keys entries := by
  rw [ofList, contains_insertAll]
  simp

theorem contains_union {dict other : Dict α} {key : String} :
    (dict.union other).contains key = true
      ↔ other.contains key = true ∨ dict.contains key = true := by
  have hkeys : key ∈ Sorted.keys other.entries ↔ other.contains key = true := mem_keys_iff
  rw [union, contains_insertAll, hkeys]

/-- No two entries of a dictionary have the same key, and so their order does not matter. -/
theorem find?_entries_reverse (dict : Dict α) (key : String) :
    Sorted.find? key dict.entries.reverse = dict.find? key := by
  have h := find?_insertAll empty dict.entries key
  rw [find?_empty, Option.or_none] at h
  rw [← h]
  exact congrArg (find? · key) (ofList_entries dict)

theorem find?_union (dict other : Dict α) (key : String) :
    (dict.union other).find? key = (other.find? key).or (dict.find? key) := by
  rw [union, find?_insertAll, find?_entries_reverse]

/-- Two dictionaries in which every lookup finds the same are the same. -/
theorem ext_find? {a b : Dict α} (h : ∀ key, a.find? key = b.find? key) : a = b := by
  apply ext_entries
  have hmem : ∀ entry : String × α, entry ∈ a.entries ↔ entry ∈ b.entries := by
    rintro ⟨key, value⟩
    rw [mem_entries_iff, mem_entries_iff, h]
  have hpair : ∀ dict : Dict α, dict.entries.Pairwise fun x y => x.1 < y.1 := fun dict =>
    List.pairwise_map.mp dict.ascending
  have hnodup : ∀ dict : Dict α, dict.entries.Nodup := by
    intro dict
    refine (hpair dict).imp ?_
    rintro x y hlt rfl
    exact String.lt_irrefl _ hlt
  -- lists in one order with the same members are the same
  refine List.Perm.eq_of_pairwise ?_ (hpair a) (hpair b)
    ((List.perm_ext_iff_of_nodup (hnodup a) (hnodup b)).mpr hmem)
  intro x y _ _ hxy hyx
  exact absurd hyx (String.lt_asymm hxy)

/-- Where entries are those of a function, in whatever order and number, lookups follow it. -/
theorem find?_ofList_of_mem_iff {found : String → Option α} {entries : List (String × α)}
    (h : ∀ key value, (key, value) ∈ entries ↔ found key = some value) (key : String) :
    (ofList entries).find? key = found key := by
  rw [ofList, find?_insertAll, find?_empty, Option.or_none]
  apply Option.ext
  intro value
  constructor
  · intro hfind
    exact (h key value).mp (List.mem_reverse.mp (Sorted.mem_of_find?_eq_some hfind))
  · intro hvalue
    have hmem := List.mem_reverse.mpr ((h key value).mpr hvalue)
    obtain ⟨other, hother⟩ := Option.isSome_iff_exists.mp
      (Sorted.find?_isSome_iff.mpr (Sorted.mem_keys_of_mem hmem))
    have hsame := (h key other).mp (List.mem_reverse.mp (Sorted.mem_of_find?_eq_some hother))
    rw [hother, ← hsame, hvalue]

/-- A dictionary is that of any entries that are its own. -/
theorem ofList_eq_of_mem_iff {dict : Dict α} {entries : List (String × α)}
    (h : ∀ key value, (key, value) ∈ entries ↔ dict.find? key = some value) :
    ofList entries = dict :=
  ext_find? (find?_ofList_of_mem_iff h)

end Dict

/-! ## Sets of names -/

namespace Names

@[simp] theorem contains_ofKeys (dict : Dict α) (key : String) :
    (ofKeys dict).contains key = dict.contains key :=
  Dict.contains_map dict _ key

end Names

end EngineCatalog
