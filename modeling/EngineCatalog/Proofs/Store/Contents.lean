import EngineCatalog.Proofs.Store.Keys

/-!
# What a store holds after a write

Apart from its indexes a store is a map from keys to values. A write that is accepted changes this
map key by key: what a key holds afterwards follows from the write and from what the key held before
(`stored?_perform`), and after any number of them (`stored?_after`); a key that the write is not
about holds what it held (`leaves_of_not_touches`).
-/

namespace EngineCatalog.KeyValue

open Text (Bytes)

/-- What a key holds after a change, given what it held before. A key that is there may have no
value. -/
def Change.leaves (key : String) (found : Option (Option Bytes)) : Change → Option (Option Bytes)
  | .set path value => if path = key then some (some value) else found
  | .delete path => if path = key then none else found

/-- Where all changes set keys to values, the last one that is about a key decides. -/
theorem Change.foldl_leaves_set_eq {α : Type} {key : String → String}
    (hkey : Function.Injective key) (bytes : α → Bytes) (entries : List (String × α))
    (name : String) (found : Option (Option Bytes)) :
    (entries.map fun entry => Change.set (key entry.1) (bytes entry.2)).foldl
        (Change.leaves (key name)) found
      = ((Sorted.find? name entries.reverse).map fun value => some (bytes value)).or found := by
  induction entries generalizing found with
  | nil => rfl
  | cons entry more ih =>
    rw [List.map_cons, List.foldl_cons, ih, List.reverse_cons, Sorted.find?_append, Option.map_or,
      Option.or_assoc]
    congr 1
    simp only [Change.leaves, hkey.eq_iff, Sorted.find?]
    split <;> rfl

/-- Where all changes set keys to the values of a dictionary, the keys hold afterwards what the
dictionary has after the values are put into it. -/
theorem Change.foldl_leaves_set {α : Type} {key : String → String} (hkey : Function.Injective key)
    (bytes : α → Bytes) (entries : List (String × α)) (dict : Dict α) (name : String) :
    (entries.map fun entry => Change.set (key entry.1) (bytes entry.2)).foldl
        (Change.leaves (key name)) ((dict.find? name).map fun value => some (bytes value))
      = ((dict.insertAll entries).find? name).map fun value => some (bytes value) := by
  rw [foldl_leaves_set_eq hkey, Dict.find?_insertAll, Option.map_or]

/-- Where all changes delete keys, the named ones hold nothing afterwards, and the others hold what
they held. -/
theorem Change.foldl_leaves_delete {key : String → String} (hkey : Function.Injective key)
    (names : List String) (name : String) (found : Option (Option Bytes)) :
    (names.map fun name => Change.delete (key name)).foldl (Change.leaves (key name)) found
      = if name ∈ names then none else found := by
  induction names generalizing found with
  | nil => rfl
  | cons first more ih =>
    rw [List.map_cons, List.foldl_cons, ih, Change.leaves]
    by_cases hfirst : first = name
    · simp [hfirst]
    · simp [hkey.eq_iff, hfirst, Ne.symm hfirst]

namespace Write

/-- The write is accepted: all keys that it sets can be written. -/
def IsAccepted : Write → Prop
  | .put key _ => isAbsolute key = true
  | .putEmpty key => isAbsolute key = true
  | .delete _ _ => True
  | .transact changes => ∀ change ∈ changes, isAbsolute change.key = true

/-- The write is about the key. -/
def Touches : Write → String → Prop
  | .put path _, key => path = key
  | .putEmpty path, key => path = key
  | .delete path all, key => Store.covers path all key = true
  | .transact changes, key => ∃ change ∈ changes, change.key = key

/-- What a key holds after an accepted write, given what it held before. -/
def leaves (key : String) (found : Option (Option Bytes)) : Write → Option (Option Bytes)
  | .put path value => if path = key then some (some value) else found
  | .putEmpty path => if path = key then some none else found
  | .delete path all => if Store.covers path all key = true then none else found
  | .transact changes => changes.foldl (Change.leaves key) found

/-- A key that a write is not about holds what it held. -/
theorem leaves_of_not_touches {write : Write} {key : String} (h : ¬ write.Touches key)
    (found : Option (Option Bytes)) : write.leaves key found = found := by
  cases write with
  | put path value => exact if_neg h
  | putEmpty path => exact if_neg h
  | delete path all => exact if_neg h
  | transact changes =>
    rw [Write.leaves]
    induction changes with
    | nil => rfl
    | cons change more ih =>
      have hchange : change.leaves key found = found := by
        have hne : change.key ≠ key := fun heq => h ⟨change, List.mem_cons_self, heq⟩
        cases change <;> exact if_neg hne
      rw [List.foldl_cons, hchange]
      exact ih fun ⟨other, hmem, heq⟩ => h ⟨other, List.mem_cons_of_mem _ hmem, heq⟩

end Write

namespace Store

variable {store : Store}

/-- What a store holds at a key, without the index of its last change. -/
def stored? (store : Store) (key : String) : Option (Option Bytes) :=
  (store.entries.find? key).map Stored.value

/-- What a query comes to is what is stored at the keys that it covers. -/
theorem stored?_of_mem_queryEntries {path : String} {all : Bool} {entry : Entry}
    (h : entry ∈ store.queryEntries path all) : store.stored? entry.key = some entry.value := by
  rw [stored?, (mem_queryEntries.mp h).2]
  rfl

theorem exists_mem_queryEntries {path : String} {all : Bool} {key : String}
    {value : Option Bytes} (hcovers : covers path all key = true)
    (h : store.stored? key = some value) :
    ∃ entry ∈ store.queryEntries path all, entry.key = key ∧ entry.value = value := by
  rw [stored?, Option.map_eq_some_iff] at h
  obtain ⟨stored, hfind, rfl⟩ := h
  exact ⟨⟨key, stored.value, stored.modified⟩, mem_queryEntries.mpr ⟨hcovers, hfind⟩, rfl, rfl⟩

theorem stored?_set (store : Store) (path : String) (value : Option Bytes) (index : Nat)
    (key : String) :
    (store.set path value index).stored? key
      = if path = key then some value else store.stored? key := by
  rw [stored?, Store.set, Dict.find?_insert]
  split <;> rfl

/-- A deletion takes away what it selects, and all else stays with the index of its last change. -/
theorem find?_bury_select (store : Store) (path : String) (all : Bool) (index : Nat)
    (key : String) :
    (store.bury ((select store.entries path all).map Prod.fst) index).entries.find? key
      = if covers path all key = true then none else store.entries.find? key := by
  rw [bury_eq, reap_entries, find?_entomb_entries]
  by_cases hcovers : covers path all key = true
  · rw [if_pos hcovers]
    split
    · rfl
    · -- what the query covers and does not select is not there
      rename_i hmem
      rw [Option.eq_none_iff_forall_ne_some]
      intro stored hfind
      exact hmem (List.mem_map_of_mem (mem_select.mpr ⟨hcovers, hfind⟩))
  · rw [if_neg hcovers, if_neg]
    rintro hmem
    obtain ⟨⟨k, stored⟩, hselect, rfl⟩ := List.mem_map.mp hmem
    exact hcovers (mem_select.mp hselect).1

/-- The same holds where nothing is selected, and the deletion is no write. -/
theorem find?_delete (store : Store) (path : String) (all : Bool) (key : String) :
    (store.delete path all).entries.find? key
      = if covers path all key = true then none else store.entries.find? key := by
  rw [Store.delete]
  split
  · rename_i hnone
    rw [← find?_bury_select store path all 0, List.isEmpty_iff.mp hnone, bury_eq, reap_entries,
      find?_entomb_entries, if_neg List.not_mem_nil]
  · exact find?_bury_select store.advance path all _ key

theorem stored?_change (store : Store) (index : Nat) (change : Change) (key : String) :
    (store.change index change).stored? key = change.leaves key (store.stored? key) := by
  cases change with
  | set path value => exact stored?_set store path (some value) index key
  | delete path =>
    rw [stored?, Store.change, find?_bury_select, Change.leaves]
    by_cases hpath : path = key
    · simp [covers, hpath]
    · simp [covers, hpath, Ne.symm hpath, stored?]

theorem stored?_foldl_change (store : Store) (index : Nat) (changes : List Change)
    (key : String) :
    (changes.foldl (Store.change index) store).stored? key
      = changes.foldl (Change.leaves key) (store.stored? key) := by
  induction changes generalizing store with
  | nil => rfl
  | cons change more ih => rw [List.foldl_cons, List.foldl_cons, ih, stored?_change]

theorem stored?_delete (store : Store) (path : String) (all : Bool) (key : String) :
    (store.delete path all).stored? key
      = if covers path all key = true then none else store.stored? key := by
  rw [stored?, find?_delete]
  split <;> rfl

/-- **What a key holds after a write.** An accepted write says so, and a key holds afterwards what
the write makes of what it held before. -/
theorem stored?_perform {write : Write} (h : write.IsAccepted) :
    (store.perform write).1 = .ok () ∧
      ∀ key, (store.perform write).2.stored? key = write.leaves key (store.stored? key) := by
  cases write with
  | put path value =>
    have hkey : isAbsolute path = true := h
    rw [perform, put, Store.write, if_pos hkey]
    exact ⟨rfl, stored?_set store.advance path (some value) _⟩
  | putEmpty path =>
    have hkey : isAbsolute path = true := h
    rw [perform, putEmpty, Store.write, if_pos hkey]
    exact ⟨rfl, stored?_set store.advance path none _⟩
  | delete path all => exact ⟨rfl, stored?_delete store path all⟩
  | transact changes =>
    obtain ⟨first, htransact, hentries⟩ := store.transact_of_absolute h
    rw [perform, htransact]
    refine ⟨rfl, fun key => ?_⟩
    have hfirst : first.stored? key = store.stored? key := by rw [stored?, hentries, stored?]
    rw [Write.leaves, ← hfirst]
    exact stored?_foldl_change first _ changes key

/-- A write says that it is done, or changes nothing. -/
theorem done_or_same (store : Store) (write : Write) :
    (store.perform write).1 = .ok () ∨
      ∃ error, (store.perform write).1 = .error error ∧ (store.perform write).2 = store := by
  have hsettle : ∀ outcome : Outcome Store, (store.settle outcome).1 = .ok () ∨
      ∃ error, (store.settle outcome).1 = .error error ∧ (store.settle outcome).2 = store := by
    intro outcome
    cases outcome with
    | ok after => exact .inl rfl
    | error error => exact .inr ⟨error, rfl, rfl⟩
  cases write with
  | put path value => exact hsettle _
  | putEmpty path => exact hsettle _
  | delete path all => exact .inl rfl
  | transact changes => exact hsettle _

/-- A write that is not accepted fails. -/
theorem perform_of_not_isAccepted {write : Write} (h : ¬ write.IsAccepted) :
    ∃ error, (store.perform write).1 = .error error := by
  cases write with
  | put path value =>
    have hkey : ¬ isAbsolute path = true := h
    rw [perform, put, Store.write, if_neg hkey]
    exact ⟨_, rfl⟩
  | putEmpty path =>
    have hkey : ¬ isAbsolute path = true := h
    rw [perform, putEmpty, Store.write, if_neg hkey]
    exact ⟨_, rfl⟩
  | delete path all => exact absurd trivial h
  | transact changes =>
    obtain ⟨error, htransact⟩ := store.transact_of_not_absolute h
    rw [perform, htransact]
    exact ⟨error, rfl⟩

/-- A write that says that it is done was accepted. -/
theorem isAccepted_of_perform {write : Write} (h : (store.perform write).1 = .ok ()) :
    write.IsAccepted := by
  by_contra hrefused
  obtain ⟨error, herror⟩ := store.perform_of_not_isAccepted hrefused
  rw [h] at herror
  cases herror

/-- A write that is not accepted fails, and changes nothing. -/
theorem perform_eq_of_not_isAccepted (store : Store) {write : Write} (h : ¬ write.IsAccepted) :
    ∃ error, store.perform write = (.error error, store) := by
  rcases store.done_or_same write with hdone | ⟨error, herror, hsame⟩
  · exact absurd (isAccepted_of_perform hdone) h
  · exact ⟨error, Prod.ext herror hsame⟩

/-- A key that a write is not about holds what it held, whether the write is accepted or not. -/
theorem stored?_perform_of_not_touches {write : Write} {key : String} (h : ¬ write.Touches key) :
    (store.perform write).2.stored? key = store.stored? key := by
  rcases store.done_or_same write with hdone | ⟨error, -, hsame⟩
  · rw [(stored?_perform (isAccepted_of_perform hdone)).2, Write.leaves_of_not_touches h]
  · rw [hsame]

/-- What a key holds after accepted writes follows from what each of them leaves there. -/
theorem stored?_after {writes : List Write} (h : ∀ write ∈ writes, write.IsAccepted)
    (store : Store) (key : String) :
    (store.after writes).stored? key
      = writes.foldl (fun found write => write.leaves key found) (store.stored? key) := by
  induction writes generalizing store with
  | nil => rfl
  | cons write more ih =>
    obtain ⟨hfirst, hmore⟩ := List.forall_mem_cons.mp h
    rw [List.foldl_cons, ← (stored?_perform hfirst).2 key]
    exact ih hmore _

end Store

end EngineCatalog.KeyValue
