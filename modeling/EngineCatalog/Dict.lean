/-!
# Dictionaries in key order

A dictionary keeps its entries in ascending order of their keys. Keys are texts, and their order is
the order of their characters' numbers, which is also the order of their UTF-8 bytes.

* `Sorted` — the operations on a list of entries: looking up, putting, taking out, and the walk
  `underPrefix` from a key upwards through the keys that start with it.
* `Dict` — such a list together with the fact that its keys ascend; every operation keeps it.

A set of names is a dictionary without values (`Names`).
-/

namespace EngineCatalog

variable {α β : Type}

/-! ## Starting parts of texts -/

/-- The text starts with the given part. -/
def startsWith (part text : String) : Bool :=
  part.toList.isPrefixOf text.toList

/-- The characters after a starting part, if they start with it. -/
def dropStart? : List Char → List Char → Option (List Char)
  | [], cs => some cs
  | _ :: _, [] => none
  | p :: part, c :: cs => if p = c then dropStart? part cs else none

/-! ## Lists of entries -/

namespace Sorted

/-- The keys of some entries. -/
def keys (entries : List (String × α)) : List String :=
  entries.map Prod.fst

/-- The keys ascend. -/
def Ascending (entries : List (String × α)) : Prop :=
  (keys entries).Pairwise (· < ·)

/-- The value at a key. -/
def find? (key : String) : List (String × α) → Option α
  | [] => none
  | (k, v) :: rest => if k = key then some v else find? key rest

/-- The entries with one more, or with another value at a key they have. -/
def insert (key : String) (value : α) : List (String × α) → List (String × α)
  | [] => [(key, value)]
  | (k, v) :: rest =>
    if key < k then (key, value) :: (k, v) :: rest
    else if key = k then (key, value) :: rest
    else (k, v) :: insert key value rest

/-- The entries without the one at a key. -/
def erase (key : String) (entries : List (String × α)) : List (String × α) :=
  entries.filter fun entry => entry.1 ≠ key

/-- The walk from a key upwards for as long as the keys start with it. -/
def underPrefix (part : String) (entries : List (String × α)) : List (String × α) :=
  (entries.dropWhile fun entry => entry.1 < part).takeWhile fun entry => startsWith part entry.1

theorem mem_keys_insert {key k : String} {value : α} {entries : List (String × α)} :
    k ∈ keys (insert key value entries) → k = key ∨ k ∈ keys entries := by
  induction entries with
  | nil => simp [insert, keys]
  | cons entry rest ih =>
    obtain ⟨k', v'⟩ := entry
    simp only [insert, keys] at ih ⊢
    split
    · simp
    · split
      · rename_i heq
        simp [heq]
      · simp only [List.map_cons, List.mem_cons]
        rintro (h | h)
        · exact .inr (.inl h)
        · rcases ih h with h' | h'
          · exact .inl h'
          · exact .inr (.inr h')

theorem ascending_insert {key : String} {value : α} {entries : List (String × α)}
    (h : Ascending entries) : Ascending (insert key value entries) := by
  induction entries with
  | nil => simp [insert, Ascending, keys]
  | cons entry rest ih =>
    obtain ⟨k', v'⟩ := entry
    simp only [Ascending, keys, List.map_cons, List.pairwise_cons] at h ih ⊢
    simp only [insert]
    split
    · rename_i hlt
      simp only [List.map_cons, List.pairwise_cons, List.mem_cons]
      refine ⟨?_, h.1, h.2⟩
      rintro k (rfl | hk)
      · exact hlt
      · exact String.lt_trans hlt (h.1 k hk)
    · split
      · rename_i heq
        subst heq
        simpa using h
      · rename_i hlt hne
        simp only [List.map_cons, List.pairwise_cons]
        refine ⟨fun k hk => ?_, ih h.2⟩
        rcases mem_keys_insert hk with rfl | hk'
        · have := String.not_lt.mp hlt
          grind
        · exact h.1 k hk'

theorem ascending_filter {p : String × α → Bool} {entries : List (String × α)}
    (h : Ascending entries) : Ascending (entries.filter p) :=
  List.Pairwise.sublist (List.Sublist.map _ List.filter_sublist) h

theorem ascending_map {f : String → α → β} {entries : List (String × α)} (h : Ascending entries) :
    Ascending (entries.map fun entry => (entry.1, f entry.1 entry.2)) := by
  simpa [Ascending, keys, Function.comp_def] using h

end Sorted

/-! ## Dictionaries -/

/-- Entries in ascending order of their keys. -/
structure Dict (α : Type) where
  /-- the entries, in order -/
  entries : List (String × α)
  /-- the keys ascend -/
  ascending : Sorted.Ascending entries

namespace Dict

/-- Two dictionaries with the same entries are the same. -/
theorem ext_entries {a b : Dict α} (h : a.entries = b.entries) : a = b := by
  cases a
  cases b
  cases h
  rfl

instance [DecidableEq α] : DecidableEq (Dict α) := fun a b =>
  decidable_of_iff (a.entries = b.entries) ⟨ext_entries, fun h => h ▸ rfl⟩

instance [BEq α] : BEq (Dict α) := ⟨fun a b => a.entries == b.entries⟩

/-- The dictionary without entries. -/
def empty : Dict α := ⟨[], List.Pairwise.nil⟩

instance : Inhabited (Dict α) := ⟨empty⟩

/-- The value at a key. -/
def find? (dict : Dict α) (key : String) : Option α :=
  Sorted.find? key dict.entries

/-- There is an entry at the key. -/
def contains (dict : Dict α) (key : String) : Bool :=
  (dict.find? key).isSome

/-- The dictionary with a value at a key. -/
def insert (dict : Dict α) (key : String) (value : α) : Dict α :=
  ⟨Sorted.insert key value dict.entries, Sorted.ascending_insert dict.ascending⟩

/-- The dictionary without the entry at a key. -/
def erase (dict : Dict α) (key : String) : Dict α :=
  ⟨Sorted.erase key dict.entries, Sorted.ascending_filter dict.ascending⟩

/-- The keys, in order. -/
def keys (dict : Dict α) : List String :=
  Sorted.keys dict.entries

/-- How many entries there are. -/
def size (dict : Dict α) : Nat :=
  dict.entries.length

/-- There is no entry. -/
def isEmpty (dict : Dict α) : Bool :=
  dict.entries.isEmpty

/-- The entries whose keys start with a part, in order. -/
def underPrefix (dict : Dict α) (part : String) : List (String × α) :=
  Sorted.underPrefix part dict.entries

/-- The entries that satisfy a condition. -/
def filter (dict : Dict α) (keep : String → α → Bool) : Dict α :=
  ⟨dict.entries.filter fun entry => keep entry.1 entry.2, Sorted.ascending_filter dict.ascending⟩

/-- The dictionary with every value replaced. -/
def map (dict : Dict α) (f : String → α → β) : Dict β :=
  ⟨dict.entries.map fun entry => (entry.1, f entry.1 entry.2), Sorted.ascending_map dict.ascending⟩

/-- The dictionary with further entries put in one after the other. -/
def insertAll (dict : Dict α) (entries : List (String × α)) : Dict α :=
  entries.foldl (fun dict entry => dict.insert entry.1 entry.2) dict

/-- The dictionary with the entries of another one put over its own. -/
def union (dict other : Dict α) : Dict α :=
  dict.insertAll other.entries

/-- The dictionary of some entries; of two at one key the later one counts. -/
def ofList (entries : List (String × α)) : Dict α :=
  empty.insertAll entries

/-- The dictionary without the entries at some keys. -/
def eraseAll (dict : Dict α) (keys : List String) : Dict α :=
  dict.filter fun key _ => !keys.contains key

end Dict

/-! ## Sets of names -/

/-- A set of names. -/
abbrev Names : Type := Dict Unit

namespace Names

/-- The set of the listed names. -/
def ofList (names : List String) : Names :=
  Dict.ofList (names.map fun name => (name, ()))

/-- The keys of a dictionary, as a set. -/
def ofKeys (dict : Dict α) : Names :=
  dict.map fun _ _ => ()

end Names

end EngineCatalog
