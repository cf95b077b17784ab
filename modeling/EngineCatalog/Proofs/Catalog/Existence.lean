import EngineCatalog.Proofs.Catalog.OwnKeys
import EngineCatalog.Proofs.Catalog.Variables

/-!
# Whether there are variables

Whether there are common variables is asked by what keys start with, and their listing counts only
the direct children of the path. Main statement: a listing that gives any variable is of a store in
which there are some, and the converse holds exactly where one of the keys that start like the path,
if there is any, is that of a direct child (`variablesExist_iff`).

The listing itself is described name by name (`find?_valuesOf`): a name is given if it is a segment
and its key is stored, with or without a value.
-/

namespace EngineCatalog

open KeyValue (Store Entry)
open Catalog (variableOf? valuesOf)
open Text (Bytes)

/-! ## What is listed -/

/-- What a key holds, as text; a key without a value holds the empty text. -/
def KeyValue.textOf (value : Option Bytes) : String :=
  (value.map Text.decodeLossy).getD ""

/-- Where only direct children of a path are read, an entry is read as the variable whose key it
has. -/
theorem variableOf?_eq_some_iff {path name value : String} {entry : Entry} :
    variableOf? (some path) entry = some (name, value)
      ↔ isSegment name.toList = true ∧ entry.key = path ++ "/" ++ name ∧ entry.text = value := by
  rw [variableOf?, Option.all_some, ← and_assoc, ← childKey?_eq_some_iff]
  cases hchild : childKey? path entry.key with
  | none => simp
  | some child => simp [lastSegment?_of_childKey? hchild]

/-- The variables below a path, name by name. -/
theorem find?_valuesOf (store : Store) (path name : String) :
    (valuesOf (some path) (store.queryEntries path true)).find? name
      = if isSegment name.toList = true then
          (store.stored? (path ++ "/" ++ name)).map KeyValue.textOf
        else none := by
  let listed : String → Option String := fun name =>
    if isSegment name.toList = true then
      (store.stored? (path ++ "/" ++ name)).map KeyValue.textOf
    else none
  suffices hmem : ∀ name value, (name, value) ∈ (store.queryEntries path true).filterMap
      (variableOf? (some path)) ↔ listed name = some value from
    Dict.find?_ofList_of_mem_iff hmem name
  intro name value
  simp only [List.mem_filterMap, variableOf?_eq_some_iff, listed]
  constructor
  · rintro ⟨entry, hentry, hsegment, hkey, rfl⟩
    rw [if_pos hsegment, ← hkey, Store.stored?_of_mem_queryEntries hentry]
    rfl
  · intro h
    split at h
    · rename_i hsegment
      obtain ⟨held, hheld, rfl⟩ := Option.map_eq_some_iff.mp h
      have hcovers : Store.covers path true (path ++ "/" ++ name) = true := by
        rw [Store.covers, if_pos rfl, String.append_assoc]
        exact startsWith_append _ _
      obtain ⟨entry, hentry, hkey, rfl⟩ := Store.exists_mem_queryEntries hcovers hheld
      exact ⟨entry, hentry, hsegment, hkey, rfl⟩
    · cases h

/-- Something is listed exactly if the key of a direct child is stored. -/
theorem isEmpty_valuesOf_iff {store : Store} {path : String} :
    (valuesOf (some path) (store.queryEntries path true)).isEmpty = false
      ↔ ∃ name, isSegment name.toList = true ∧ store.Has (path ++ "/" ++ name) := by
  rw [Bool.eq_false_iff, ne_eq, Dict.isEmpty_iff]
  simp only [Dict.contains, find?_valuesOf, not_forall, Bool.not_eq_false]
  refine exists_congr fun name => ?_
  by_cases hsegment : isSegment name.toList = true
  · simp [hsegment, Store.Has, Option.isSome_iff_exists]
  · simp [hsegment]

/-! ## What exists -/

/-- A query finds something exactly if a key that it covers is stored. -/
theorem KeyValue.Store.isEmpty_queryEntries_iff {store : Store} {path : String} {all : Bool} :
    (store.queryEntries path all).isEmpty = false
      ↔ ∃ key, store.Has key ∧ Store.covers path all key = true := by
  rw [List.isEmpty_eq_false_iff_exists_mem]
  constructor
  · rintro ⟨entry, hentry⟩
    exact ⟨entry.key, ⟨entry.value, stored?_of_mem_queryEntries hentry⟩,
      (mem_queryEntries.mp hentry).1⟩
  · rintro ⟨key, ⟨value, hvalue⟩, hcovers⟩
    obtain ⟨entry, hentry, -⟩ := exists_mem_queryEntries hcovers hvalue
    exact ⟨entry, hentry⟩

/-- Whether there are keys is whether a query finds any. -/
theorem Catalog.serve_hasKeys (path : String) (store : Store) :
    store.serve (Catalog.hasKeys path)
      = some (.ok (!(store.queryEntries path true).isEmpty), store) := by
  rw [Catalog.hasKeys, Catalog.serve_readOr, Store.read]
  by_cases hnone : (store.queryEntries path true).isEmpty = true
  · rw [if_pos hnone, hnone]
    rfl
  · rw [if_neg hnone, Bool.eq_false_iff.mpr hnone]
    rfl

/-- **Variables exist where keys begin like their path.** Whatever is stored, there are common
variables if any key starts with their path, and their listing gives some if the key of a direct
child is stored. So where the listing gives some there are some, and the two agree exactly if, with
any key that starts with the path, the key of a direct child is stored, too. -/
theorem variablesExist_iff (catalog : Catalog) (store : Store) :
    ∃ found values, store.serve catalog.variablesExist = some (.ok found, store) ∧
      store.serve catalog.allVariables = some (.ok values, store) ∧
      (found = true ↔ ∃ key, store.Has key ∧
        startsWith catalog.layout.commonVariables key = true) ∧
      (values.isEmpty = false ↔ ∃ name, isSegment name.toList = true ∧
        store.Has (catalog.layout.variableKey name)) ∧
      (values.isEmpty = false → found = true) ∧
      ((found = true ↔ values.isEmpty = false) ↔
        ((∃ key, store.Has key ∧ startsWith catalog.layout.commonVariables key = true) →
          ∃ name, isSegment name.toList = true ∧ store.Has (catalog.layout.variableKey name))) := by
  have hfound : (!(store.queryEntries catalog.layout.commonVariables true).isEmpty) = true
      ↔ ∃ key, store.Has key ∧ startsWith catalog.layout.commonVariables key = true := by
    rw [Bool.not_eq_true', Store.isEmpty_queryEntries_iff]
    rfl
  have hlisted := @isEmpty_valuesOf_iff store catalog.layout.commonVariables
  have hchild : (∃ name, isSegment name.toList = true ∧
      store.Has (catalog.layout.variableKey name)) →
      ∃ key, store.Has key ∧ startsWith catalog.layout.commonVariables key = true := by
    rintro ⟨name, -, hname⟩
    refine ⟨catalog.layout.variableKey name, hname, ?_⟩
    rw [Layout.variableKey, String.append_assoc]
    exact startsWith_append _ _
  refine ⟨_, _, Catalog.serve_hasKeys _ store, Catalog.serve_variablesUnder _ store, hfound,
    hlisted, fun h => hfound.mpr (hchild (hlisted.mp h)), ?_⟩
  rw [hfound, hlisted]
  exact ⟨Iff.mp, fun h => ⟨h, hchild⟩⟩

/-- Where only a key is stored that begins like the path of variables, or only one below a variable,
there are variables, and none is listed. -/
theorem variablesExist_neighbours :
    let layout := Layout.usual
    let catalog := Catalog.usual ⟨0⟩
    let value := Text.encode "north"
    (∃ store, (Store.fresh 1).put (layout.commonVariables ++ "-archive/region") value = .ok store ∧
      store.serve catalog.variablesExist = some (.ok true, store) ∧
      store.serve catalog.allVariables = some (.ok Dict.empty, store)) ∧
    ∃ store, (Store.fresh 1).put (layout.variableKey "team" ++ "/region") value = .ok store ∧
      store.serve catalog.variablesExist = some (.ok true, store) ∧
      store.serve catalog.allVariables = some (.ok Dict.empty, store) :=
  ⟨⟨_, rfl, rfl, rfl⟩, _, rfl, rfl, rfl⟩

end EngineCatalog
