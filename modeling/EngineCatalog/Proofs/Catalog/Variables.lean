import EngineCatalog.Proofs.Catalog.Publication
import EngineCatalog.Proofs.Text.Utf8
import EngineCatalog.Proofs.Watch.Loop

/-!
# The common variables form a map

Seen from outside, the common variables are a map from names to values: setting puts into it,
deleting takes out of it, and nothing else that is written changes it (`Publication.onVariables`).
Main statement: in the usual layout, after any publications that name variables by segments, the
reads of one variable, of several and of all of them agree with that map
(`variables_after_publications`).

The three reads find the names in three ways. The read of one variable asks for its key; the read of
several takes the last segment of each key; and the read of all takes the direct children of the path
of variables, since other keys may begin like it. The invariant `HoldsVariables` speaks of the keys
of variables alone, and that is enough for all three.
-/

namespace EngineCatalog

open KeyValue (Store Write Change Entry)
open Catalog (variableOf? valuesOf)

/-! ## The map -/

/-- What a publication makes of the values of common variables. -/
def Publication.onVariables (values : Dict String) : Publication → Dict String
  | .setVariable name value => values.insert name value
  | .setVariables more => values.union more
  | .deleteVariable name => values.erase name
  | .deleteVariables names => values.eraseAll names
  | _ => values

/-- The common variables that are there after some publications, with their values. -/
def publishedVariables (publications : List Publication) : Dict String :=
  publications.foldl Publication.onVariables Dict.empty

/-- The variables that the publication is about are named by segments of a key. -/
def Publication.NamesSegments : Publication → Prop
  | .setVariable name _ => isSegment name.toList = true
  | .setVariables values => ∀ name ∈ values.keys, isSegment name.toList = true
  | .deleteVariable name => isSegment name.toList = true
  | .deleteVariables names => ∀ name ∈ names, isSegment name.toList = true
  | _ => True

/-- The store holds common variables with these values. -/
structure HoldsVariables (layout : Layout) (store : Store) (values : Dict String) : Prop where
  /-- the key of each variable holds its value, and those of other names hold nothing -/
  stored : ∀ name, store.stored? (layout.variableKey name)
    = (values.find? name).map fun value => some (Text.encode value)
  /-- each name is a segment -/
  named : ∀ name, values.contains name = true → isSegment name.toList = true

/-- What is written beside the common variables lies apart from them. -/
def Layout.KeepsVariablesApart (layout : Layout) : Prop :=
  ∀ path ∈ [layout.chainsListing, layout.oldChains, layout.deployments, layout.libraries,
    layout.oldVariablesListing], Apart (layout.commonVariables ++ "/") path

instance (layout : Layout) : Decidable layout.KeepsVariablesApart :=
  inferInstanceAs (Decidable (∀ path ∈ _, Apart _ path))

/-- So it is in the usual layout, where the variables as they lay before have keys that begin like
those of now. -/
theorem Layout.keepsVariablesApart_usual : Layout.usual.KeepsVariablesApart := by
  decide

/-! ## Publications keep the map -/

theorem variableKey_injective (layout : Layout) : Function.Injective layout.variableKey := by
  intro name other h
  rw [Layout.variableKey, Layout.variableKey, ← String.toList_inj] at h
  simpa [String.toList_inj] using h

section Keep

variable {layout : Layout} {store : Store} {values : Dict String}

theorem holdsVariables_fresh (layout : Layout) (limit : Nat) :
    HoldsVariables layout (Store.fresh limit) Dict.empty :=
  ⟨fun _ => rfl, nofun⟩

/-- The names stay segments. -/
theorem Publication.named_onVariables {publication : Publication}
    (hsegments : publication.NamesSegments)
    (h : ∀ name, values.contains name = true → isSegment name.toList = true) :
    ∀ name, (publication.onVariables values).contains name = true →
      isSegment name.toList = true := by
  intro name hname
  cases publication with
  | setVariable other value =>
    rw [onVariables, Dict.contains_insert, Bool.or_eq_true, decide_eq_true_iff] at hname
    rcases hname with rfl | hname
    · exact hsegments
    · exact h name hname
  | setVariables more =>
    rcases Dict.contains_union.mp hname with hnew | hold
    · exact hsegments name (Dict.mem_keys_iff.mpr hnew)
    · exact h name hold
  | deleteVariable other =>
    rw [onVariables, Dict.contains, Dict.find?_erase] at hname
    split at hname
    · cases hname
    · exact h name hname
  | deleteVariables names =>
    rw [onVariables, Dict.contains, Dict.find?_eraseAll] at hname
    split at hname
    · cases hname
    · exact h name hname
  | _ => exact h name hname

/-- A publication changes what the keys of variables hold as it changes the map. Publications of
other things need not be accepted for that. -/
theorem HoldsVariables.stored_perform (h : HoldsVariables layout store values)
    (hwritable : layout.IsWritable) (hapart : layout.KeepsVariablesApart)
    {publication : Publication} (hsegments : publication.NamesSegments) (name : String) :
    (store.perform (publication.write layout)).2.stored? (layout.variableKey name)
      = ((publication.onVariables values).find? name).map fun value => some (Text.encode value) := by
  have hinj := variableKey_injective layout
  have hchild : ∀ {other : String}, isSegment other.toList = true →
      isAbsolute (layout.variableKey other) = true := isAbsolute_child hwritable.commonVariables
  have hother : publication.path layout ∈ [layout.chainsListing, layout.oldChains,
      layout.deployments, layout.libraries, layout.oldVariablesListing] →
      (store.perform (publication.write layout)).2.stored? (layout.variableKey name)
        = (values.find? name).map fun value => some (Text.encode value) := by
    intro hpath
    rw [← h.stored name]
    exact Store.stored?_perform_of_not_touches fun htouches =>
      (hapart _ hpath).not_startsWith (startsWith_append _ name)
        (Publication.startsWith_of_touches htouches)
  cases publication with
  | setVariable other value =>
    have haccepted : (Write.put (layout.variableKey other) (Text.encode value)).IsAccepted :=
      hchild hsegments
    rw [Publication.write, (Store.stored?_perform haccepted).2, h.stored, Write.leaves,
      Publication.onVariables, Dict.find?_insert]
    simp only [hinj.eq_iff]
    split <;> rfl
  | setVariables more =>
    have haccepted : ((Publication.setVariables more).write layout).IsAccepted := by
      intro change hmem
      obtain ⟨entry, hentry, rfl⟩ := List.mem_map.mp hmem
      exact hchild (hsegments entry.1 (List.mem_map_of_mem hentry))
    rw [(Store.stored?_perform haccepted).2, h.stored]
    exact Change.foldl_leaves_set hinj Text.encode more.entries values name
  | deleteVariable other =>
    have hcovers : Store.covers (layout.variableKey other) false (layout.variableKey name) = true
        ↔ other = name := by
      simp [Store.covers, hinj.eq_iff, eq_comm]
    have haccepted : (Write.delete (layout.variableKey other) false).IsAccepted := trivial
    rw [Publication.write, (Store.stored?_perform haccepted).2, h.stored, Write.leaves,
      Publication.onVariables, Dict.find?_erase]
    simp only [hcovers]
    split <;> rfl
  | deleteVariables names =>
    have haccepted : ((Publication.deleteVariables names).write layout).IsAccepted := by
      intro change hmem
      obtain ⟨other, hother, rfl⟩ := List.mem_map.mp hmem
      exact hchild (hsegments other hother)
    rw [(Store.stored?_perform haccepted).2, h.stored, Publication.write, Write.leaves,
      Change.foldl_leaves_delete hinj, Publication.onVariables, Dict.find?_eraseAll]
    split <;> rfl
  | _ => exact hother (by simp [Publication.path])

/-- A publication changes the variables that the store holds as it changes the map. -/
theorem HoldsVariables.perform (h : HoldsVariables layout store values)
    (hwritable : layout.IsWritable) (hapart : layout.KeepsVariablesApart)
    {publication : Publication} (hsegments : publication.NamesSegments) :
    HoldsVariables layout (store.perform (publication.write layout)).2
      (publication.onVariables values) :=
  ⟨h.stored_perform hwritable hapart hsegments, publication.named_onVariables hsegments h.named⟩

/-- So do all publications one after the other. -/
theorem HoldsVariables.after (h : HoldsVariables layout store values)
    (hwritable : layout.IsWritable) (hapart : layout.KeepsVariablesApart)
    {publications : List Publication}
    (hsegments : ∀ publication ∈ publications, publication.NamesSegments) :
    HoldsVariables layout (store.after (publications.map (Publication.write layout)))
      (publications.foldl Publication.onVariables values) := by
  induction publications generalizing store values with
  | nil => exact h
  | cons publication more ih =>
    obtain ⟨hfirst, hmore⟩ := List.forall_mem_cons.mp hsegments
    exact ih (h.perform hwritable hapart hfirst) hmore

/-! ## The map is read back -/

/-- The text of an encoded value. -/
theorem Entry.text_encode (key value : String) (modified : Nat) :
    (Entry.mk key (some (Text.encode value)) modified).text = value :=
  Text.decodeLossy_encode value

/-- A key that holds nothing has no entry. -/
theorem queryEntries_of_none {key : String} (h : store.stored? key = none) :
    store.queryEntries key false = [] := by
  rw [Store.stored?, Option.map_eq_none_iff] at h
  simp [Store.queryEntries, Store.select, h]

/-- A key that holds something has one entry. -/
theorem queryEntries_of_some {key : String} {value : Option Text.Bytes}
    (h : store.stored? key = some value) :
    ∃ modified, store.queryEntries key false = [⟨key, value, modified⟩] := by
  rw [Store.stored?, Option.map_eq_some_iff] at h
  obtain ⟨stored, hentry, rfl⟩ := h
  refine ⟨stored.modified, ?_⟩
  simp [Store.queryEntries, Store.select, hentry]

/-- An entry with the value of a variable is read as that, whether or not only the direct children
of the path are read. -/
theorem variableOf?_eq {path : Option String} {name : String}
    (hpath : path = none ∨ path = some layout.commonVariables)
    (hsegment : isSegment name.toList = true) (value : String) (modified : Nat) :
    variableOf? path ⟨layout.variableKey name, some (Text.encode value), modified⟩
      = some (name, value) := by
  have hchild : childKey? layout.commonVariables (layout.variableKey name) = some name :=
    childKey?_variableKey.mpr ⟨hsegment, rfl⟩
  have hdirect : (path.all fun direct => (childKey? direct (layout.variableKey name)).isSome)
      = true := by
    rcases hpath with rfl | rfl
    · rfl
    · rw [Option.all_some, hchild]
      rfl
  rw [variableOf?, if_pos hdirect, lastSegment?_of_childKey? hchild, Option.map_some,
    Entry.text_encode]

/-- The variables of some entries are given by a map, where each entry that counts holds one of
them, and each of them has an entry. -/
theorem valuesOf_eq {path : Option String} {entries : List Entry} {found : Dict String}
    (hsound : ∀ entry ∈ entries, ∀ name value, variableOf? path entry = some (name, value) →
      found.find? name = some value)
    (hcomplete : ∀ name value, found.find? name = some value →
      ∃ entry ∈ entries, variableOf? path entry = some (name, value)) :
    valuesOf path entries = found := by
  refine Dict.ofList_eq_of_mem_iff fun name value => ?_
  rw [List.mem_filterMap]
  constructor
  · rintro ⟨entry, hentry, hvalue⟩
    exact hsound entry hentry name value hvalue
  · exact hcomplete name value

/-- Below the path of variables the direct children are the variables that are there. -/
theorem HoldsVariables.valuesOf_listing (h : HoldsVariables layout store values) :
    valuesOf (some layout.commonVariables) (store.queryEntries layout.commonVariables true)
      = values := by
  refine valuesOf_eq ?_ ?_
  · intro entry hentry name value hvalue
    obtain ⟨⟨key, stored⟩, hselect, rfl⟩ := List.mem_map.mp hentry
    obtain ⟨-, hfind⟩ := Store.mem_select.mp hselect
    -- an entry counts if its key is that of a direct child, and this is the key of a variable
    have hdirect : (childKey? layout.commonVariables key).isSome = true := by
      by_contra hno
      rw [variableOf?, Option.all_some, if_neg hno] at hvalue
      cases hvalue
    obtain ⟨child, hchild⟩ := Option.isSome_iff_exists.mp hdirect
    obtain ⟨hsegment, rfl⟩ := childKey?_variableKey_iff.mp hchild
    have hstored := h.stored child
    rw [Store.stored?, hfind, Option.map_some, eq_comm, Option.map_eq_some_iff] at hstored
    obtain ⟨held, hheld, heq⟩ := hstored
    rw [← heq, variableOf?_eq (.inr rfl) hsegment] at hvalue
    obtain ⟨rfl, rfl⟩ := Prod.mk.inj (Option.some.inj hvalue)
    exact hheld
  · intro name value hfind
    have hstored := h.stored name
    rw [hfind, Option.map_some, Store.stored?, Option.map_eq_some_iff] at hstored
    obtain ⟨stored, hentry, heq⟩ := hstored
    have hcovers : Store.covers layout.commonVariables true (layout.variableKey name) = true := by
      rw [Store.covers, if_pos rfl, Layout.variableKey, String.append_assoc]
      exact startsWith_append _ _
    refine ⟨_, List.mem_map_of_mem (Store.mem_select.mpr ⟨hcovers, hentry⟩), ?_⟩
    rw [heq]
    exact variableOf?_eq (.inr rfl) (h.named name (Dict.contains_of_find? hfind)) value _

/-- The keys of some variables hold those of them that are there. -/
theorem HoldsVariables.valuesOf_readMany (h : HoldsVariables layout store values)
    (names : List String) :
    valuesOf none (store.readMany (names.map layout.variableKey))
      = values.filter fun name _ => names.contains name := by
  have hfilter : ∀ name value, (values.filter fun name _ => names.contains name).find? name
      = some value ↔ values.find? name = some value ∧ name ∈ names := by
    intro name value
    rw [Dict.find?_filter, Option.filter_eq_some_iff, List.contains_iff_mem]
  have hread : ∀ entry, entry ∈ store.readMany (names.map layout.variableKey)
      ↔ ∃ name ∈ names, entry ∈ store.queryEntries (layout.variableKey name) false := by
    intro entry
    simp only [Store.readMany, List.mem_flatMap, List.mem_map, exists_exists_and_eq_and]
  refine valuesOf_eq ?_ ?_
  · intro entry hentry name value hvalue
    obtain ⟨asked, hasked, hquery⟩ := (hread entry).mp hentry
    have hstored := h.stored asked
    cases hfind : values.find? asked with
    | none =>
      rw [hfind] at hstored
      rw [queryEntries_of_none hstored] at hquery
      cases hquery
    | some held =>
      rw [hfind] at hstored
      obtain ⟨modified, hone⟩ := queryEntries_of_some hstored
      rw [hone, List.mem_singleton] at hquery
      rw [hquery, variableOf?_eq (.inl rfl) (h.named asked (Dict.contains_of_find? hfind))] at hvalue
      obtain ⟨rfl, rfl⟩ := Prod.mk.inj (Option.some.inj hvalue)
      exact (hfilter asked held).mpr ⟨hfind, hasked⟩
  · intro name value hfound
    obtain ⟨hfind, hname⟩ := (hfilter name value).mp hfound
    have hstored := h.stored name
    rw [hfind] at hstored
    obtain ⟨modified, hone⟩ := queryEntries_of_some hstored
    refine ⟨_, (hread _).mpr ⟨name, hname, hone ▸ List.mem_cons_self⟩, ?_⟩
    exact variableOf?_eq (.inl rfl) (h.named name (Dict.contains_of_find? hfind)) value modified

end Keep

/-! ## The three reads -/

section Read

variable {catalog : Catalog} {store : Store} {values : Dict String}

/-- The read of a variable whose key holds nothing finds none. -/
theorem Catalog.serve_findVariable_of_none {name : String}
    (h : store.stored? (catalog.layout.variableKey name) = none) :
    store.serve (catalog.findVariable name) = some (.ok none, store) := by
  rw [Catalog.findVariable, Catalog.serve_readOr, Store.read, queryEntries_of_none h]
  rfl

/-- The read of a variable whose key holds an encoded value gives back the value. -/
theorem Catalog.serve_findVariable_of_some {name value : String}
    (h : store.stored? (catalog.layout.variableKey name) = some (some (Text.encode value))) :
    store.serve (catalog.findVariable name) = some (.ok (some value), store) := by
  obtain ⟨modified, hone⟩ := queryEntries_of_some h
  have hquery : (store.query (catalog.layout.variableKey name) false).entries.head?.map Entry.text
      = some value := by
    rw [Store.query, hone, List.head?_cons, Option.map_some, Entry.text_encode]
  rw [Catalog.findVariable, Catalog.serve_readOr, Store.read, hone]
  exact congrArg (fun found => some ((.ok found : Outcome _), store)) hquery

/-- The read of the variables below a path gives back those of the entries there. -/
theorem Catalog.serve_variablesUnder (path : String) (store : Store) :
    store.serve (Catalog.variablesUnder path)
      = some (.ok (valuesOf (some path) (store.queryEntries path true)), store) := by
  rw [Catalog.variablesUnder, Catalog.serve_readOr, Store.read]
  by_cases hnone : (store.queryEntries path true).isEmpty = true
  · rw [if_pos hnone, List.isEmpty_iff.mp hnone]
    rfl
  · rw [if_neg hnone]
    rfl

/-- The read of all variables gives back what the store holds. -/
theorem HoldsVariables.serve_allVariables (h : HoldsVariables catalog.layout store values) :
    store.serve catalog.allVariables = some (.ok values, store) := by
  rw [Catalog.allVariables, Catalog.serve_variablesUnder, h.valuesOf_listing]

/-- The read of one variable gives back its value. -/
theorem HoldsVariables.serve_findVariable (h : HoldsVariables catalog.layout store values)
    (name : String) :
    store.serve (catalog.findVariable name) = some (.ok (values.find? name), store) := by
  cases hfind : values.find? name with
  | none => exact Catalog.serve_findVariable_of_none (by rw [h.stored, hfind, Option.map_none])
  | some value => exact Catalog.serve_findVariable_of_some (by rw [h.stored, hfind, Option.map_some])

/-- The read of several variables gives back those of them that are there. -/
theorem HoldsVariables.serve_variablesNamed (h : HoldsVariables catalog.layout store values)
    (names : List String) :
    store.serve (catalog.variablesNamed names)
      = some (.ok (values.filter fun name _ => names.contains name), store) := by
  have hvalues := h.valuesOf_readMany names
  cases names with
  | nil => exact congrArg (fun found => some ((.ok found : Outcome _), store)) hvalues
  | cons name more => exact congrArg (fun found => some ((.ok found : Outcome _), store)) hvalues

end Read

/-! ## After any publications -/

/-- Makes publications one after the other, whatever each of them comes to. -/
def Catalog.publishEach (catalog : Catalog) : List Publication → Store → Option Store
  | [], store => some store
  | publication :: more, store =>
    match store.serve (publication.program catalog) with
    | some (_, after) => catalog.publishEach more after
    | none => none

/-- Publications come down to their writes. -/
theorem Catalog.publishEach_eq (catalog : Catalog) (publications : List Publication)
    (store : Store) :
    catalog.publishEach publications store
      = some (store.after (publications.map (Publication.write catalog.layout))) := by
  induction publications generalizing store with
  | nil => rfl
  | cons publication more ih =>
    rw [publishEach, publication.serve_program]
    exact ih (store.perform (publication.write catalog.layout)).2

/-- **The common variables form a map.** In the usual layout, from an empty store, make any
publications that name variables by segments. Afterwards the read of all variables gives back the map
that they come down to, the read of one variable looks it up there, and the read of several takes
those that are named, in whatever order and number. -/
theorem variables_after_publications (wait : Span) (limit : Nat) (publications : List Publication)
    (hsegments : ∀ publication ∈ publications, publication.NamesSegments) :
    ∃ store, (Catalog.usual wait).publishEach publications (Store.fresh limit) = some store ∧
      store.serve (Catalog.usual wait).allVariables
        = some (.ok (publishedVariables publications), store) ∧
      (∀ name, store.serve ((Catalog.usual wait).findVariable name)
        = some (.ok ((publishedVariables publications).find? name), store)) ∧
      ∀ names, store.serve ((Catalog.usual wait).variablesNamed names)
        = some (.ok ((publishedVariables publications).filter fun name _ => names.contains name),
            store) := by
  have hholds : HoldsVariables (Catalog.usual wait).layout
      ((Store.fresh limit).after (publications.map (Publication.write Layout.usual)))
      (publishedVariables publications) :=
    (holdsVariables_fresh Layout.usual limit).after Layout.isWritable_usual
      Layout.keepsVariablesApart_usual hsegments
  exact ⟨_, (Catalog.usual wait).publishEach_eq publications _, hholds.serve_allVariables,
    hholds.serve_findVariable, hholds.serve_variablesNamed⟩

/-- Variables that are set and deleted alone and together, with a chain, a refused write and one
below the old path in between. -/
def mixedVariables : List Publication := [
  .setVariable "region" "north",
  .chain "orders" ⟨Dict.empty⟩,
  .setVariables ((Dict.empty.insert "tier" "gold").insert "zone" "a"),
  .putOldVariable "acme/region" [1],
  .putOldVariable "acme/" [2],
  .deleteVariables ["zone", "none", "zone"],
  .deleteOldVariables,
  .setVariable "region" "south"]

/-- Two of them are left, and the reads agree on them. -/
theorem variables_after_mixedVariables :
    (∀ publication ∈ mixedVariables, publication.NamesSegments) ∧
      ∃ store, (Catalog.usual ⟨0⟩).publishEach mixedVariables (Store.fresh 1) = some store ∧
        store.serve (Catalog.usual ⟨0⟩).allVariables
          = some (.ok ((Dict.empty.insert "region" "south").insert "tier" "gold"), store) ∧
        store.serve ((Catalog.usual ⟨0⟩).findVariable "region") = some (.ok (some "south"), store) ∧
        store.serve ((Catalog.usual ⟨0⟩).variablesNamed ["tier", "zone", "tier"])
          = some (.ok (Dict.empty.insert "tier" "gold"), store) := by
  have hsegments : ∀ publication ∈ mixedVariables, publication.NamesSegments := by
    simp only [mixedVariables, List.forall_mem_cons]
    have hset : ∀ name ∈ ["tier", "zone"], isSegment name.toList = true := by decide
    have hdeleted : ∀ name ∈ ["zone", "none", "zone"], isSegment name.toList = true := by decide
    exact ⟨rfl, trivial, hset, trivial, trivial, hdeleted, trivial, rfl, List.forall_mem_nil _⟩
  have hmap : publishedVariables mixedVariables
      = (Dict.empty.insert "region" "south").insert "tier" "gold" := by decide
  obtain ⟨store, hpublish, hall, hone, hseveral⟩ :=
    variables_after_publications ⟨0⟩ 1 mixedVariables hsegments
  refine ⟨hsegments, store, hpublish, hmap ▸ hall, ?_, ?_⟩
  · rw [hone, hmap]
    rfl
  · rw [hseveral, hmap]
    rfl

end EngineCatalog
