import EngineCatalog.Catalog.Basic
import EngineCatalog.Proofs.Json.Payload
import EngineCatalog.Proofs.Layout.Chain
import EngineCatalog.Proofs.Store.Contents

/-!
# What the catalog publishes

`Publication` lists the writes that the catalog makes, each of which is one write of the store
(`serve_program`). The writes of one kind lie below one path (`startsWith_of_touches`), so two kinds
whose paths lie apart do not disturb one another (`leaves_of_apart`). In every layout that is allowed
valid publications are all accepted (`Catalog.publishAll_eq`).
-/

namespace EngineCatalog

open KeyValue (Store Write Change Listing keyValue)
open Text (Bytes)

/-- Runs a program over a store in memory; none if it stops at an overflow. -/
def KeyValue.Store.serve {α : Type} (store : Store) (program : Program keyValue α) :
    Option (α × Store) :=
  program.run (σ := keyValue) (fun request store => store.answer request) store

/-- A read that finds nothing comes to the empty result. -/
theorem Catalog.serve_readOr {α : Type} (nothing : α) (path : String) (all : Bool)
    (use : Listing → Outcome α) (store : Store) :
    store.serve (Catalog.readOr nothing path all use) = some
      (match store.read path all with
        | .ok listing => use listing
        | .error error => if error.isNotFound then .ok nothing else .error error, store) := by
  let next : Outcome Listing → Operation keyValue α := fun
    | .ok listing => .ofOutcome (use listing)
    | .error error => if error.isNotFound then return nothing else .fail error
  have hread : store.serve (Catalog.readOr nothing path all use)
      = store.serve (next (store.read path all)) := rfl
  rw [hread]
  cases store.read path all with
  | ok listing => rfl
  | error error =>
    simp only [next]
    split <;> rfl

/-! ## Paths that lie apart -/

/-- Neither of the paths starts with the other. -/
def Apart (path other : String) : Prop :=
  startsWith path other = false ∧ startsWith other path = false

instance (path other : String) : Decidable (Apart path other) :=
  inferInstanceAs (Decidable (_ ∧ _))

/-- No key lies below two paths that lie apart. -/
theorem Apart.not_startsWith {path other key : String} (h : Apart path other)
    (hpath : startsWith path key = true) : ¬ startsWith other key = true := by
  intro hother
  rcases List.prefix_or_prefix_of_prefix (startsWith_iff.mp hpath) (startsWith_iff.mp hother)
    with hprefix | hprefix
  · exact absurd (startsWith_iff.mpr hprefix) (Bool.eq_false_iff.mp h.1)
  · exact absurd (startsWith_iff.mpr hprefix) (Bool.eq_false_iff.mp h.2)

/-- Behind a common path one text starts with another as without it. -/
theorem startsWith_append_append (path part text : String) :
    startsWith (path ++ part) (path ++ text) = startsWith part text := by
  rw [Bool.eq_iff_iff, startsWith_iff, startsWith_iff, String.toList_append, String.toList_append,
    List.prefix_append_right_inj]

/-- Paths that lie apart do so below a common root. -/
theorem Apart.append {path other : String} (h : Apart path other) (root : String) :
    Apart (root ++ path) (root ++ other) := by
  rw [Apart, startsWith_append_append, startsWith_append_append]
  exact h

theorem startsWith_self (path : String) : startsWith path path = true :=
  startsWith_iff.mpr (List.prefix_refl _)

theorem startsWith_append (path part : String) : startsWith path (path ++ part) = true := by
  rw [startsWith_iff, String.toList_append]
  exact List.prefix_append _ _

/-! ## Keys that can be written -/

/-- What ends a path that can be written decides whether the whole can be written. -/
theorem isAbsolute_append {path part : String} {front : List Char} {last : Char}
    (hpath : isAbsolute path = true) (hpart : part.toList = front ++ [last])
    (hlast : last ≠ '/') : isAbsolute (path ++ part) = true := by
  obtain ⟨c, rest, hcons⟩ := exists_eq_slash_cons hpath
  have hlist : (path ++ part).toList = '/' :: c :: (rest ++ front ++ [last]) := by
    simp [hcons, hpart]
  have hget : (c :: (rest ++ front ++ [last])).getLast? = some last := by
    rw [← List.cons_append, List.getLast?_concat]
  rw [isAbsolute, hlist]
  simp only [hget]
  simpa using hlast

/-- A path that can be written ends with another character than a slash. -/
theorem exists_eq_concat_of_isAbsolute {path : String} (h : isAbsolute path = true) :
    ∃ front last, path.toList = front ++ [last] ∧ last ≠ '/' := by
  obtain ⟨c, rest, hcons⟩ := exists_eq_slash_cons h
  have hne : c :: rest ≠ [] := List.cons_ne_nil _ _
  have hsplit := List.dropLast_concat_getLast hne
  rw [isAbsolute, hcons] at h
  refine ⟨'/' :: (c :: rest).dropLast, (c :: rest).getLast hne, ?_, ?_⟩
  · rw [hcons, List.cons_append, hsplit]
  · simpa [List.getLast?_eq_some_getLast hne] using h

/-- A segment below a path that can be written can be written. -/
theorem isAbsolute_child {path part : String} (hpath : isAbsolute path = true)
    (hpart : isSegment part.toList = true) : isAbsolute (path ++ "/" ++ part) = true := by
  obtain ⟨hne, hslash⟩ := isSegment_iff.mp hpart
  have hlast : part.toList.getLast hne ≠ '/' := fun heq => hslash (heq ▸ List.getLast_mem hne)
  have hchild : ("/" ++ part).toList
      = ('/' :: part.toList.dropLast) ++ [part.toList.getLast hne] := by
    rw [List.cons_append, List.dropLast_concat_getLast hne]
    simp
  rw [String.append_assoc]
  exact isAbsolute_append hpath hchild hlast

/-- Below its paths the layout has keys that can be written. -/
structure Layout.IsWritable (layout : Layout) : Prop where
  /-- the time of the last deployment can be set -/
  deployments : isAbsolute layout.deployments = true
  /-- the libraries can be published -/
  libraries : isAbsolute layout.libraries = true
  /-- the path of chains is one of segments -/
  chains : isAbsolute layout.chains = true
  /-- so is that of common variables -/
  commonVariables : isAbsolute layout.commonVariables = true

/-- The usual layout. -/
def Layout.usual : Layout :=
  Layout.of KeySettings.shape.blank

/-- All layouts that are allowed have such keys. -/
theorem Layout.isWritable_of {keys : KeySettings} (h : keys.check = .ok ()) :
    (Layout.of keys).IsWritable := by
  obtain ⟨hparts, -⟩ := KeySettings.check_eq_ok_iff.mp h
  have happend : ∀ {path part}, isAbsolute path = true → isAbsolute part = true →
      isAbsolute (path ++ part) = true := by
    intro path part hpath hpart
    obtain ⟨front, last, heq, hlast⟩ := exists_eq_concat_of_isAbsolute hpart
    exact isAbsolute_append hpath heq hlast
  simp only [KeySettings.parts, List.forall_mem_cons] at hparts
  obtain ⟨hbase, hroot, hstamp, -, hlibraries, hruntime, hchains, -, hvariables, -⟩ := hparts
  have htree := happend hbase hroot
  exact ⟨happend htree hstamp, happend htree hlibraries,
    happend (happend htree hruntime) hchains, happend htree hvariables⟩

theorem Layout.isWritable_usual : Layout.usual.IsWritable :=
  Layout.isWritable_of rfl

/-- The catalog with the usual layout. -/
def Catalog.usual (wait : Span) : Catalog :=
  ⟨Layout.usual, wait⟩

/-! ## Publications -/

/-- The properties of a chain were read once, and no floating-point number is in them. -/
def ChainProperties.IsReadable (chain : ChainProperties) : Prop :=
  (∃ bytes, ChainProperties.reader.run bytes = .ok chain) ∧ Json.FloatFree chain.toJson

/-- What is written for the engines. -/
inductive Publication where
  /-- the properties of a chain are published -/
  | chain (id : String) (properties : ChainProperties)
  /-- the properties of several chains are published at once -/
  | chains (all : Dict ChainProperties)
  /-- the properties of a chain are withdrawn -/
  | deleteChain (id : String)
  /-- the chains as they lay before are deleted -/
  | deleteOldChains
  /-- the time of the last deployment is set -/
  | stamp (time : Nat)
  /-- the libraries are published -/
  | libraries (all : List LibraryUpdate)
  /-- a common variable is set -/
  | setVariable (name value : String)
  /-- common variables are set at once -/
  | setVariables (values : Dict String)
  /-- a common variable is deleted -/
  | deleteVariable (name : String)
  /-- common variables are deleted at once -/
  | deleteVariables (names : List String)
  /-- the common variables as they lay before are deleted -/
  | deleteOldVariables
  /-- someone writes below the path at which common variables lay before -/
  | putOldVariable (part : String) (value : Bytes)

namespace Publication

/-- The operation that makes it. -/
def program (catalog : Catalog) : Publication → Operation keyValue Unit
  | .chain id properties => catalog.updateChain id properties
  | .chains all => catalog.updateChains all
  | .deleteChain id => catalog.deleteChain id
  | .deleteOldChains => catalog.deleteOldChains
  | .stamp time => do
    let _ ← catalog.stampDeployment time
    return ()
  | .libraries all => catalog.updateLibraries all
  | .setVariable name value => catalog.setVariable name value
  | .setVariables values => catalog.setVariables values
  | .deleteVariable name => catalog.deleteVariable name
  | .deleteVariables names => catalog.deleteVariables names
  | .deleteOldVariables => catalog.deleteOldVariables
  | .putOldVariable part value => KeyValue.put (catalog.layout.oldVariablesListing ++ part) value

/-- The write of the store that it is. -/
def write (layout : Layout) : Publication → Write
  | .chain id properties => .put (layout.chainKey id) properties.write
  | .chains all =>
    .transact (all.entries.map fun entry => .set (layout.chainKey entry.1) entry.2.write)
  | .deleteChain id => .delete (layout.chainKey id) false
  | .deleteOldChains => .delete layout.oldChains true
  | .stamp time => .put layout.deployments (Text.encode (toString time))
  | .libraries all => .put layout.libraries (LibraryUpdate.writeAll all)
  | .setVariable name value => .put (layout.variableKey name) (Text.encode value)
  | .setVariables values =>
    .transact (values.entries.map fun entry =>
      .set (layout.variableKey entry.1) (Text.encode entry.2))
  | .deleteVariable name => .delete (layout.variableKey name) false
  | .deleteVariables names => .transact (names.map fun name => .delete (layout.variableKey name))
  | .deleteOldVariables => .delete layout.oldVariablesListing true
  | .putOldVariable part value => .put (layout.oldVariablesListing ++ part) value

/-- Each publication is one write. -/
theorem serve_program (catalog : Catalog) (publication : Publication) (store : Store) :
    store.serve (publication.program catalog)
      = some (store.perform (publication.write catalog.layout)) := by
  cases publication with
  | stamp time =>
    -- the time that the operation gives back is dropped
    have hput : program catalog (.stamp time)
        = KeyValue.put catalog.layout.deployments (Text.encode (toString time)) := by
      simp [program, Catalog.stampDeployment]
    rw [hput]
    rfl
  | _ => rfl

/-! ## The path of a publication -/

/-- The path below which it writes. -/
def path (layout : Layout) : Publication → String
  | .chain _ _ => layout.chainsListing
  | .chains _ => layout.chainsListing
  | .deleteChain _ => layout.chainsListing
  | .deleteOldChains => layout.oldChains
  | .stamp _ => layout.deployments
  | .libraries _ => layout.libraries
  | .setVariable _ _ => layout.commonVariables ++ "/"
  | .setVariables _ => layout.commonVariables ++ "/"
  | .deleteVariable _ => layout.commonVariables ++ "/"
  | .deleteVariables _ => layout.commonVariables ++ "/"
  | .deleteOldVariables => layout.oldVariablesListing
  | .putOldVariable _ _ => layout.oldVariablesListing

/-- A publication writes below its path only. -/
theorem startsWith_of_touches {layout : Layout} {publication : Publication} {key : String}
    (h : (publication.write layout).Touches key) :
    startsWith (publication.path layout) key = true := by
  have hsingle : ∀ {path : String}, Store.covers path false key = true → path = key := by
    intro path hcovers
    simpa [Store.covers, eq_comm] using hcovers
  cases publication with
  | chain id properties => exact h ▸ startsWith_append layout.chainsListing id
  | chains all =>
    obtain ⟨change, hmem, rfl⟩ := h
    obtain ⟨entry, -, rfl⟩ := List.mem_map.mp hmem
    exact startsWith_append layout.chainsListing entry.1
  | deleteChain id => exact hsingle h ▸ startsWith_append layout.chainsListing id
  | deleteOldChains => exact h
  | stamp time => exact h ▸ startsWith_self layout.deployments
  | libraries all => exact h ▸ startsWith_self layout.libraries
  | setVariable name value => exact h ▸ startsWith_append _ name
  | setVariables values =>
    obtain ⟨change, hmem, rfl⟩ := h
    obtain ⟨entry, -, rfl⟩ := List.mem_map.mp hmem
    exact startsWith_append _ entry.1
  | deleteVariable name => exact hsingle h ▸ startsWith_append _ name
  | deleteVariables names =>
    obtain ⟨change, hmem, rfl⟩ := h
    obtain ⟨name, -, rfl⟩ := List.mem_map.mp hmem
    exact startsWith_append _ name
  | deleteOldVariables => exact h
  | putOldVariable part value => exact h ▸ startsWith_append _ part

/-- Below a path that lies apart from its own, a publication changes nothing. -/
theorem leaves_of_apart {layout : Layout} {publication : Publication} {path key : String}
    (hapart : Apart path (publication.path layout)) (hkey : startsWith path key = true)
    (found : Option (Option Bytes)) : (publication.write layout).leaves key found = found :=
  Write.leaves_of_not_touches
    (fun htouches => hapart.not_startsWith hkey (startsWith_of_touches htouches)) found

/-! ## Valid publications -/

/-- It is about chains and variables that are segments of a key, and the properties of chains that
are published were read once and hold no floating-point number. -/
def IsValid (layout : Layout) : Publication → Prop
  | .chain id properties => isSegment id.toList = true ∧ properties.IsReadable
  | .chains all => ∀ id properties, all.find? id = some properties →
      isSegment id.toList = true ∧ properties.IsReadable
  | .deleteChain id => isSegment id.toList = true
  | .setVariable name _ => isSegment name.toList = true
  | .setVariables values => ∀ name value, values.find? name = some value →
      isSegment name.toList = true
  | .deleteVariable name => isSegment name.toList = true
  | .deleteVariables names => ∀ name ∈ names, isSegment name.toList = true
  | .putOldVariable part _ => isAbsolute (layout.oldVariablesListing ++ part) = true
  | _ => True

/-- Valid publications are accepted. -/
theorem isAccepted {layout : Layout} (h : layout.IsWritable) {publication : Publication}
    (hvalid : publication.IsValid layout) : (publication.write layout).IsAccepted := by
  cases publication with
  | chain id properties => exact isAbsolute_child h.chains hvalid.1
  | chains all =>
    intro change hmem
    obtain ⟨entry, hentry, rfl⟩ := List.mem_map.mp hmem
    exact isAbsolute_child h.chains (hvalid _ _ (Dict.mem_entries_iff.mp hentry)).1
  | stamp time => exact h.deployments
  | libraries all => exact h.libraries
  | setVariable name value => exact isAbsolute_child h.commonVariables hvalid
  | setVariables values =>
    intro change hmem
    obtain ⟨entry, hentry, rfl⟩ := List.mem_map.mp hmem
    exact isAbsolute_child h.commonVariables (hvalid _ _ (Dict.mem_entries_iff.mp hentry))
  | deleteVariables names =>
    intro change hmem
    obtain ⟨name, hname, rfl⟩ := List.mem_map.mp hmem
    exact isAbsolute_child h.commonVariables (hvalid name hname)
  | putOldVariable part value => exact hvalid
  | _ => trivial

end Publication

/-! ## All publications -/

/-- Makes publications one after the other; none if one of them fails. -/
def Catalog.publishAll (catalog : Catalog) : List Publication → Store → Option Store
  | [], store => some store
  | publication :: more, store =>
    match store.serve (publication.program catalog) with
    | some (.ok (), store) => catalog.publishAll more store
    | _ => none

/-- Valid publications are all accepted, and come down to their writes. -/
theorem Catalog.publishAll_eq {catalog : Catalog} (h : catalog.layout.IsWritable)
    {publications : List Publication}
    (hvalid : ∀ publication ∈ publications, publication.IsValid catalog.layout) (store : Store) :
    catalog.publishAll publications store
      = some (store.after (publications.map (Publication.write catalog.layout))) := by
  induction publications generalizing store with
  | nil => rfl
  | cons publication more ih =>
    obtain ⟨hfirst, hmore⟩ := List.forall_mem_cons.mp hvalid
    obtain ⟨hok, -⟩ := store.stored?_perform (publication.isAccepted h hfirst)
    rw [publishAll, publication.serve_program]
    match hperform : store.perform (publication.write catalog.layout) with
    | (.ok (), after) =>
      rw [List.map_cons, Store.after, List.foldl_cons, hperform]
      exact ih hmore after
    | (.error error, after) =>
      rw [hperform] at hok
      cases hok

end EngineCatalog
