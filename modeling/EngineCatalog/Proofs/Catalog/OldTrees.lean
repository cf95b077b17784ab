import EngineCatalog.Proofs.Catalog.OwnKeys

/-!
# Deleting what lay elsewhere before

Chains and common variables lay below other paths before. What is left there is deleted by what its
keys start with: for the variables this is the old path and a slash, but for the chains it is the
old path alone. Main statement: all other keys stay as they are, and more than the old tree of
chains goes exactly if a key is stored that only begins like its path. In an accepted layout a tree
whose name begins like the old one goes as a whole, and every other one stays (`deleteOld_clears`).

* `IsWithin` — a key is in the tree of a path: it is the path, or it lies below it.
* `Store.Clears` — some keys are gone, and the others are there with their values and indexes.
* `KeySettings.trees` — the names of the trees right below the root.
-/

namespace EngineCatalog

open KeyValue (Store)

/-! ## Trees of keys -/

/-- The key is the path, or it lies below it. -/
def IsWithin (path key : String) : Prop :=
  key = path ∨ startsWith (path ++ "/") key = true

/-- Keys in the tree of a path start with the path. -/
theorem IsWithin.startsWith {path key : String} (h : IsWithin path key) :
    EngineCatalog.startsWith path key = true := by
  rcases h with rfl | hbelow
  · exact startsWith_self key
  · rw [startsWith_iff, String.toList_append] at hbelow
    exact startsWith_iff.mpr ((List.prefix_append _ _).trans hbelow)

/-- Where a name has no slash but at its front, what starts with it and goes on behind a slash
starts with it before the slash. -/
theorem prefix_of_prefix_append_slash {name path rest : List Char} (hpath : path ≠ [])
    (hname : '/' ∉ name.drop 1) (h : name <+: path ++ '/' :: rest) : name <+: path := by
  rcases List.prefix_or_prefix_of_prefix h (List.prefix_append path _) with hshort | hlong
  · exact hshort
  · obtain ⟨more, rfl⟩ := hlong
    cases more with
    | nil => simp
    | cons c more =>
      -- the slash would be within the name
      rw [List.prefix_append_right_inj] at h
      obtain ⟨rfl, -⟩ := List.cons_prefix_cons.mp h
      obtain ⟨first, others, rfl⟩ := List.exists_cons_of_ne_nil hpath
      exact absurd (by simp) hname

/-- The name of the tree in which chains lay before. -/
def oldChainsName : String := "/chains-runtime-configurations"

/-- Of a tree below the root all keys start like the old tree of chains, or none does. -/
theorem startsWith_oldChains_of_isWithin {layout : Layout} {name key : String}
    (hname : isAbsolute name = true) (h : IsWithin (layout.root ++ name) key) :
    startsWith layout.oldChains key = startsWith oldChainsName name := by
  have hpath : startsWith layout.oldChains (layout.root ++ name) = startsWith oldChainsName name :=
    startsWith_append_append layout.root oldChainsName name
  rcases h with rfl | hbelow
  · exact hpath
  · obtain ⟨rest, hrest⟩ := startsWith_iff.mp hbelow
    obtain ⟨c, more, hcons⟩ := exists_eq_slash_cons hname
    have hkey : key = layout.root ++ (name ++ "/" ++ String.ofList rest) := by
      rw [← String.toList_inj, ← hrest]
      simp
    rw [hkey, Layout.oldChains, startsWith_append_append, Bool.eq_iff_iff, startsWith_iff,
      startsWith_iff]
    constructor
    · intro hstarts
      have hslash : (name ++ "/" ++ String.ofList rest).toList = name.toList ++ '/' :: rest := by
        simp
      rw [hslash] at hstarts
      exact prefix_of_prefix_append_slash (by simp [hcons]) (by decide) hstarts
    · intro hstarts
      refine hstarts.trans ?_
      rw [String.append_assoc, String.toList_append]
      exact List.prefix_append _ _

/-- The names of the trees right below the root. -/
def KeySettings.trees (keys : KeySettings) : List String :=
  [keys.deployments, keys.engines, keys.libraries, keys.runtime, keys.oldVariables,
    keys.commonVariables]

theorem KeySettings.isAbsolute_of_mem_trees {keys : KeySettings} (h : keys.check = .ok ())
    {name : String} (hname : name ∈ keys.trees) : isAbsolute name = true := by
  obtain ⟨hparts, -⟩ := KeySettings.check_eq_ok_iff.mp h
  simp only [KeySettings.parts, List.forall_mem_cons] at hparts
  simp only [KeySettings.trees, List.mem_cons, List.not_mem_nil, or_false] at hname
  rcases hname with rfl | rfl | rfl | rfl | rfl | rfl
  all_goals tauto

/-! ## What is deleted -/

namespace KeyValue.Store

variable {store after : Store}

/-- The keys with a property are gone, and all others are there as before, with their values and
the indexes of their last changes. -/
def Clears (store after : Store) (gone : String → Prop) : Prop :=
  ∀ key, (gone key → after.entries.find? key = none) ∧
    (¬ gone key → after.entries.find? key = store.entries.find? key)

/-- A deletion by a start takes away all keys that start so, and no other. -/
theorem clears_delete (store : Store) (path : String) :
    store.Clears (store.delete path true) fun key => startsWith path key = true := by
  intro key
  rw [find?_delete]
  exact ⟨fun hgone => if_pos hgone, fun hstays => if_neg hstays⟩

/-- A store from which some keys are cleared has only fewer of them cleared exactly if it held none
of the others. -/
theorem Clears.iff_of_subset {gone fewer : String → Prop} (h : store.Clears after gone)
    (hsubset : ∀ key, fewer key → gone key) :
    store.Clears after fewer ↔ ∀ key, store.Has key → gone key → fewer key := by
  have hhas : ∀ key, store.Has key ↔ store.entries.find? key ≠ none := by
    intro key
    rw [Has, ← Option.ne_none_iff_exists', stored?, ne_eq, Option.map_eq_none_iff]
  constructor
  · intro hfewer key hkey hgone
    by_contra hother
    refine (hhas key).mp hkey ?_
    rw [← (hfewer key).2 hother, (h key).1 hgone]
  · refine fun honly key => ⟨fun hfewer => (h key).1 (hsubset key hfewer), fun hstays => ?_⟩
    by_cases hgone : gone key
    · have hnone : store.entries.find? key = none := by
        by_contra hsome
        exact hstays (honly key ((hhas key).mpr hsome) hgone)
      rw [(h key).1 hgone, hnone]
    · exact (h key).2 hgone

end KeyValue.Store

/-- **Only what begins like an old tree is deleted.** Whatever is stored, in an accepted layout the
deletion of the old variables takes away the keys below their path and no other. That of the old
chains takes away the keys that begin like the path, and no other; so these are the keys in the tree
of the path exactly if no key is stored that only begins like it. Of the trees right below the root
it takes away those whose names begin like the old one, each of them as a whole. -/
theorem deleteOld_clears (keys : KeySettings) (h : keys.check = .ok ()) (wait : Span)
    (store : Store) :
    let layout := Layout.of keys
    let catalog : Catalog := ⟨layout, wait⟩
    (∃ after, store.serve catalog.deleteOldVariables = some (.ok (), after) ∧
      store.Clears after fun key => startsWith layout.oldVariablesListing key = true) ∧
    ∃ after, store.serve catalog.deleteOldChains = some (.ok (), after) ∧
      store.Clears after (fun key => startsWith layout.oldChains key = true) ∧
      (store.Clears after (IsWithin layout.oldChains) ↔
        ∀ key, store.Has key → startsWith layout.oldChains key = true →
          IsWithin layout.oldChains key) ∧
      ∀ name ∈ keys.trees, ∀ key, IsWithin (layout.root ++ name) key →
        after.entries.find? key
          = if startsWith oldChainsName name = true then none else store.entries.find? key := by
  intro layout catalog
  refine ⟨⟨_, rfl, store.clears_delete _⟩, _, rfl, store.clears_delete _, ?_, ?_⟩
  · exact (store.clears_delete _).iff_of_subset fun _ => IsWithin.startsWith
  · intro name hname key hkey
    have habsolute := KeySettings.isAbsolute_of_mem_trees h hname
    rw [← startsWith_oldChains_of_isWithin habsolute hkey]
    exact Store.find?_delete store layout.oldChains true key

/-- In the usual layout no tree begins like the old one of chains, so all trees stay. -/
theorem deleteOld_clears_usual :
    KeySettings.shape.blank.check = .ok () ∧ ∀ store : Store, ∃ after,
      store.serve (Catalog.usual ⟨0⟩).deleteOldChains = some (.ok (), after) ∧
        ∀ name ∈ KeySettings.shape.blank.trees, ∀ key,
          IsWithin (Layout.usual.root ++ name) key →
            after.entries.find? key = store.entries.find? key := by
  have hcheck : KeySettings.shape.blank.check = .ok () := rfl
  refine ⟨hcheck, fun store => ?_⟩
  obtain ⟨-, after, hserve, -, -, htrees⟩ := deleteOld_clears _ hcheck ⟨0⟩ store
  refine ⟨after, hserve, fun name hname key hkey => ?_⟩
  have hapart : ∀ name ∈ KeySettings.shape.blank.trees,
      ¬ startsWith oldChainsName name = true := by decide
  rw [htrees name hname key hkey, if_neg (hapart name hname)]

/-- A layout whose runtime properties lie in a tree that begins like the old one of chains. -/
def likeOldChains : KeySettings :=
  { KeySettings.shape.blank with runtime := "/chains-runtime-configurations-v2" }

/-- In this layout a chain that was published is gone after the deletion of the old chains, although
its key is not in their tree. -/
theorem deleteOldChains_takes_chain :
    let layout := Layout.of likeOldChains
    let catalog : Catalog := ⟨layout, ⟨0⟩⟩
    let published := ((Store.fresh 1).perform
      (.put (layout.chainKey "orders") (ChainProperties.ofNumber 1).write)).2
    likeOldChains.check = .ok () ∧ ¬ IsWithin layout.oldChains (layout.chainKey "orders") ∧
      published.Has (layout.chainKey "orders") ∧
      ∃ after, published.serve catalog.deleteOldChains = some (.ok (), after) ∧
        ¬ after.Has (layout.chainKey "orders") ∧
        ¬ published.Clears after (IsWithin layout.oldChains) := by
  intro layout catalog published
  have hkey : ¬ IsWithin layout.oldChains (layout.chainKey "orders") := by
    unfold IsWithin
    decide
  have haccepted : (KeyValue.Write.put (layout.chainKey "orders")
      (ChainProperties.ofNumber 1).write).IsAccepted := by
    change isAbsolute _ = true
    decide
  have hput : published.stored? (layout.chainKey "orders")
      = some (some (ChainProperties.ofNumber 1).write) := by
    rw [(Store.stored?_perform haccepted).2, KeyValue.Write.leaves, if_pos rfl]
  have hlost : (published.delete layout.oldChains true).entries.find?
      (layout.chainKey "orders") = none :=
    ((published.clears_delete layout.oldChains) _).1 (by decide)
  refine ⟨rfl, hkey, ⟨_, hput⟩, published.delete layout.oldChains true, rfl, ?_,
    fun hclears => ?_⟩
  · rintro ⟨value, hvalue⟩
    rw [Store.stored?, hlost] at hvalue
    cases hvalue
  · rw [Store.stored?, ← (hclears (layout.chainKey "orders")).2 hkey, hlost] at hput
    cases hput

end EngineCatalog
