import EngineCatalog.Layout.Basic
import EngineCatalog.Proofs.Layout.Key
import EngineCatalog.Settings.Check

/-!
# Keys of chains

The key of a chain is the root of the tree, the marker, the part of chains, and the id of the chain,
with slashes between them. The id is read off the key by its place: it stands two segments after the
first segment that is the marker.

* `KeySettings.PlacesChains` — the first segment that is the marker stands two places before the id.
* `chainId?_chainKey` — where it does, every id is read back; where it does not, all ids are read as
  one and the same. Nothing between the two can happen.

The check of the settings asks for less: that the marker is one segment. The part of chains may have
several, and the marker may be a segment of the root, too.
-/

namespace EngineCatalog

/-! ## The segment after a marker -/

/-- What follows the first marker is read off by its place. -/
theorem segmentAfter?_append_marker {marker between part : List Char}
    {front back : List (List Char)} (h : marker ∉ front) :
    segmentAfter? marker (front ++ marker :: between :: part :: back) = some part := by
  have hdrop : (front ++ marker :: between :: part :: back).dropWhile (· ≠ marker)
      = marker :: between :: part :: back := by
    rw [List.dropWhile_append_of_pos fun segment hsegment => ?_]
    · simp
    · have hne : segment ≠ marker := fun heq => h (heq ▸ hsegment)
      simpa using hne
  rw [segmentAfter?, hdrop]

/-- What stands behind the segment that is read does not matter. -/
theorem segmentAfter?_append {marker part : List Char} {front : List (List Char)}
    (h : segmentAfter? marker front = some part) (back : List (List Char)) :
    segmentAfter? marker (front ++ back) = some part := by
  rw [segmentAfter?] at h ⊢
  rw [List.dropWhile_append]
  split at h
  · rename_i hfront
    rw [hfront]
    exact h
  · cases h

/-- From a marker on, two segments are enough for one to be read. -/
theorem segmentAfter?_of_mem {marker : List Char} {front back : List (List Char)}
    (h : marker ∈ front) (hback : 2 ≤ back.length) :
    ∃ part, segmentAfter? marker (front ++ back) = some part := by
  obtain ⟨before, after, rfl, hbefore⟩ := List.eq_append_cons_of_mem h
  have hlength : 2 ≤ (after ++ back).length := by
    rw [List.length_append]
    omega
  match hrest : after ++ back, hlength with
  | between :: part :: rest, _ =>
    refine ⟨part, ?_⟩
    rw [List.append_assoc, List.cons_append, hrest]
    exact segmentAfter?_append_marker hbefore

/-- The segment that is read stands two places behind the first marker. -/
theorem segmentAfter?_eq_some_iff {marker part : List Char} {parts : List (List Char)} :
    segmentAfter? marker parts = some part ↔ ∃ front between back,
      parts = front ++ marker :: between :: part :: back ∧ marker ∉ front := by
  constructor
  · intro h
    induction parts with
    | nil => cases h
    | cons first more ih =>
      rw [segmentAfter?] at h
      by_cases hfirst : first = marker
      · rw [List.dropWhile_cons_of_neg (by simp [hfirst]), hfirst] at h
        match more, h with
        | between :: found :: back, h =>
          obtain rfl := Option.some.inj h
          exact ⟨[], between, back, hfirst ▸ rfl, List.not_mem_nil⟩
      · rw [List.dropWhile_cons_of_pos (by simp [hfirst])] at h
        obtain ⟨front, between, back, rfl, hfront⟩ := ih h
        refine ⟨first :: front, between, back, rfl, ?_⟩
        rw [List.mem_cons, not_or]
        exact ⟨Ne.symm hfirst, hfront⟩
  · rintro ⟨front, between, back, rfl, hfront⟩
    exact segmentAfter?_append_marker hfront

/-- The key names a chain: its id stands two segments behind the first one that is the marker, and
is not empty. -/
def NamesChain (marker key id : String) : Prop :=
  ∃ front between back,
    segments key.toList = front ++ (trimSlashes marker).toList :: between :: id.toList :: back ∧
      (trimSlashes marker).toList ∉ front ∧ id.toList ≠ []

/-- The id that is read off a key is that of the chain which the key names. -/
theorem chainId?_eq_some_iff {key marker id : String} :
    chainId? key marker = some id ↔ NamesChain marker key id := by
  have hid : chainId? key marker = some id ↔
      segmentAfter? (trimSlashes marker).toList (segments key.toList) = some id.toList ∧
        id.toList ≠ [] := by
    rw [chainId?]
    split
    · rename_i c rest hafter
      rw [hafter, Option.some_inj, Option.some_inj, ← String.toList_inj, String.toList_ofList]
      refine ⟨fun h => ⟨h, h ▸ List.cons_ne_nil c rest⟩, And.left⟩
    · rename_i hnone
      refine ⟨nofun, fun ⟨hafter, hne⟩ => ?_⟩
      obtain ⟨c, rest, hcons⟩ := List.exists_cons_of_ne_nil hne
      exact absurd (hcons ▸ hafter) (hnone c rest)
  rw [hid, segmentAfter?_eq_some_iff, NamesChain]
  constructor
  · rintro ⟨⟨front, between, back, hsegments, hfront⟩, hne⟩
    exact ⟨front, between, back, hsegments, hfront, hne⟩
  · rintro ⟨front, between, back, hsegments, hfront, hne⟩
    exact ⟨⟨front, between, back, hsegments, hfront⟩, hne⟩

/-! ## Accepted layouts -/

/-- A path that is allowed starts with a slash, and goes on. -/
theorem exists_eq_slash_cons {path : String} (h : isAbsolute path = true) :
    ∃ c rest, path.toList = '/' :: c :: rest := by
  rw [isAbsolute] at h
  split at h
  · rename_i c rest hpath
    exact ⟨c, rest, hpath⟩
  · cases h

namespace KeySettings

variable {keys : KeySettings}

/-- The first segment that is the marker stands two places before the id of a chain. -/
def PlacesChains (keys : KeySettings) : Prop :=
  '/' ∉ keys.chains.toList.drop 1 ∧
    (Layout.of keys).marker.toList ∉ segments (Layout.of keys).root.toList

instance (keys : KeySettings) : Decidable keys.PlacesChains :=
  inferInstanceAs (Decidable (_ ∧ _))

/-- A check that refuses nothing. -/
theorem refuseIf_eq_ok_iff {condition : Bool} {message : String} :
    refuseIf condition message = .ok () ↔ condition = false := by
  cases condition
  · exact ⟨fun _ => rfl, fun _ => rfl⟩
  · exact ⟨nofun, nofun⟩

theorem checkPathPart_eq_ok_iff {part : String × String} :
    checkPathPart part = .ok () ↔ isAbsolute part.2 = true := by
  rw [checkPathPart, refuseIf_eq_ok_iff, Bool.not_eq_false']

theorem forM_checkPathPart_eq_ok_iff {parts : List (String × String)} :
    parts.forM checkPathPart = .ok () ↔ ∀ part ∈ parts, isAbsolute part.2 = true := by
  induction parts with
  | nil => exact ⟨fun _ => nofun, fun _ => rfl⟩
  | cons part more ih =>
    rw [List.forall_mem_cons, ← ih, ← checkPathPart_eq_ok_iff]
    change (checkPathPart part >>= fun _ => more.forM checkPathPart) = .ok () ↔ _
    cases checkPathPart part with
    | ok _ => exact ⟨fun hmore => ⟨rfl, hmore⟩, fun h => h.2⟩
    | error message => exact ⟨nofun, fun h => nomatch h.1⟩

/-- What the check of a layout asks for. -/
theorem check_eq_ok_iff :
    keys.check = .ok () ↔ (∀ part ∈ keys.parts, isAbsolute part.2 = true) ∧
      '/' ∉ keys.runtime.toList.drop 1 := by
  rw [← forM_checkPathPart_eq_ok_iff, check]
  cases hparts : keys.parts.forM checkPathPart with
  | ok _ =>
    change refuseIf _ _ = .ok () ↔ _
    rw [refuseIf_eq_ok_iff]
    simp
  | error message => exact ⟨nofun, fun h => nomatch h.1⟩

/-- The marker of an accepted layout is one segment, which stands behind the root. -/
theorem runtime_eq_marker (h : keys.check = .ok ()) :
    keys.runtime.toList = '/' :: (Layout.of keys).marker.toList ∧
      '/' ∉ (Layout.of keys).marker.toList := by
  obtain ⟨hparts, hslash⟩ := check_eq_ok_iff.mp h
  have hruntime : isAbsolute keys.runtime = true :=
    hparts ("runtime_configurations", keys.runtime) (by simp [parts])
  obtain ⟨c, rest, heq⟩ := exists_eq_slash_cons hruntime
  rw [heq, List.drop_one, List.tail_cons] at hslash
  have hc : c ≠ '/' := fun hc => hslash (hc ▸ List.mem_cons_self)
  have hmarker : (Layout.of keys).marker.toList = c :: rest := by
    change (trimSlashes keys.runtime).toList = c :: rest
    rw [trimSlashes, String.toList_ofList, heq]
    simp [hc]
  rw [heq, hmarker]
  exact ⟨rfl, hslash⟩

/-- The segments of the key of a chain, in an accepted layout. The id may have slashes, too. -/
theorem segments_chainKey (h : keys.check = .ok ()) (id : String) :
    segments ((Layout.of keys).chainKey id).toList
      = segments (Layout.of keys).root.toList ++ (Layout.of keys).marker.toList
        :: (segments (keys.chains.toList.drop 1) ++ segments id.toList) := by
  obtain ⟨hruntime, hmarker⟩ := runtime_eq_marker h
  obtain ⟨c, rest, hchains⟩ := exists_eq_slash_cons
    ((check_eq_ok_iff.mp h).1 ("chains", keys.chains) (by simp [parts]))
  have hkey : ((Layout.of keys).chainKey id).toList
      = (((Layout.of keys).root.toList ++ '/' :: (Layout.of keys).marker.toList)
          ++ '/' :: (c :: rest)) ++ '/' :: id.toList := by
    rw [← hruntime, ← hchains]
    simp [Layout.chainKey, Layout.of]
  rw [hkey, segments_append_slash, segments_append_slash, segments_append_slash,
    segments_of_noSlash hmarker, hchains]
  simp

/-- The segment that is read is the id, unless it is empty. -/
theorem chainId?_of_segmentAfter? (h : keys.check = .ok ()) {key : String} {part : List Char}
    (hpart : segmentAfter? (Layout.of keys).marker.toList (segments key.toList) = some part) :
    chainId? key (Layout.of keys).marker
      = if part = [] then none else some (String.ofList part) := by
  have htrim : trimSlashes (Layout.of keys).marker = (Layout.of keys).marker := by
    obtain ⟨-, hslash⟩ := runtime_eq_marker h
    rw [← String.toList_inj, trimSlashes, String.toList_ofList]
    cases hmarker : (Layout.of keys).marker.toList with
    | nil => rfl
    | cons c rest =>
      have hc : c ≠ '/' := fun hc => hslash (hmarker ▸ hc ▸ List.mem_cons_self)
      rw [List.dropWhile_cons, if_neg (by simpa using hc)]
  rw [chainId?, htrim, hpart]
  cases part <;> rfl

/-! ## Reading ids back -/

/-- Where the marker has its place, what is read from a key behind the path of chains is what
stands there up to the next slash. -/
theorem PlacesChains.chainId?_eq_some_iff (hplaces : keys.PlacesChains) (h : keys.check = .ok ())
    {rest id : String} :
    chainId? ((Layout.of keys).chainKey rest) (Layout.of keys).marker = some id
      ↔ isSegment id.toList = true ∧ (rest = id ∨ ∃ part, rest = id ++ "/" ++ part) := by
  obtain ⟨hchains, hroot⟩ := hplaces
  obtain ⟨first, more, hfirst⟩ := exists_segments_eq_cons rest.toList
  have hpart : segmentAfter? (Layout.of keys).marker.toList
      (segments ((Layout.of keys).chainKey rest).toList) = some first := by
    rw [segments_chainKey h rest, segments_of_noSlash hchains, hfirst]
    exact segmentAfter?_append_marker hroot
  have hread : chainId? ((Layout.of keys).chainKey rest) (Layout.of keys).marker = some id
      ↔ id.toList ≠ [] ∧ (segments rest.toList).head? = some id.toList := by
    rw [chainId?_of_segmentAfter? h hpart, hfirst, List.head?_cons, Option.some_inj]
    constructor
    · intro hid
      split at hid
      · cases hid
      · rename_i hne
        obtain rfl := Option.some.inj hid
        rw [String.toList_ofList]
        exact ⟨hne, rfl⟩
    · rintro ⟨hne, rfl⟩
      rw [if_neg hne, String.ofList_toList]
  have hback : (∃ back, rest.toList = id.toList ++ '/' :: back)
      ↔ ∃ part, rest = id ++ "/" ++ part := by
    constructor
    · rintro ⟨back, heq⟩
      refine ⟨String.ofList back, ?_⟩
      rw [← String.toList_inj, heq]
      simp
    · rintro ⟨part, rfl⟩
      exact ⟨part.toList, by simp⟩
  rw [hread, head?_segments_eq_some_iff, isSegment_iff, String.toList_inj, hback, and_assoc]

/-- So the id of a chain is read back from its key. -/
theorem PlacesChains.chainId?_eq_some (hplaces : keys.PlacesChains) (h : keys.check = .ok ())
    {id : String} (hid : isSegment id.toList = true) :
    chainId? ((Layout.of keys).chainKey id) (Layout.of keys).marker = some id :=
  (hplaces.chainId?_eq_some_iff h).mpr ⟨hid, .inl rfl⟩

/-- Where it has not, the segment that is read stands before the id. -/
theorem exists_segmentAfter?_of_not_placesChains (hplaces : ¬ keys.PlacesChains) :
    ∃ part, segmentAfter? (Layout.of keys).marker.toList
      (segments (Layout.of keys).root.toList
        ++ (Layout.of keys).marker.toList :: segments (keys.chains.toList.drop 1)) = some part := by
  by_cases hroot : (Layout.of keys).marker.toList ∈ segments (Layout.of keys).root.toList
  · -- the marker is a segment of the root
    obtain ⟨first, more, hchains⟩ := exists_segments_eq_cons (keys.chains.toList.drop 1)
    refine segmentAfter?_of_mem hroot ?_
    rw [hchains]
    simp
  · -- the part of chains has several segments
    have hchains : '/' ∈ keys.chains.toList.drop 1 := by
      by_contra hslash
      exact hplaces ⟨hslash, hroot⟩
    obtain ⟨before, after, heq⟩ := List.append_of_mem hchains
    obtain ⟨first, more, hbefore⟩ := exists_segments_eq_cons before
    obtain ⟨second, others, hafter⟩ := exists_segments_eq_cons after
    rw [heq, segments_append_slash, hbefore, hafter]
    cases more with
    | nil => exact ⟨second, segmentAfter?_append_marker hroot⟩
    | cons next more => exact ⟨next, segmentAfter?_append_marker hroot⟩

theorem chainId?_eq_of_not_placesChains (hplaces : ¬ keys.PlacesChains)
    (h : keys.check = .ok ()) :
    ∃ found, ∀ id : String, isSegment id.toList = true →
      chainId? ((Layout.of keys).chainKey id) (Layout.of keys).marker = found := by
  obtain ⟨part, hpart⟩ := exists_segmentAfter?_of_not_placesChains hplaces
  refine ⟨if part = [] then none else some (String.ofList part), fun id _ => ?_⟩
  refine chainId?_of_segmentAfter? h ?_
  rw [segments_chainKey h id, ← List.cons_append, ← List.append_assoc]
  exact segmentAfter?_append hpart _

/-- **Ids of chains are read back exactly where the marker has its place.** In every layout that is
accepted, if the first segment that is the marker stands two places before the id, every id is read
back from its key. Otherwise the segment that is read stands before the id, so that all ids are read
as one and the same, and of two chains one at least is read under a wrong id or not at all. -/
theorem chainId?_chainKey (keys : KeySettings) (h : keys.check = .ok ()) :
    (keys.PlacesChains → ∀ id : String, isSegment id.toList = true →
      chainId? ((Layout.of keys).chainKey id) (Layout.of keys).marker = some id) ∧
    (¬ keys.PlacesChains → ∃ found, ∀ id : String, isSegment id.toList = true →
      chainId? ((Layout.of keys).chainKey id) (Layout.of keys).marker = found) :=
  ⟨fun hplaces _ hid => hplaces.chainId?_eq_some h hid,
    fun hplaces => chainId?_eq_of_not_placesChains hplaces h⟩

/-- A layout whose part of chains has two segments. -/
def deepChains : KeySettings :=
  { KeySettings.shape.blank with chains := "/team/chains" }

/-- A layout whose root has the marker among its segments. -/
def markedRoot : KeySettings :=
  { KeySettings.shape.blank with base := "/runtime-configurations/local" }

/-- The usual layout reads every id back; one with a deeper part of chains reads none apart. -/
theorem chainId?_chainKey_usual_deepChains :
    KeySettings.shape.blank.check = .ok () ∧ deepChains.check = .ok () ∧
      (∀ id : String, isSegment id.toList = true →
        chainId? ((Layout.of KeySettings.shape.blank).chainKey id)
          (Layout.of KeySettings.shape.blank).marker = some id) ∧
      ∃ found, ∀ id : String, isSegment id.toList = true →
        chainId? ((Layout.of deepChains).chainKey id) (Layout.of deepChains).marker = found := by
  have husual : KeySettings.shape.blank.check = .ok () := rfl
  have hdeep : deepChains.check = .ok () := rfl
  exact ⟨husual, hdeep, (chainId?_chainKey _ husual).1 (by decide),
    (chainId?_chainKey _ hdeep).2 (by decide)⟩

/-- In two accepted layouts a chain is read under a segment of its path, and not under its id. -/
theorem chainId?_chainKey_lost :
    isSegment "orders".toList = true ∧
      (deepChains.check = .ok () ∧
        chainId? ((Layout.of deepChains).chainKey "orders") (Layout.of deepChains).marker
          = some "chains") ∧
      markedRoot.check = .ok () ∧
        chainId? ((Layout.of markedRoot).chainKey "orders") (Layout.of markedRoot).marker
          = some "qip-engine-configurations" := by
  refine ⟨by decide, ⟨rfl, by decide⟩, rfl, by decide⟩

end KeySettings

end EngineCatalog
