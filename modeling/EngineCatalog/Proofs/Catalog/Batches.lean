import EngineCatalog.Catalog.Decode
import EngineCatalog.Proofs.Dict.Lookup
import EngineCatalog.Proofs.Layout.Chain

/-!
# Batches, entry by entry

What becomes of one entry of a batch is said by rules, apart from the reading (`EngineVerdict`,
`ChainVerdict`); each entry falls under one verdict only. Main statement: a batch falls into the
entries that are passed over, those that decode and those that fail, in its order, and what is given
back depends on these parts alone. Where none fails it is what decoded; where some do, all of them
are reported, with the payload that the batch without them comes to (`batches_split`).

* `Parts`, `Splits` — the parts of a batch, one rule for each verdict.
* `Splits.kept` — without the entries that failed, the others fall into the same parts.
* `Reports` — what is given back for a batch that falls into parts.
-/

namespace EngineCatalog.Catalog

open KeyValue (Entry)
open Text (Bytes)

/-! ## What becomes of an entry -/

/-- What becomes of an entry below the path of engines. -/
inductive EngineVerdict (path : String) : Entry → Verdict EngineState → Prop where
  /-- its key is not that of a direct child of the path -/
  | elsewhere {entry : Entry}
    (h : ∀ child : String, isSegment child.toList = true → entry.key ≠ path ++ "/" ++ child) :
    EngineVerdict path entry .skipped
  /-- it has no value -/
  | empty {entry : Entry} (h : entry.value = none) : EngineVerdict path entry .skipped
  /-- it is a direct child, and its value is a report -/
  | report {child : String} {bytes : Bytes} {modified : Nat} {state : EngineState}
    (hchild : isSegment child.toList = true) (hread : EngineState.reader.run bytes = .ok state) :
    EngineVerdict path ⟨path ++ "/" ++ child, some bytes, modified⟩ (.decoded state)
  /-- it is a direct child, and its value is no report -/
  | noReport {child : String} {bytes : Bytes} {modified : Nat} {fault : Json.Fault}
    (hchild : isSegment child.toList = true) (hread : EngineState.reader.run bytes = .error fault) :
    EngineVerdict path ⟨path ++ "/" ++ child, some bytes, modified⟩ (.failed fault.message)

/-- What becomes of an entry below the path of chains. -/
inductive ChainVerdict (marker : String) : Entry → Verdict (String × ChainProperties) → Prop where
  /-- its key names no chain -/
  | elsewhere {entry : Entry} (h : ∀ id, ¬ NamesChain marker entry.key id) :
    ChainVerdict marker entry .skipped
  /-- its key names a chain, and it has no value -/
  | empty {key id : String} {modified : Nat} (hid : NamesChain marker key id) :
    ChainVerdict marker ⟨key, none, modified⟩ (.failed "no value stored")
  /-- its key names a chain, and its value gives properties -/
  | properties {key id : String} {bytes : Bytes} {modified : Nat} {properties : ChainProperties}
    (hid : NamesChain marker key id) (hread : ChainProperties.reader.run bytes = .ok properties) :
    ChainVerdict marker ⟨key, some bytes, modified⟩ (.decoded (id, properties))
  /-- its key names a chain, and its value gives no properties -/
  | noProperties {key id : String} {bytes : Bytes} {modified : Nat} {fault : Json.Fault}
    (hid : NamesChain marker key id) (hread : ChainProperties.reader.run bytes = .error fault) :
    ChainVerdict marker ⟨key, some bytes, modified⟩ (.failed fault.message)

theorem judgeEngine_eq_iff (path : String) (entry : Entry) (verdict : Verdict EngineState) :
    judgeEngine path entry = verdict ↔ EngineVerdict path entry verdict := by
  constructor
  · rintro rfl
    obtain ⟨key, value, modified⟩ := entry
    rw [judgeEngine]
    cases hchild : childKey? path key with
    | none =>
      refine .elsewhere fun child hsegment heq => ?_
      rw [childKey?_eq_some_iff.mpr ⟨hsegment, heq⟩] at hchild
      cases hchild
    | some child =>
      obtain ⟨hsegment, rfl⟩ := childKey?_eq_some_iff.mp hchild
      cases value with
      | none => exact .empty rfl
      | some bytes =>
        cases hread : EngineState.reader.run bytes with
        | ok state =>
          dsimp only
          rw [hread]
          exact .report hsegment hread
        | error fault =>
          dsimp only
          rw [hread]
          exact .noReport hsegment hread
  · intro h
    cases h with
    | elsewhere h =>
      rw [judgeEngine, if_pos]
      rw [Option.isNone_iff_eq_none, Option.eq_none_iff_forall_ne_some]
      intro child hchild
      obtain ⟨hsegment, heq⟩ := childKey?_eq_some_iff.mp hchild
      exact h child hsegment heq
    | empty h =>
      rw [judgeEngine, h]
      split <;> rfl
    | report hchild hread =>
      rw [judgeEngine, childKey?_eq_some_iff.mpr ⟨hchild, rfl⟩]
      dsimp only
      rw [hread]
      rfl
    | noReport hchild hread =>
      rw [judgeEngine, childKey?_eq_some_iff.mpr ⟨hchild, rfl⟩]
      dsimp only
      rw [hread]
      rfl

theorem judgeChain_eq_iff (marker : String) (entry : Entry)
    (verdict : Verdict (String × ChainProperties)) :
    judgeChain marker entry = verdict ↔ ChainVerdict marker entry verdict := by
  constructor
  · rintro rfl
    obtain ⟨key, value, modified⟩ := entry
    rw [judgeChain]
    cases hid : chainId? key marker with
    | none =>
      refine .elsewhere fun id hnames => ?_
      rw [chainId?_eq_some_iff.mpr hnames] at hid
      cases hid
    | some id =>
      have hnames := chainId?_eq_some_iff.mp hid
      cases value with
      | none => exact .empty hnames
      | some bytes =>
        cases hread : ChainProperties.reader.run bytes with
        | ok properties =>
          dsimp only
          rw [hread]
          exact .properties hnames hread
        | error fault =>
          dsimp only
          rw [hread]
          exact .noProperties hnames hread
  · intro h
    cases h with
    | elsewhere h =>
      have hnone : chainId? entry.key marker = none := by
        rw [Option.eq_none_iff_forall_ne_some]
        exact fun id hid => h id (chainId?_eq_some_iff.mp hid)
      rw [judgeChain, hnone]
    | empty hid => rw [judgeChain, chainId?_eq_some_iff.mpr hid]
    | properties hid hread =>
      rw [judgeChain, chainId?_eq_some_iff.mpr hid]
      dsimp only
      rw [hread]
      rfl
    | noProperties hid hread =>
      rw [judgeChain, chainId?_eq_some_iff.mpr hid]
      dsimp only
      rw [hread]
      rfl

/-! ## The parts of a batch -/

/-- The parts of a batch. -/
structure Parts (α : Type) where
  /-- the entries that are passed over -/
  skipped : List Entry
  /-- the entries that decode, each with what it decodes to -/
  decoded : List (Entry × α)
  /-- the entries that do not decode, each with the reason -/
  failed : List (Entry × String)
  /-- the batch without the entries that do not decode -/
  kept : List Entry

/-- The batch falls into the parts, each of its entries into the one that its verdict says. -/
inductive Splits {α : Type} (judged : Entry → Verdict α → Prop) :
    List Entry → Parts α → Prop where
  /-- there are no entries -/
  | nil : Splits judged [] ⟨[], [], [], []⟩
  /-- the first entry is passed over -/
  | skipped {entry : Entry} {more : List Entry} {parts : Parts α} (h : judged entry .skipped)
    (rest : Splits judged more parts) :
    Splits judged (entry :: more)
      { parts with skipped := entry :: parts.skipped, kept := entry :: parts.kept }
  /-- the first entry decodes -/
  | decoded {entry : Entry} {more : List Entry} {parts : Parts α} {value : α}
    (h : judged entry (.decoded value)) (rest : Splits judged more parts) :
    Splits judged (entry :: more)
      { parts with decoded := (entry, value) :: parts.decoded, kept := entry :: parts.kept }
  /-- the first entry does not decode -/
  | failed {entry : Entry} {more : List Entry} {parts : Parts α} {reason : String}
    (h : judged entry (.failed reason)) (rest : Splits judged more parts) :
    Splits judged (entry :: more) { parts with failed := (entry, reason) :: parts.failed }

/-- What is said of the entries that failed. -/
def Parts.undecoded {α : Type} (parts : Parts α) : List UndecodedKey :=
  parts.failed.map fun failed => ⟨failed.1.key, failed.2⟩

/-- What the entries decode to, in order. -/
def Parts.values {α : Type} (parts : Parts α) : List α :=
  parts.decoded.map Prod.snd

section Splits

variable {α : Type} {judge : Entry → Verdict α} {judged : Entry → Verdict α → Prop}
  {entries : List Entry} {parts : Parts α}

/-- Without the entries that failed, the others fall into the same parts. -/
theorem Splits.kept (h : Splits judged entries parts) :
    Splits judged parts.kept { parts with failed := [] } := by
  induction h with
  | nil => exact .nil
  | skipped hentry _ ih => exact .skipped hentry ih
  | decoded hentry _ ih => exact .decoded hentry ih
  | failed _ _ ih => exact ih

variable (hjudge : ∀ entry verdict, judge entry = verdict ↔ judged entry verdict)

include hjudge

/-- Every batch falls into parts. -/
theorem exists_splits (entries : List Entry) : ∃ parts, Splits judged entries parts := by
  induction entries with
  | nil => exact ⟨_, .nil⟩
  | cons entry more ih =>
    obtain ⟨parts, hparts⟩ := ih
    have hentry := (hjudge entry _).mp rfl
    cases hverdict : judge entry with
    | skipped => exact ⟨_, .skipped (hverdict ▸ hentry) hparts⟩
    | decoded value => exact ⟨_, .decoded (hverdict ▸ hentry) hparts⟩
    | failed reason => exact ⟨_, .failed (hverdict ▸ hentry) hparts⟩

/-- It falls into one way of parts only, as an entry has one verdict only. -/
theorem Splits.unique (h : Splits judged entries parts) {other : Parts α}
    (hother : Splits judged entries other) : other = parts := by
  have honly : ∀ {entry : Entry} {one two : Verdict α}, judged entry one → judged entry two →
      one = two := fun hone htwo =>
    ((hjudge _ _).mpr hone).symm.trans ((hjudge _ _).mpr htwo)
  induction h generalizing other with
  | nil =>
    cases hother
    rfl
  | skipped hentry _ ih =>
    cases hother with
    | skipped _ hmore => rw [ih hmore]
    | decoded hagain _ => cases honly hentry hagain
    | failed hagain _ => cases honly hentry hagain
  | decoded hentry _ ih =>
    cases hother with
    | skipped hagain _ => cases honly hentry hagain
    | decoded hagain hmore =>
      cases honly hentry hagain
      rw [ih hmore]
    | failed hagain _ => cases honly hentry hagain
  | failed hentry _ ih =>
    cases hother with
    | skipped hagain _ => cases honly hentry hagain
    | decoded hagain _ => cases honly hentry hagain
    | failed hagain hmore =>
      cases honly hentry hagain
      rw [ih hmore]

theorem Splits.decoded_eq (h : Splits judged entries parts) :
    Catalog.decoded judge entries = parts.values := by
  induction h with
  | nil => rfl
  | skipped hentry _ ih =>
    rw [Catalog.decoded, List.filterMap_cons, (hjudge _ _).mpr hentry]
    exact ih
  | decoded hentry _ ih =>
    rw [Catalog.decoded, List.filterMap_cons, (hjudge _ _).mpr hentry]
    exact congrArg (List.cons _) ih
  | failed hentry _ ih =>
    rw [Catalog.decoded, List.filterMap_cons, (hjudge _ _).mpr hentry]
    exact ih

theorem Splits.failures_eq (h : Splits judged entries parts) :
    failures judge entries = parts.undecoded := by
  induction h with
  | nil => rfl
  | skipped hentry _ ih =>
    rw [failures, List.filterMap_cons, (hjudge _ _).mpr hentry]
    exact ih
  | decoded hentry _ ih =>
    rw [failures, List.filterMap_cons, (hjudge _ _).mpr hentry]
    exact ih
  | failed hentry _ ih =>
    rw [failures, List.filterMap_cons, (hjudge _ _).mpr hentry]
    exact congrArg (List.cons _) ih

theorem Splits.collect_of_all (h : Splits judged entries parts) (hnone : parts.failed = [])
    (resource : String) (rest : List α → Decoded) :
    collect resource judge rest entries = .ok parts.values := by
  rw [collect, h.failures_eq hjudge, h.decoded_eq hjudge, Parts.undecoded, hnone]
  rfl

theorem Splits.collect_of_some (h : Splits judged entries parts) (hsome : parts.failed ≠ [])
    (resource : String) (rest : List α → Decoded) :
    collect resource judge rest entries
      = .error (.undecodable ⟨resource, parts.undecoded, rest parts.values⟩) := by
  rw [collect, h.failures_eq hjudge, h.decoded_eq hjudge, if_neg]
  rw [List.isEmpty_iff, Parts.undecoded, List.map_eq_nil_iff]
  exact hsome

end Splits

/-! ## What is given back -/

/-- What is given back for a batch that falls into parts, where the payload of these is given;
`rest` says in which form a payload stands beside failures. -/
structure Reports {α β : Type} (decode : List Entry → Outcome β) (resource : String)
    (rest : β → Decoded) (entries : List Entry) (parts : Parts α) (payload : β) : Prop where
  /-- it succeeds if no entry fails, and only then -/
  ok_iff : (∃ found, decode entries = .ok found) ↔ parts.failed = []
  /-- then the payload is given back -/
  decoded : parts.failed = [] → decode entries = .ok payload
  /-- otherwise all entries that fail are reported, with the same payload beside them -/
  undecodable : parts.failed ≠ [] →
    decode entries = .error (.undecodable ⟨resource, parts.undecoded, rest payload⟩)
  /-- which is what is given back for the batch without the entries that fail -/
  kept : decode parts.kept = .ok payload

theorem Splits.reports {α β : Type} {judge : Entry → Verdict α}
    {judged : Entry → Verdict α → Prop} {entries : List Entry} {parts : Parts α}
    (h : Splits judged entries parts)
    (hjudge : ∀ entry verdict, judge entry = verdict ↔ judged entry verdict) (resource : String)
    (rest : β → Decoded) (payload : List α → β) :
    Reports (fun entries => (collect resource judge (rest ∘ payload) entries).map payload) resource
      rest entries parts (payload parts.values) where
  ok_iff := by
    constructor
    · rintro ⟨found, hfound⟩
      by_contra hsome
      rw [h.collect_of_some hjudge hsome] at hfound
      cases hfound
    · intro hnone
      refine ⟨payload parts.values, ?_⟩
      rw [h.collect_of_all hjudge hnone]
      rfl
  decoded hnone := by
    rw [h.collect_of_all hjudge hnone]
    rfl
  undecodable hsome := by
    rw [h.collect_of_some hjudge hsome]
    rfl
  kept := by
    rw [h.kept.collect_of_all hjudge rfl]
    rfl

/-- Of the entries that decode, the last one with this id gives these properties. -/
def Parts.IsLast (parts : Parts (String × ChainProperties)) (id : String)
    (properties : ChainProperties) : Prop :=
  ∃ front entry back, parts.decoded = front ++ (entry, id, properties) :: back ∧
    ∀ later ∈ back, later.2.1 ≠ id

/-- Of entries with one id the last one counts. -/
theorem find?_ofList_values_iff {parts : Parts (String × ChainProperties)} {id : String}
    {properties : ChainProperties} :
    (Dict.ofList parts.values).find? id = some properties ↔ parts.IsLast id properties := by
  have hvalues : parts.values = parts.decoded.filterMap fun decoded => some decoded.2 := by
    rw [Parts.values, List.filterMap_eq_map']
  rw [Dict.ofList, Dict.find?_insertAll, Dict.find?_empty, Option.or_none, hvalues,
    Sorted.find?_reverse_filterMap_eq_some_iff, Parts.IsLast]
  constructor
  · rintro ⟨front, ⟨entry, value⟩, back, hsplit, hvalue, hback⟩
    obtain rfl := Option.some.inj hvalue
    refine ⟨front, entry, back, hsplit, ?_⟩
    rintro ⟨_, _, other⟩ hlater rfl
    exact hback _ hlater other rfl
  · rintro ⟨front, entry, back, hsplit, hback⟩
    refine ⟨front, _, back, hsplit, rfl, fun later hlater other hother => ?_⟩
    exact hback later hlater (congrArg Prod.fst (Option.some.inj hother))

/-- **Batches are split entry by entry.** Every batch of engines or of chains falls into parts in
one way. It is given back what decoded if no entry fails, and otherwise all entries that fail, with
what is given back for the others; of several entries about one chain the last one that decodes
counts. -/
theorem batches_split (entries : List Entry) :
    (∀ path, ∃ parts, Splits (EngineVerdict path) entries parts ∧
      (∀ other, Splits (EngineVerdict path) entries other → other = parts) ∧
      Reports (engineStates path) "engines state" .engines entries parts parts.values) ∧
    ∀ marker, ∃ parts, Splits (ChainVerdict marker) entries parts ∧
      (∀ other, Splits (ChainVerdict marker) entries other → other = parts) ∧
      ∃ chains : Dict ChainProperties,
        (∀ id properties, chains.find? id = some properties ↔ parts.IsLast id properties) ∧
        Reports (chainProperties marker) "chains runtime configuration" .chains entries parts
          chains := by
  constructor
  · intro path
    obtain ⟨parts, hparts⟩ := exists_splits (judgeEngine_eq_iff path) entries
    have hreports := hparts.reports (judgeEngine_eq_iff path) "engines state" Decoded.engines id
    have hdecode : (fun entries => (collect "engines state" (judgeEngine path)
        (Decoded.engines ∘ id) entries).map id) = engineStates path := by
      funext batch
      exact id_map (collect "engines state" (judgeEngine path) Decoded.engines batch)
    rw [hdecode] at hreports
    exact ⟨parts, hparts, fun _ => hparts.unique (judgeEngine_eq_iff path), hreports⟩
  · intro marker
    obtain ⟨parts, hparts⟩ := exists_splits (judgeChain_eq_iff marker) entries
    exact ⟨parts, hparts, fun _ => hparts.unique (judgeChain_eq_iff marker),
      Dict.ofList parts.values, fun _ _ => find?_ofList_values_iff,
      hparts.reports (judgeChain_eq_iff marker) _ _ Dict.ofList⟩

end EngineCatalog.Catalog
