import EngineCatalog.Proofs.Json.Agree
import EngineCatalog.Proofs.Json.Payload

/-!
# What a payload keeps of the text it is read from

A payload is read from a text and written again, by a catalog that may know less of it than the one
who wrote it. A library keeps each member, and so does the report of an engine, with one exception:
within `engine` only the three declared members come back. The report is covered by what is written
again exactly if `engine` is an object that has no others (`rewritten_covers`).
-/

namespace EngineCatalog

open Text (Bytes)
open Json (Covers Field Plain ReadsBack Record Writes readWritten)

/-! ## Written again -/

namespace Json

theorem readsBack_writtenText (text : String) (depth : Nat) :
    ReadsBack (readWritten depth) (write (.text text)) (.text text) :=
  readsBack_written (fits_text _ _) (.text _)

theorem readsBack_writtenOptionalText (text : Option String) (depth : Nat) :
    ReadsBack (readWritten depth) (write (optionalText text)) (optionalText text) := by
  refine readsBack_written ?_ (floatFree_optionalText text)
  cases text <;> simp [optionalText]

end Json

namespace Json.Record.Kept

variable {α : Type} {record : Record α} {depth : Nat} {details : Dict Json}
  {front : List (String × Json)}

/-- Fields and what is kept, written one after the other, are a document. -/
theorem writes (h : record.Kept depth details)
    (hfront : ∀ member ∈ front, ReadsBack (readWritten depth) (write member.2) member.2)
    (hplain : ∀ entry ∈ details.entries, Plain entry.2) :
    Writes (write (.object (front ++ details.entries))) (.object (front ++ details.entries)) :=
  (readsBack_writtenObject (List.forall_mem_append.mpr ⟨hfront, fun entry hentry =>
    readsBack_written (h.fits.2 entry hentry) (hplain entry hentry).floatFree⟩)).writes

/-- Fields and what is kept have no name in common. -/
theorem plain (h : record.Kept depth details)
    (hnames : front.map Prod.fst = record.fields.map Field.name)
    (hfront : Plain (.object front)) (hplain : ∀ entry ∈ details.entries, Plain entry.2) :
    Plain (.object (front ++ details.entries)) := by
  refine .object ?_ (List.forall_mem_append.mpr ⟨hfront.values, hplain⟩)
  rw [List.map_append, List.nodup_append]
  refine ⟨hfront.nodup, details.nodup_keys, ?_⟩
  rintro name hname _ hkept rfl
  obtain ⟨entry, hentry, rfl⟩ := List.mem_map.mp hkept
  have hcontains := Dict.contains_of_find? (Dict.mem_entries_iff.mp hentry)
  rw [h.no_field entry.1 (hnames ▸ hname)] at hcontains
  cases hcontains

end Json.Record.Kept

/-- What is kept is there again behind the fields, put in order. -/
theorem Json.Record.AllKept.mem {α : Type} {record : Record α} {details : Dict Json}
    {members : List (String × Json)} (h : record.AllKept details members)
    (front : List (String × Json)) (hplain : Plain (.object members)) {member : String × Json}
    (hmember : member ∈ members) (hfield : member.1 ∉ record.fields.map Field.name) :
    (member.1, member.2.ordered) ∈ front ++ details.entries :=
  List.mem_append_right _ (Dict.mem_entries_iff.mpr ((h hplain).1 member hmember hfield))

/-! ## Engines -/

namespace EngineInfo

/-- The names of the declared fields. -/
def declared : List String := ["host", "domain", "engineDeploymentName"]

/-- The declared fields of an engine's info are what they are in the text. -/
theorem shows (depth : Nat) : record.Shows depth fun info name document =>
    (name, document) ∈ info.toJson.members where
  field := by
    intro field hfield
    simp only [record, List.mem_cons, List.not_mem_nil, or_false] at hfield
    rcases hfield with rfl | rfl | rfl
    · refine (Json.agrees_text depth).map _ ?_
      rintro text _ rfl info
      simp [toJson, Json.members]
      tauto
    · refine (Json.agrees_optionalText depth).map _ ?_
      rintro text _ rfl info
      simp [toJson, Json.members]
      tauto
    · refine (Json.agrees_optionalText depth).map _ ?_
      rintro text _ rfl info
      simp [toJson, Json.members]
      tauto
  keep := nofun

theorem plain (info : EngineInfo) : Plain info.toJson := by
  simp [toJson]

/-- An engine's info is its own document. -/
theorem readsBack_written (info : EngineInfo) (depth : Nat) :
    ReadsBack (readWritten (depth + 1)) (Json.write info.toJson) info.toJson := by
  refine Json.readsBack_writtenObject ?_
  simp [Json.readsBack_writtenText, Json.readsBack_writtenOptionalText]

/-- Of the members of an object that is read as an engine's info, the declared ones are written
again as they are, and no others. -/
theorem mem_iff {info : EngineInfo} {fields : List (String × Json)}
    (hshown : record.FieldsShown (fun info name document => (name, document) ∈ info.toJson.members)
      info fields) (hnodup : (fields.map Prod.fst).Nodup) :
    ∀ field ∈ fields, field ∈ info.toJson.members ↔ field.1 ∈ declared :=
  fun field hfield => ⟨@List.mem_map_of_mem _ _ _ _ Prod.fst, hshown hnodup field hfield⟩

end EngineInfo

namespace EngineState

/-- What the engine in a report is, it is by its own fields. -/
theorem shows (depth : Nat) : record.Shows (depth + 1) fun state name document =>
    name = "engine" → ∀ fields, document = .object fields → EngineInfo.record.FieldsShown
      (fun info name document => (name, document) ∈ info.toJson.members) state.engine fields where
  field := by
    intro field hfield
    obtain rfl := List.mem_singleton.mp hfield
    refine (EngineInfo.shows depth).agrees.map _ ?_
    intro info document hinfo state
    exact ⟨fun _ => hinfo, fun name other hname _ hengine => absurd hengine hname⟩
  keep := by
    intro keep hkeep name value state name' other hshown
    obtain rfl := Option.some.inj hkeep
    exact hshown

/-- The engine is an object that has none but the declared members. -/
def OnlyDeclared (members : List (String × Json)) : Prop :=
  ∀ engine, ("engine", engine) ∈ members → ∃ fields, engine = .object fields ∧
    ∀ field ∈ fields, field.1 ∈ EngineInfo.declared

/-- A report, and the text it is read from: all members beside the engine are written again, and of
those of the engine the declared ones. -/
structure Rewritten (state : EngineState) (members : List (String × Json)) : Prop where
  /-- what is written is a document -/
  writes : Writes (Json.write state.toJson) state.toJson
  /-- it is plain -/
  plain : Plain state.toJson
  /-- members beside the engine are there again, up to the order within them -/
  beside : ∀ member ∈ members, member.1 ≠ "engine" →
    (member.1, member.2.ordered) ∈ state.toJson.members
  /-- members of the engine are there again if they are declared, and only then -/
  within : ∀ fields, ("engine", .object fields) ∈ members →
    ∀ field ∈ fields, field ∈ state.engine.toJson.members ↔ field.1 ∈ EngineInfo.declared
  /-- all is there again if there are no other members of the engine, and only then -/
  covers_iff : Covers (.object members) state.toJson ↔ OnlyDeclared members

theorem rewritten {bytes : Bytes} {members : List (String × Json)} {state : EngineState}
    (hwritten : Writes bytes (.object members)) (hplain : Plain (.object members))
    (hread : reader.run bytes = .ok state) : state.Rewritten members := by
  obtain ⟨limit, after, hdocument⟩ := hwritten.exists_read
  obtain ⟨rest, hstate⟩ := Json.exists_of_run hread
  have hkept := keepsIn_details.kept hstate
  have hall := keepsIn_details.allKept (shows 125) hstate hdocument
  have hengine := ((shows 125).agrees hstate hdocument).2 members rfl hplain.nodup
  have hentries := (hall hplain).2
  have hbeside : ∀ member ∈ members, member.1 ≠ "engine" →
      (member.1, member.2.ordered) ∈ state.toJson.members := fun member hmember hname =>
    hall.mem [("engine", state.engine.toJson)] hplain hmember (by simpa [record] using hname)
  have hwithin : ∀ fields, ("engine", .object fields) ∈ members →
      ∀ field ∈ fields, field ∈ state.engine.toJson.members ↔ field.1 ∈ EngineInfo.declared :=
    fun fields hmember => EngineInfo.mem_iff
      (hengine _ hmember (List.mem_singleton.mpr rfl) rfl _ rfl) (hplain.values _ hmember).nodup
  refine ⟨hkept.writes (List.forall_mem_singleton.mpr (state.engine.readsBack_written 125)) hentries,
    @Record.Kept.plain _ _ _ _ [("engine", state.engine.toJson)] hkept rfl
      (.object (by simp) (List.forall_mem_singleton.mpr state.engine.plain)) hentries,
    hbeside, hwithin, fun h engine hmember => ?_,
    fun h => Json.covers_object_iff.mpr fun member hmember => ?_⟩
  · obtain ⟨other, hother, hvalue⟩ := Json.covers_object_iff.mp h _ hmember
    rcases List.mem_cons.mp hother with heq | hdetail
    · obtain rfl := (Prod.mk.inj heq).2
      obtain ⟨fields, rfl⟩ := Json.exists_of_covers_object hvalue
      refine ⟨fields, rfl, fun field hfield => ?_⟩
      obtain ⟨_, hother, -⟩ := Json.covers_object_iff.mp hvalue field hfield
      exact @List.mem_map_of_mem _ _ _ _ Prod.fst hother
    · -- what is kept is not the engine
      have hcontains := Dict.contains_of_find? (Dict.mem_entries_iff.mp hdetail)
      rw [hkept.no_field "engine" (List.mem_singleton.mpr rfl)] at hcontains
      cases hcontains
  · by_cases hname : member.1 = "engine"
    · obtain ⟨name, engine⟩ := member
      obtain rfl : name = "engine" := hname
      obtain ⟨fields, rfl, hfields⟩ := h engine hmember
      have hcovers : Covers (.object fields) state.engine.toJson :=
        Json.covers_object_iff.mpr fun field hfield =>
          ⟨field.2, (hwithin fields hmember field hfield).mpr (hfields field hfield),
            ((hplain.values _ hmember).values field hfield).covers_self⟩
      exact ⟨state.engine.toJson, List.mem_cons_self, hcovers⟩
    · exact ⟨_, hbeside member hmember hname, (hplain.values member hmember).covers_ordered⟩

end EngineState

/-! ## Libraries -/

namespace LibraryUpdate

/-- The declared fields of a library, as they are written. -/
def declared (library : LibraryUpdate) : List (String × Json) :=
  [("specificationId", .text library.specificationId),
    ("version", Json.optionalText library.version)]

/-- The declared fields of a library are what they are in the text. -/
theorem shows (depth : Nat) : record.Shows depth fun library name document =>
    (name, document) ∈ library.declared where
  field := by
    intro field hfield
    simp only [record, List.mem_cons, List.not_mem_nil, or_false] at hfield
    rcases hfield with rfl | rfl
    · refine (Json.agrees_text depth).map _ ?_
      rintro text _ rfl library
      simp [declared]
      tauto
    · refine (Json.agrees_optionalText depth).map _ ?_
      rintro text _ rfl library
      simp [declared]
      tauto
  keep := by
    intro keep hkeep name value library name' other hshown
    obtain rfl := Option.some.inj hkeep
    exact hshown

/-- A library, and the text it is read from: all members are written again. -/
structure Rewritten (library : LibraryUpdate) (members : List (String × Json)) : Prop where
  /-- what is written is a document -/
  writes : Writes (Json.write library.toJson) library.toJson
  /-- it is plain -/
  plain : Plain library.toJson
  /-- each member is there again, up to the order within it -/
  mem : ∀ member ∈ members, (member.1, member.2.ordered) ∈ library.toJson.members
  /-- and so all is there again -/
  covers : Covers (.object members) library.toJson

theorem rewritten {bytes : Bytes} {members : List (String × Json)} {library : LibraryUpdate}
    (hwritten : Writes bytes (.object members)) (hplain : Plain (.object members))
    (hread : reader.run bytes = .ok library) : library.Rewritten members := by
  obtain ⟨limit, after, hdocument⟩ := hwritten.exists_read
  obtain ⟨rest, hlibrary⟩ := Json.exists_of_run hread
  have hkept := keepsIn_details.kept hlibrary
  have hall := keepsIn_details.allKept (shows 126) hlibrary hdocument
  have hshown := ((shows 126).agrees hlibrary hdocument).2 members rfl hplain.nodup
  have hentries := (hall hplain).2
  have hfront : Plain (.object library.declared) := by simp [declared]
  have hwrites : ∀ field ∈ library.declared,
      ReadsBack (readWritten 126) (Json.write field.2) field.2 := by
    simp [declared, Json.readsBack_writtenText, Json.readsBack_writtenOptionalText]
  have hordered : ∀ field ∈ library.declared, field.2.ordered = field.2 := by
    simp [declared, Json.ordered, Json.ordered_optionalText]
  have hmem : ∀ member ∈ members, (member.1, member.2.ordered) ∈ library.toJson.members := by
    intro member hmember
    by_cases hname : member.1 ∈ record.fields.map Field.name
    · have hfield := hshown member hmember hname
      rw [hordered member hfield]
      exact List.mem_append_left _ hfield
    · exact hall.mem library.declared hplain hmember hname
  exact ⟨hkept.writes hwrites hentries, hkept.plain rfl hfront hentries, hmem,
    Json.covers_object_iff.mpr fun member hmember =>
      ⟨_, hmem member hmember, (hplain.values member hmember).covers_ordered⟩⟩

end LibraryUpdate

/-! ## Payloads -/

/-- **Members are written again.** A plain object that is read as a library has all of its members
in the library that is written again. Of one that is read as the report of an engine, all members
beside the engine are there again; within the engine the declared ones are, and so all is there
exactly if the engine is an object without others. -/
theorem rewritten_of_run {bytes : Bytes} {members : List (String × Json)}
    (hwritten : Writes bytes (.object members)) (hplain : Plain (.object members)) :
    (∀ state, EngineState.reader.run bytes = .ok state → state.Rewritten members) ∧
      ∀ library, LibraryUpdate.reader.run bytes = .ok library → library.Rewritten members :=
  ⟨fun _ => EngineState.rewritten hwritten hplain, fun _ => LibraryUpdate.rewritten hwritten hplain⟩

/-- A text that can be read as a report and as a library. -/
def sharedText : Bytes :=
  Text.encode
    "\x7b\"engine\":\x7b\"domain\":null,\"host\":\"h\"\x7d,\"specificationId\":\"s\",\"x\":[null,-5]\x7d"

/-- Its members. -/
def sharedMembers : List (String × Json) :=
  [("engine", .object [("domain", .null), ("host", .text "h")]), ("specificationId", .text "s"),
    ("x", .list [.null, .number (.int (-5))])]

/-- The report that it is. -/
def sharedState : EngineState where
  engine := ⟨"h", none, none⟩
  details := (Dict.empty.insert "specificationId" (.text "s")).insert "x"
    (.list [.null, .number (.int (-5))])

/-- The library that it is. -/
def sharedLibrary : LibraryUpdate where
  specificationId := "s"
  version := none
  details := (Dict.empty.insert "engine" (.object [("domain", .null), ("host", .text "h")])).insert
    "x" (.list [.null, .number (.int (-5))])

/-- Written again, the report and the library have all that was in the text. -/
theorem rewritten_of_run_shared :
    Writes sharedText (.object sharedMembers) ∧ Plain (.object sharedMembers) ∧
      EngineState.reader.run sharedText = .ok sharedState ∧
      sharedState.Rewritten sharedMembers ∧ Covers (.object sharedMembers) sharedState.toJson ∧
      LibraryUpdate.reader.run sharedText = .ok sharedLibrary ∧
      sharedLibrary.Rewritten sharedMembers := by
  have hwritten : Writes sharedText (.object sharedMembers) := ⟨3, rfl⟩
  have hplain : Plain (.object sharedMembers) := by simp [sharedMembers]
  have hengine : EngineState.OnlyDeclared sharedMembers := by
    intro engine hmember
    obtain rfl : engine = .object [("domain", .null), ("host", .text "h")] := by
      simpa [sharedMembers] using hmember
    exact ⟨_, rfl, by decide⟩
  have hstate : EngineState.reader.run sharedText = .ok sharedState := rfl
  have hlibrary : LibraryUpdate.reader.run sharedText = .ok sharedLibrary := rfl
  obtain ⟨hreport, hupdate⟩ := rewritten_of_run hwritten hplain
  exact ⟨hwritten, hplain, hstate, hreport _ hstate, (hreport _ hstate).covers_iff.mpr hengine,
    hlibrary, hupdate _ hlibrary⟩

/-- A report whose engine has a member that is not declared. -/
def zonedReport : Bytes :=
  Text.encode "\x7b\"engine\":\x7b\"host\":\"h\",\"zone\":\"z\"\x7d\x7d"

/-- Its members. -/
def zonedMembers : List (String × Json) :=
  [("engine", .object [("host", .text "h"), ("zone", .text "z")])]

/-- The zone of the engine is not written again. -/
theorem zone_lost :
    Writes zonedReport (.object zonedMembers) ∧ Plain (.object zonedMembers) ∧
      ∃ state, EngineState.reader.run zonedReport = .ok state ∧
        ¬ Covers (.object zonedMembers) state.toJson := by
  have hwritten : Writes zonedReport (.object zonedMembers) := ⟨3, rfl⟩
  have hplain : Plain (.object zonedMembers) := by simp [zonedMembers]
  have hread : (EngineState.reader.run zonedReport).toOption.isSome = true := by decide +kernel
  refine ⟨hwritten, hplain, ?_⟩
  match hstate : EngineState.reader.run zonedReport with
  | .error fault =>
    rw [hstate] at hread
    cases hread
  | .ok state =>
    refine ⟨state, rfl, fun h => ?_⟩
    obtain ⟨fields, hfields, hdeclared⟩ :=
      (EngineState.rewritten hwritten hplain hstate).covers_iff.mp h _ List.mem_cons_self
    obtain rfl := Json.object.inj hfields
    have hzone : "zone" ∈ EngineInfo.declared := hdeclared ("zone", .text "z") (by simp)
    exact absurd hzone (by decide)

end EngineCatalog
