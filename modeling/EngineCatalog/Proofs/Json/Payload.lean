import EngineCatalog.Payload
import EngineCatalog.Proofs.Json.Record

/-!
# Payloads are read back

What a payload's reader gave back once, and what holds no floating-point number, can be written and
read again without a change (`PayloadKind.reads_back`).

An engine's info is read back whatever it is (`EngineInfo.readsBack`). The report of an engine and a
library are read back if the members beside their fields are such as can be kept
(`EngineState.readsBack`, `LibraryUpdate.readsBack`); reading provides just that. The properties of a
chain are the members of an object and nothing else (`ChainProperties.run_write`).
-/

namespace EngineCatalog

open Text (Bytes)

namespace Json

variable {α : Type}

/-- What is read back, whatever may stand behind it, is read back from all of the bytes. -/
theorem ReadsBack.run {reader : Reader α} {bytes : Bytes} {value : α}
    (h : ReadsBack (reader nestingLimit) bytes value) : reader.run bytes = .ok value := by
  have hread := h [] endsValue_nil
  rw [List.append_nil] at hread
  rw [Reader.run, hread]
  rfl

theorem exists_of_run {reader : Reader α} {bytes : Bytes} {value : α}
    (h : reader.run bytes = .ok value) : ∃ rest, reader nestingLimit bytes = .ok (value, rest) := by
  rw [Reader.run] at h
  match hread : reader nestingLimit bytes, h with
  | .ok (result, rest), h =>
    rw [complete] at h
    split at h
    · exact ⟨rest, Except.ok.inj h ▸ rfl⟩
    · cases h

/-! ## The members of an object -/

theorem readsBack_putInto {depth : Nat} {entry : String × Json}
    (h : ReadsBack (readValue depth) (write entry.2) entry.2) (dict : Dict Json) :
    ReadsBack (Reader.putInto depth dict entry.1) (0x3a :: write entry.2)
      (dict.insert entry.1 entry.2) := by
  intro rest hrest
  have hcolon : afterColon (0x3a :: (write entry.2 ++ rest)) = .ok (write entry.2 ++ rest) := rfl
  rw [List.cons_append, Reader.putInto, hcolon]
  simp only [h rest hrest, Reading.map_ok]

/-- The members of an object are read back if they fit. -/
theorem readsBack_members {depth : Nat} {dict : Dict Json} (hfits : Fits depth (ofDict dict))
    (hfree : FloatFree (ofDict dict)) :
    ReadsBack (Reader.members depth) (write (ofDict dict)) dict := by
  cases depth with
  | zero => exact hfits.elim
  | succ depth =>
    intro rest _
    obtain ⟨-, hvalues⟩ := hfits
    have hmembers : ∀ entry ∈ dict.entries, FloatFree entry.2 := by
      cases hfree with
      | object hmembers => exact hmembers
    have hread : MembersRead (Reader.putInto depth) Dict.empty dict.entries _ := .foldl
      (fun entry hentry => readsBack_putInto (readsBack_write (hvalues entry hentry)
        (hmembers entry hentry))) Dict.empty
    obtain ⟨bytes, hwrite, hread⟩ := readMembers_write hread rest
    have hsame : dict.entries.foldl (fun dict entry => dict.insert entry.1 entry.2) Dict.empty
        = dict := Dict.ofList_entries dict
    have hspace : isSpaceByte 0x7b = false := rfl
    rw [ofDict, hwrite, List.cons_append, Reader.members, skipSpace_cons hspace]
    simp only [if_true, hread, hsame]

/-- The members of an object that are read fit. -/
theorem fits_of_members {depth : Nat} {bytes rest : Bytes} {dict : Dict Json}
    (h : Reader.members depth bytes = .ok (dict, rest)) : Fits depth (ofDict dict) := by
  unfold Reader.members at h
  split at h
  · cases h
  · split at h
    · split at h
      · cases h
      · rename_i depth
        have hempty : Fits (depth + 1) (ofDict Dict.empty) := fits_empty depth
        refine @of_readMembersWithin _ _ (fun dict => Fits (depth + 1) (ofDict dict)) ?_ _ _ _ _ _ _
          hempty h
        intro before name bytes after rest hbefore hput
        rw [Reader.putInto] at hput
        split at hput
        · cases hput
        · obtain ⟨value, hvalue, rfl⟩ := Reading.map_eq_ok_iff.mp hput
          exact fits_insert hbefore (fits_of_readValue hvalue)
    · cases h

end Json

open Json (FloatFree ReadsBack Record)

/-! ## Engines -/

/-- Nothing in an engine's info is a number. -/
theorem EngineInfo.floatFree (info : EngineInfo) : FloatFree info.toJson := by
  simp [toJson]

/-- An engine's info is read back. -/
theorem EngineInfo.readsBack (info : EngineInfo) (depth : Nat) :
    ReadsBack (reader (depth + 1)) (Json.write info.toJson) info := by
  obtain ⟨host, domain, deploymentName⟩ := info
  have hhost : ReadsBack (record.readMember depth ([], record.blank) "host")
      (0x3a :: Json.write (.text host)) (["host"], ⟨host, none, none⟩) :=
    Record.readsBack_field rfl rfl ((Json.readsBack_text host depth).map _) rfl
  have hdomain : ReadsBack (record.readMember depth (["host"], ⟨host, none, none⟩) "domain")
      (0x3a :: Json.write (Json.optionalText domain)) (["domain", "host"], ⟨host, domain, none⟩) :=
    Record.readsBack_field rfl rfl ((Json.readsBack_optionalText domain depth).map _) rfl
  have hname : ReadsBack (record.readMember depth (["domain", "host"], ⟨host, domain, none⟩)
      "engineDeploymentName") (0x3a :: Json.write (Json.optionalText deploymentName))
      (["engineDeploymentName", "domain", "host"], ⟨host, domain, deploymentName⟩) :=
    Record.readsBack_field rfl rfl ((Json.readsBack_optionalText deploymentName depth).map _) rfl
  exact Record.readsBack_object (.cons hhost (.cons hdomain (.cons hname (.nil _)))) rfl

namespace EngineState

theorem keepsIn_details : record.KeepsIn EngineState.details where
  blank := rfl
  keep := ⟨_, rfl, fun _ _ _ => rfl⟩
  field := by
    intro field hfield depth bytes change rest hread state
    obtain rfl := List.mem_singleton.mp hfield
    obtain ⟨info, -, rfl⟩ := Json.Reading.map_eq_ok_iff.mp hread
    rfl

/-- An engine's report is read back, with all that it keeps. -/
theorem readsBack {state : EngineState} {depth : Nat}
    (hkept : record.Kept (depth + 1) state.details)
    (hfree : ∀ entry ∈ state.details.entries, FloatFree entry.2) :
    ReadsBack (reader (depth + 2)) (Json.write state.toJson) state := by
  obtain ⟨engine, details⟩ := state
  have hengine : ReadsBack (record.readMember (depth + 1) ([], record.blank) "engine")
      (0x3a :: Json.write engine.toJson) (["engine"], ⟨engine, Dict.empty⟩) :=
    Record.readsBack_field rfl rfl ((engine.readsBack depth).map _) rfl
  have hdetails := @Record.membersRead_kept _ record (depth + 1) _ (EngineState.mk engine) rfl
    (fun _ _ _ => rfl) _ (hkept.readsBack hfree) ["engine"] Dict.empty
  have hsame : Dict.empty.insertAll details.entries = details := Dict.ofList_entries details
  rw [hsame] at hdetails
  exact Record.readsBack_object (.cons hengine hdetails) rfl

end EngineState

/-! ## Libraries -/

namespace LibraryUpdate

theorem keepsIn_details : record.KeepsIn LibraryUpdate.details where
  blank := rfl
  keep := ⟨_, rfl, fun _ _ _ => rfl⟩
  field := by
    intro field hfield depth bytes change rest hread library
    simp only [record, List.mem_cons, List.not_mem_nil, or_false] at hfield
    rcases hfield with rfl | rfl
    · obtain ⟨text, -, rfl⟩ := Json.Reading.map_eq_ok_iff.mp hread
      rfl
    · obtain ⟨text, -, rfl⟩ := Json.Reading.map_eq_ok_iff.mp hread
      rfl

/-- A library is read back, with all that it keeps. -/
theorem readsBack {library : LibraryUpdate} {depth : Nat}
    (hkept : record.Kept depth library.details)
    (hfree : ∀ entry ∈ library.details.entries, FloatFree entry.2) :
    ReadsBack (reader (depth + 1)) (Json.write library.toJson) library := by
  obtain ⟨id, version, details⟩ := library
  have hid : ReadsBack (record.readMember depth ([], record.blank) "specificationId")
      (0x3a :: Json.write (.text id)) (["specificationId"], ⟨id, none, Dict.empty⟩) :=
    Record.readsBack_field rfl rfl ((Json.readsBack_text id depth).map _) rfl
  have hversion : ReadsBack (record.readMember depth
      (["specificationId"], ⟨id, none, Dict.empty⟩) "version")
      (0x3a :: Json.write (Json.optionalText version))
      (["version", "specificationId"], ⟨id, version, Dict.empty⟩) :=
    Record.readsBack_field rfl rfl ((Json.readsBack_optionalText version depth).map _) rfl
  have hdetails := @Record.membersRead_kept _ record depth _ (LibraryUpdate.mk id version) rfl
    (fun _ _ _ => rfl) _ (hkept.readsBack hfree) ["version", "specificationId"] Dict.empty
  have hsame : Dict.empty.insertAll details.entries = details := Dict.ofList_entries details
  rw [hsame] at hdetails
  exact Record.readsBack_object (.cons hid (.cons hversion hdetails)) rfl

/-- A library that was read is read back. -/
theorem readsBack_of_reader {library : LibraryUpdate} {depth : Nat} {bytes rest : Bytes}
    (h : reader (depth + 1) bytes = .ok (library, rest)) (hfree : FloatFree library.toJson) :
    ReadsBack (reader (depth + 1)) (Json.write library.toJson) library := by
  cases hfree with
  | object hmembers =>
    obtain ⟨-, hfields⟩ := List.forall_mem_cons.mp hmembers
    exact readsBack (keepsIn_details.kept h) (List.forall_mem_cons.mp hfields).2

end LibraryUpdate

/-! ## Properties of chains -/

namespace ChainProperties

/-- **Properties of chains are read back.** What was read once, and holds no floating-point number,
is read again from its written form. -/
theorem run_write {chain : ChainProperties} {bytes : Bytes} (h : reader.run bytes = .ok chain)
    (hfree : FloatFree chain.toJson) : reader.run chain.write = .ok chain := by
  obtain ⟨rest, hread⟩ := Json.exists_of_run h
  obtain ⟨dict, hdict, rfl⟩ := Json.Reading.map_eq_ok_iff.mp hread
  refine Json.ReadsBack.run fun rest hrest => ?_
  have hback := Json.readsBack_members (Json.fits_of_members hdict) hfree rest hrest
  change (Json.Reader.members Json.nestingLimit _).map ChainProperties.mk = _
  rw [write, toJson, hback, Json.Reading.map_ok]

end ChainProperties

/-! ## All payloads -/

/-- The kinds of payloads. -/
inductive PayloadKind where
  /-- the report of an engine -/
  | engineState
  /-- who an engine is -/
  | engineInfo
  /-- a library -/
  | library
  /-- a list of libraries -/
  | libraries
  /-- the runtime properties of a chain -/
  | chain

namespace PayloadKind

/-- The payloads of a kind. -/
@[reducible] def Payload : PayloadKind → Type
  | engineState => EngineState
  | engineInfo => EngineInfo
  | library => LibraryUpdate
  | libraries => List LibraryUpdate
  | chain => ChainProperties

/-- Reads a payload of a kind. -/
def reader : (kind : PayloadKind) → Json.Reader kind.Payload
  | engineState => EngineState.reader
  | engineInfo => EngineInfo.reader
  | library => LibraryUpdate.reader
  | libraries => Json.Reader.list LibraryUpdate.reader
  | chain => ChainProperties.reader

/-- A payload as JSON. -/
def toJson : (kind : PayloadKind) → kind.Payload → Json
  | engineState => EngineState.toJson
  | engineInfo => EngineInfo.toJson
  | library => LibraryUpdate.toJson
  | libraries => fun libraries => .list (libraries.map LibraryUpdate.toJson)
  | chain => ChainProperties.toJson

/-- The written form of a payload. -/
def write (kind : PayloadKind) (payload : kind.Payload) : Bytes :=
  Json.write (kind.toJson payload)

/-- **Payloads are read back.** What any bytes are read as, if no number in it is a floating-point
number, is read again from its written form. -/
theorem reads_back (kind : PayloadKind) {bytes : Bytes} {payload : kind.Payload}
    (h : kind.reader.run bytes = .ok payload) (hfree : FloatFree (kind.toJson payload)) :
    kind.reader.run (kind.write payload) = .ok payload := by
  obtain ⟨rest, hread⟩ := Json.exists_of_run h
  cases kind with
  | engineState =>
    cases hfree with
    | object hmembers =>
      exact (EngineState.readsBack (EngineState.keepsIn_details.kept hread)
        (List.forall_mem_cons.mp hmembers).2).run
  | engineInfo => exact (payload.readsBack 126).run
  | library => exact (LibraryUpdate.readsBack_of_reader hread hfree).run
  | libraries =>
    cases hfree with
    | list hitems =>
      have hlibraries := List.forall_mem_map.mp hitems
      have hback : ∀ library ∈ payload, FloatFree library.toJson →
          ReadsBack (LibraryUpdate.reader 126) (Json.write library.toJson) library :=
        Json.forall_of_list LibraryUpdate.readsBack_of_reader hread
      exact (Json.readsBack_list hlibraries fun library hlibrary =>
        hback library hlibrary (hlibraries library hlibrary)).run
  | chain => exact ChainProperties.run_write h hfree

/-- A report whose engine is a list, with a member that stands there twice, an escape and a null. -/
def listedReport : Bytes :=
  Text.encode
    "\x7b\"x\":0,\"engine\":[\"h\"],\"x\":\x7b\"b\":[null,-5],\"a\":\"\\ud83d\\ude00\"\x7d\x7d"

/-- What it is read as. -/
def listedState : EngineState where
  engine := ⟨"h", none, none⟩
  details := Dict.empty.insert "x"
    (.object [("a", .text "😀"), ("b", .list [.null, .number (.int (-5))])])

/-- It is read back from its written form, in which the engine is an object. -/
theorem reads_back_listedReport :
    EngineState.reader.run listedReport = .ok listedState ∧ FloatFree listedState.toJson ∧
      EngineState.reader.run (Json.write listedState.toJson) = .ok listedState := by
  have hread : EngineState.reader.run listedReport = .ok listedState := rfl
  have hx : FloatFree (.object [("a", .text "😀"), ("b", .list [.null, .number (.int (-5))])]) := by
    simp
  have hfree : FloatFree listedState.toJson :=
    .object (List.forall_mem_cons.mpr
      ⟨listedState.engine.floatFree, List.forall_mem_singleton.mpr hx⟩)
  exact ⟨hread, hfree, reads_back .engineState hread hfree⟩

end PayloadKind

end EngineCatalog
