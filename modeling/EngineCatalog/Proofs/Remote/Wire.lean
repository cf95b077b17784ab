import EngineCatalog.KeyValue.Wire
import EngineCatalog.Proofs.Dict.Prefix
import EngineCatalog.Proofs.Json.Payload
import EngineCatalog.Proofs.Text.Base64

/-!
# Transactions can be read off the wire

Who receives a transaction reads its members (`Step.readAll`) and from each of them the change that
it makes (`Step.change?`). What is sent for some changes is read as these changes, each key with the
slash it starts with and each value as it was (`Request.changes?_ofChanges`).
-/

namespace EngineCatalog.KeyValue

open Json (FloatFree ReadsBack Reader Record)
open Text (Bytes)

/-! ## Members -/

namespace Step

/-- The shape of what a member does. -/
def operationRecord : Record Step where
  title := "struct Operation"
  blank := ⟨"", "", none⟩
  fields := [
    ⟨"Verb", true, Reader.text.map fun text step => { step with verb := text }⟩,
    ⟨"Key", true, Reader.text.map fun text step => { step with key := text }⟩,
    ⟨"Value", false, (Reader.optional Reader.text).map fun text step =>
      { step with value := text }⟩]

/-- The shape of a member. -/
def record : Record Step where
  title := "struct Step"
  blank := operationRecord.blank
  fields := [⟨"KV", true, operationRecord.reader.map fun step _ => step⟩]

/-- The members of a transaction that is received. -/
def readAll (body : Bytes) : Except Json.Fault (List Step) :=
  (Reader.list record.reader).run body

theorem floatFree (step : Step) : FloatFree step.toJson := by
  obtain ⟨verb, key, value⟩ := step
  cases value <;> simp [toJson]

/-- What a member does is read back. -/
theorem exists_operation (step : Step) (depth : Nat) :
    ∃ operation, step.toJson = .object [("KV", operation)] ∧
      ReadsBack (operationRecord.reader (depth + 1)) (Json.write operation) step := by
  obtain ⟨verb, key, value⟩ := step
  have hverb : ReadsBack (operationRecord.readMember depth ([], operationRecord.blank) "Verb")
      (0x3a :: Json.write (.text verb)) (["Verb"], ⟨verb, "", none⟩) :=
    Record.readsBack_field rfl rfl ((Json.readsBack_text verb depth).map _) rfl
  have hkey : ReadsBack (operationRecord.readMember depth (["Verb"], ⟨verb, "", none⟩) "Key")
      (0x3a :: Json.write (.text key)) (["Key", "Verb"], ⟨verb, key, none⟩) :=
    Record.readsBack_field rfl rfl ((Json.readsBack_text key depth).map _) rfl
  cases value with
  | none => exact ⟨_, rfl, Record.readsBack_object (.cons hverb (.cons hkey (.nil _))) rfl⟩
  | some text =>
    have hvalue : ReadsBack (operationRecord.readMember depth
        (["Key", "Verb"], ⟨verb, key, none⟩) "Value") (0x3a :: Json.write (.text text))
        (["Value", "Key", "Verb"], ⟨verb, key, some text⟩) :=
      Record.readsBack_field rfl rfl ((Json.readsBack_optionalText (some text) depth).map _) rfl
    exact ⟨_, rfl, Record.readsBack_object (.cons hverb (.cons hkey (.cons hvalue (.nil _)))) rfl⟩

/-- A member is read back. -/
theorem readsBack (step : Step) (depth : Nat) :
    ReadsBack (record.reader (depth + 2)) (Json.write step.toJson) step := by
  obtain ⟨operation, hjson, hread⟩ := step.exists_operation depth
  have hmember : ReadsBack (record.readMember (depth + 1) ([], record.blank) "KV")
      (0x3a :: Json.write operation) (["KV"], step) :=
    Record.readsBack_field rfl rfl (hread.map _) rfl
  rw [hjson]
  exact Record.readsBack_object (.cons hmember (.nil _)) rfl

/-- The members of a transaction are read back. -/
theorem readAll_writeAll (steps : List Step) : readAll (writeAll steps) = .ok steps :=
  (Json.readsBack_list (fun step _ => step.floatFree) fun step _ => step.readsBack 124).run

/-! ## Changes -/

/-- The change that a member makes. -/
def change? (step : Step) : Option Change :=
  if step.verb = "set" then do
    let bytes ← (Text.decodeBase64 (← step.value)).toOption
    return .set ("/" ++ step.key) bytes
  else if step.verb = "delete" then some (.delete ("/" ++ step.key))
  else none

theorem slash_bareKey {key : String} (h : startsWith "/" key = true) : "/" ++ bareKey key = key := by
  obtain ⟨rest, hrest⟩ := startsWith_iff.mp h
  have hkey : key = String.ofList ('/' :: rest) := by
    rw [← String.toList_inj, ← hrest, String.toList_ofList]
    simp
  rw [← String.toList_inj, String.toList_append, hkey, bareKey, String.toList_ofList]
  simp

/-- The member for a change makes that change. -/
theorem change?_ofChange {change : Change} (h : startsWith "/" change.key = true) :
    (ofChange change).change? = some change := by
  cases change with
  | set key value =>
    have hkey : "/" ++ bareKey key = key := slash_bareKey h
    simp [ofChange, change?, Text.decodeBase64_encodeBase64, hkey, Except.toOption]
  | delete key =>
    have hkey : "/" ++ bareKey key = key := slash_bareKey h
    simp [ofChange, change?, hkey]

end Step

/-- The changes that a request makes, read off what it carries. -/
def Request.changes? (request : Request) : Option (List Change) := do
  let steps ← (Step.readAll (← request.body)).toOption
  steps.mapM Step.change?

/-- What is sent for some changes is read as these changes. -/
theorem Request.changes?_ofChanges {changes : List Change}
    (h : ∀ change ∈ changes, startsWith "/" change.key = true) (method : Method) (url : String)
    (timeout : Span) :
    (Request.mk method url (some (Step.writeAll (changes.map Step.ofChange))) timeout).changes?
      = some changes := by
  have hchanges : (changes.map Step.ofChange).mapM Step.change? = some changes := by
    induction changes with
    | nil => rfl
    | cons change more ih =>
      obtain ⟨hchange, hmore⟩ := List.forall_mem_cons.mp h
      simp [List.mapM_cons, Step.change?_ofChange hchange, ih hmore]
  change ((Step.readAll (Step.writeAll _)).toOption >>= fun steps => steps.mapM Step.change?) = _
  rw [Step.readAll_writeAll]
  exact hchanges

end EngineCatalog.KeyValue
