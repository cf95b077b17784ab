import EngineCatalog.Catalog.Basic
import EngineCatalog.Proofs.Text.Numeral
import EngineCatalog.Proofs.Text.Utf8

/-!
# The time of the last deployment as it is stored

The time is stored as text, and whoever reads it takes what other writers may have put there. Main
statement: the time that is stamped is read back, and of all bytes exactly those are read as a time
that encode a numeral below 2 ^ 64 with white space around it or none; all others are reported with
the one key that holds them and with what is wrong with them (`Catalog.deploymentTime_exact`).
-/

namespace EngineCatalog

open KeyValue (Entry keyValue)
open Text (Bytes Numeral NumeralFault decodeLossy encode isBlank trim wordBound)

/-- Bytes whose text, trimmed, is a numeral encode that numeral with white space around it: U+FFFD
is neither white space nor part of a numeral, so nothing was lost. -/
theorem Text.numeral_trim_decodeLossy_iff {bytes : Bytes} {n : Nat} :
    Numeral (trim (decodeLossy bytes)).toList n ↔
      ∃ before numeral after, bytes = encode (before ++ numeral ++ after) ∧
        isBlank before = true ∧ isBlank after = true ∧ Numeral numeral.toList n := by
  constructor
  · intro h
    obtain ⟨before, after, htext, hbefore, hafter⟩ := Text.exists_eq_append_trim (decodeLossy bytes)
    refine ⟨before, trim (decodeLossy bytes), after, ?_, hbefore, hafter, h⟩
    have hkept : '\ufffd' ∉ (decodeLossy bytes).toList := by
      intro hmem
      rw [htext, String.toList_append, String.toList_append] at hmem
      rcases List.mem_append.mp hmem with hmem | hmem
      · rcases List.mem_append.mp hmem with hmem | hmem
        · exact absurd (Text.isBlank_iff.mp hbefore _ hmem) (by decide)
        · exact absurd (h.eq_or_isDigit _ hmem) (by decide)
      · exact absurd (Text.isBlank_iff.mp hafter _ hmem) (by decide)
    rw [← htext, Text.encode_decodeLossy hkept]
  · rintro ⟨before, numeral, after, rfl, hbefore, hafter, h⟩
    rwa [Text.decodeLossy_encode, h.trim_append hbefore hafter]

namespace Catalog

/-- The time is stamped by one call, which sets its key to the decimal digits of the time. -/
theorem run_stampDeployment (catalog : Catalog) (time : Nat) :
    (catalog.stampDeployment time).run
      = .ask (σ := keyValue) (.put catalog.layout.deployments (encode (toString time)))
          fun outcome => .done (outcome.map fun _ => time) := by
  refine congrArg (Program.ask _) (funext fun outcome => ?_)
  cases outcome <;> rfl

/-- The value of a single entry is read as text. -/
theorem deploymentTime_value (path key : String) (bytes : Bytes) (modified : Nat) :
    deploymentTime path [⟨key, some bytes, modified⟩]
      = timeOf ⟨key, some bytes, modified⟩ (decodeLossy bytes) := rfl

/-- A text is read as the time that its numeral writes. -/
theorem timeOf_eq_ok_iff {entry : Entry} {text : String} {time : Nat} :
    timeOf entry text = .ok time ↔ Numeral (trim text).toList time ∧ time < 2 ^ 64 := by
  rw [← Text.wordBound_eq, ← Text.readNumeral_eq_ok_iff Text.wordBound_pos, ← Text.readWord, timeOf]
  cases Text.readWord (trim text) <;> simp

/-- A text that is not read is reported with its key and with what is wrong with it. -/
theorem timeOf_eq_error {entry : Entry} {text : String} {fault : NumeralFault}
    (h : fault.IsOf wordBound (trim text).toList) :
    timeOf entry text = .error (.undecodable ⟨"deployments update timestamp",
      [⟨entry.key, s!"{Text.quote text} is not a timestamp: {fault.message}"⟩], .nothing⟩) := by
  rw [← Text.readNumeral_eq_error_iff Text.wordBound_pos, ← Text.readWord] at h
  rw [timeOf, h]

/-- **Times are read as they are written.** To stamp a time sets its key to the time's decimal digits,
and an entry that holds these is read as that time. Whatever bytes an entry holds, it is read as a
time exactly if their text, trimmed, is decimal digits behind at most one `+` which write that time,
and the time is below 2 ^ 64. That is, the bytes encode such a numeral with nothing but white space
around it. Any other bytes do not decode, and the failure names the key of the entry and no other
key, with what is wrong with the text. -/
theorem deploymentTime_exact (catalog : Catalog) (path key : String) (modified : Nat) :
    (∀ time : UInt64,
      (catalog.stampDeployment time.toNat).run
        = .ask (σ := keyValue)
            (.put catalog.layout.deployments (encode (toString time.toNat)))
            (fun outcome => .done (outcome.map fun _ => time.toNat)) ∧
      deploymentTime path [⟨key, some (encode (toString time.toNat)), modified⟩]
        = .ok time.toNat) ∧
    ∀ bytes : Bytes,
      let text := decodeLossy bytes
      let outcome := deploymentTime path [⟨key, some bytes, modified⟩]
      (∀ time, outcome = .ok time ↔ Numeral (trim text).toList time ∧ time < 2 ^ 64) ∧
      (∀ time, outcome = .ok time ↔
        ∃ before numeral after, bytes = encode (before ++ numeral ++ after) ∧
          isBlank before = true ∧ isBlank after = true ∧
          Numeral numeral.toList time ∧ time < 2 ^ 64) ∧
      ((¬ ∃ time, Numeral (trim text).toList time ∧ time < 2 ^ 64) ↔
        ∃ fault : NumeralFault, fault.IsOf wordBound (trim text).toList ∧
          outcome = .error (.undecodable ⟨"deployments update timestamp",
            [⟨key, s!"{Text.quote text} is not a timestamp: {fault.message}"⟩], .nothing⟩)) := by
  refine ⟨fun time => ⟨run_stampDeployment catalog time.toNat, ?_⟩, fun bytes => ?_⟩
  · rw [deploymentTime_value, timeOf_eq_ok_iff, Text.decodeLossy_encode, Text.trim_toString]
    exact ⟨Text.numeral_toString _, time.toNat_lt⟩
  · intro text outcome
    have houtcome : outcome = timeOf ⟨key, some bytes, modified⟩ text := deploymentTime_value ..
    have hread : ∀ time, outcome = .ok time ↔
        Numeral (trim text).toList time ∧ time < 2 ^ 64 := fun time => by
      rw [houtcome, timeOf_eq_ok_iff]
    refine ⟨hread, fun time => ?_, fun hnone => ?_, ?_⟩
    · rw [hread, Text.numeral_trim_decodeLossy_iff]
      constructor
      · rintro ⟨⟨before, numeral, after, hbytes, hbefore, hafter, hnumeral⟩, hbound⟩
        exact ⟨before, numeral, after, hbytes, hbefore, hafter, hnumeral, hbound⟩
      · rintro ⟨before, numeral, after, hbytes, hbefore, hafter, hnumeral, hbound⟩
        exact ⟨⟨before, numeral, after, hbytes, hbefore, hafter, hnumeral⟩, hbound⟩
    · obtain ⟨fault, hfault⟩ := (Text.exists_isOf_iff Text.wordBound_pos).mpr hnone
      exact ⟨fault, hfault, houtcome.trans (timeOf_eq_error hfault)⟩
    · rintro ⟨fault, -, hfailed⟩ ⟨time, htime⟩
      rw [(hread time).mpr htime] at hfailed
      cases hfailed

/-- White space may be any of Unicode's, and zeros may stand at the front. -/
example : deploymentTime "/stamp" [⟨"/stamp", some (encode "\u3000+007\n"), 1⟩] = .ok 7 := rfl

end Catalog

end EngineCatalog
