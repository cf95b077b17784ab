import EngineCatalog.KeyValue.Remote
import EngineCatalog.Settings.Check

/-!
# How long a wait may take

The request for a wait may take as long as the wait itself, a sixteenth of it, and the time of a
request that does not wait. Main statement: they are added up one after the other, and the sum
exists exactly if a 64-bit count of seconds can hold it (`Remote.isSome_readTimeout_iff`). So it
exists for every wait that is as long as settings allow (`Remote.readTimeout_isSome`).
-/

namespace EngineCatalog

/-! ## Settings -/

theorem of_refuseIf_then {condition : Bool} {message : String} {rest : Check}
    (h : (do refuseIf condition message; rest) = .ok ()) : condition = false ∧ rest = .ok () := by
  cases condition with
  | false => exact ⟨rfl, h⟩
  | true => cases h

/-- A watch waits no longer than is allowed. -/
theorem StoreSettings.watchWait_le {settings : StoreSettings} (h : settings.check = .ok ()) :
    settings.watchWait.nanos ≤ (Span.ofSeconds longestWait).nanos := by
  rw [check] at h
  obtain ⟨-, h⟩ := of_refuseIf_then h
  obtain ⟨-, h⟩ := of_refuseIf_then h
  obtain ⟨hshort, -⟩ := of_refuseIf_then h
  exact Nat.mul_le_mul_right _ (Nat.not_lt.mp (of_decide_eq_false hshort))

namespace KeyValue.Remote

/-! ## Timeouts -/

variable {remote : Remote} {since : Nat} {span : Span}

/-- The timeout is the exact sum. -/
theorem readTimeout_eq_some_iff {timeout : Span} :
    remote.readTimeout (some (since, span)) = some timeout ↔
      timeout = ⟨span.nanos + span.nanos / 16 + remote.timeout.nanos⟩ ∧ timeout.fits = true := by
  constructor
  · intro h
    obtain ⟨waited, hwaited, htimeout⟩ := Option.bind_eq_some_iff.mp h
    obtain ⟨rfl, -⟩ := Span.add?_eq_some_iff.mp hwaited
    exact Span.add?_eq_some_iff.mp htimeout
  · rintro ⟨rfl, hfits⟩
    -- the first of the two sums is the smaller one
    have hwaited : (Span.mk (span.nanos + span.nanos / 16)).fits = true :=
      Span.fits_iff.mpr (Nat.lt_of_le_of_lt (Nat.le_add_right _ _) (Span.fits_iff.mp hfits))
    exact Option.bind_eq_some_iff.mpr ⟨_, Span.add?_eq_some_iff.mpr ⟨rfl, hwaited⟩,
      Span.add?_eq_some_iff.mpr ⟨rfl, hfits⟩⟩

/-- For which waits there is a timeout. -/
theorem isSome_readTimeout_iff :
    (remote.readTimeout (some (since, span))).isSome = true ↔
      span.nanos + span.nanos / 16 + remote.timeout.nanos
        < Nat.pow 2 64 * Span.nanosPerSecond := by
  simp only [Option.isSome_iff_exists, readTimeout_eq_some_iff, exists_eq_left, Span.fits_iff]

/-- A timeout exists for every wait that is as long as is allowed. -/
theorem readTimeout_isSome {settings : StoreSettings}
    (hmillis : settings.requestMillis < Nat.pow 2 64)
    (hspan : span.nanos ≤ (Span.ofSeconds longestWait).nanos) (since : Nat) :
    ((Remote.of settings).readTimeout (some (since, span))).isSome = true := by
  have h64 : Nat.pow 2 64 = 18446744073709551616 := rfl
  have hlongest : (Span.ofSeconds longestWait).nanos = 600000000000 := rfl
  have htimeout : (Remote.of settings).timeout.nanos = settings.requestMillis * 1000000 := rfl
  rw [isSome_readTimeout_iff, htimeout, h64, Span.nanosPerSecond]
  omega

end KeyValue.Remote

end EngineCatalog
