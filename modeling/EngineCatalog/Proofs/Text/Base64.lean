import EngineCatalog.Proofs.Text.Utf8
import EngineCatalog.Text.Base64

/-!
# Base64 is read back

The base64 of some bytes is read as these bytes (`decodeBase64_encodeBase64`). All groups but the
last one are read by themselves; the induction takes one of them off at a time, until the last
group is left.
-/

namespace EngineCatalog.Text

/-! ## Symbols -/

theorem symbolBits?_of_lt {bits : Nat} (h : bits < 64) : symbolBits? (symbolOf bits) = some bits :=
  symbolBits?_symbolOf ⟨bits, h⟩

/-- No symbol of the alphabet fills up the last group. -/
theorem symbolOf_ne_padSymbol {bits : Nat} (h : bits < 64) : symbolOf bits ≠ padSymbol := by
  intro hpad
  have hbits := symbolBits?_of_lt h
  rw [hpad] at hbits
  cases hbits

theorem symbolOf_toNat_lt {bits : Nat} (h : bits < 64) : (symbolOf bits).toNat < 128 := by
  have hall : ∀ bits : Fin 64, (symbolOf bits.val).toNat < 128 := by decide
  exact hall ⟨bits, h⟩

/-- Symbols are read by their bits. -/
theorem plainBits_cons {bits offset : Nat} {symbols : List UInt8} {more : List Nat}
    (h : bits < 64) (hmore : plainBits (offset + 1) symbols = .ok more) :
    plainBits offset (symbolOf bits :: symbols) = .ok (bits :: more) := by
  rw [plainBits, symbolBits?_of_lt h]
  simp only [hmore]
  rfl

/-- A symbol of the last group that no padding stands before. -/
theorem readLastGroup_cons {bits start place : Nat} {group : LastGroup} {symbols : List UInt8}
    (h : bits < 64) (hpads : group.pads = 0) :
    readLastGroup start place group (symbolOf bits :: symbols)
      = readLastGroup start (place + 1)
          { group with bits := group.bits ++ [bits], symbol := symbolOf bits } symbols := by
  rw [readLastGroup, if_neg (symbolOf_ne_padSymbol h), if_neg (by omega), symbolBits?_of_lt h]

/-! ## Bits -/

section Bits

variable (a b c : UInt8)

theorem firstByte : UInt8.ofNat (a.toNat / 4 * 4 + (a.toNat % 4 * 16 + b.toNat / 16) / 16) = a := by
  have hb := b.toNat_lt
  have hsum : a.toNat / 4 * 4 + (a.toNat % 4 * 16 + b.toNat / 16) / 16 = a.toNat := by omega
  rw [hsum, UInt8.ofNat_toNat]

theorem secondByte :
    UInt8.ofNat ((a.toNat % 4 * 16 + b.toNat / 16) % 16 * 16
      + (b.toNat % 16 * 4 + c.toNat / 64) / 4) = b := by
  have hb := b.toNat_lt
  have hc := c.toNat_lt
  have hsum : (a.toNat % 4 * 16 + b.toNat / 16) % 16 * 16
      + (b.toNat % 16 * 4 + c.toNat / 64) / 4 = b.toNat := by omega
  rw [hsum, UInt8.ofNat_toNat]

theorem thirdByte : UInt8.ofNat ((b.toNat % 16 * 4 + c.toNat / 64) % 4 * 64 + c.toNat % 64) = c := by
  have hc := c.toNat_lt
  have hsum : (b.toNat % 16 * 4 + c.toNat / 64) % 4 * 64 + c.toNat % 64 = c.toNat := by omega
  rw [hsum, UInt8.ofNat_toNat]

end Bits

/-! ## Groups -/

/-- The symbols of the bytes are one group, and as the last group they are read back. -/
def LastRead (start : Nat) (bytes : Bytes) : Prop :=
  (base64Symbols bytes).length = 4 ∧ ∃ group,
    readLastGroup start 0 {} (base64Symbols bytes) = .ok group ∧ lastBytes start group = .ok bytes

theorem lastRead_one (start : Nat) (a : UInt8) : LastRead start [a] := by
  have hlast := a.toNat_lt
  refine ⟨rfl, ⟨[a.toNat / 4, a.toNat % 4 * 16], symbolOf (a.toNat % 4 * 16), 2, 2⟩, ?_, ?_⟩
  · rw [base64Symbols, readLastGroup_cons (by omega) rfl, readLastGroup_cons (by omega) rfl]
    rfl
  · have hbits : a.toNat % 4 * 16 % 16 = 0 := by omega
    have hsum : a.toNat / 4 * 4 + a.toNat % 4 * 16 / 16 = a.toNat := by omega
    simp only [lastBytes, hbits, hsum, ne_eq, not_true_eq_false, if_false, UInt8.ofNat_toNat]

theorem lastRead_two (start : Nat) (a b : UInt8) : LastRead start [a, b] := by
  have ha := a.toNat_lt
  have hb := b.toNat_lt
  refine ⟨rfl, ⟨[a.toNat / 4, a.toNat % 4 * 16 + b.toNat / 16, b.toNat % 16 * 4],
    symbolOf (b.toNat % 16 * 4), 1, 3⟩, ?_, ?_⟩
  · rw [base64Symbols, readLastGroup_cons (by omega) rfl, readLastGroup_cons (by omega) rfl,
      readLastGroup_cons (by omega) rfl]
    rfl
  · have hbits : b.toNat % 16 * 4 % 4 = 0 := by omega
    have hsum : (a.toNat % 4 * 16 + b.toNat / 16) % 16 * 16 + b.toNat % 16 * 4 / 4 = b.toNat := by
      omega
    simp only [lastBytes, hbits, hsum, firstByte, ne_eq, not_true_eq_false, if_false,
      UInt8.ofNat_toNat]

theorem lastRead_three (start : Nat) (a b c : UInt8) : LastRead start [a, b, c] := by
  have ha := a.toNat_lt
  have hb := b.toNat_lt
  have hc := c.toNat_lt
  refine ⟨rfl, ⟨[a.toNat / 4, a.toNat % 4 * 16 + b.toNat / 16, b.toNat % 16 * 4 + c.toNat / 64,
    c.toNat % 64], symbolOf (c.toNat % 64), 0, 0⟩, ?_, ?_⟩
  · rw [base64Symbols, readLastGroup_cons (by omega) rfl, readLastGroup_cons (by omega) rfl,
      readLastGroup_cons (by omega) rfl, readLastGroup_cons (by omega) rfl]
    rfl
  · simp only [lastBytes, groupBytes, firstByte, secondByte, thirdByte]

/-- What is made of symbols of which the last four are the last group. -/
theorem decodeSymbols_append {leading last : List UInt8} {bits : List Nat} {group : LastGroup}
    {bytes : Bytes} (hlast : last.length = 4) (hleading : leading.length % 4 = 0)
    (hbits : plainBits 0 leading = .ok bits)
    (hgroup : readLastGroup leading.length 0 {} last = .ok group)
    (hbytes : lastBytes leading.length group = .ok bytes) :
    decodeSymbols (leading ++ last) = .ok (groupBytes bits ++ bytes) := by
  have hlength : (leading ++ last).length = leading.length + 4 := by
    rw [List.length_append, hlast]
  have hstart : leadingLength (leading ++ last).length = leading.length := by
    rw [hlength, leadingLength, if_pos (by omega)]
    omega
  match hsymbols : leading ++ last with
  | [] => simp [hsymbols] at hlength
  | first :: more =>
    rw [decodeSymbols]
    dsimp only
    rw [← hsymbols, if_neg (by rw [hlength]; omega), hstart, List.take_left, List.drop_left, hbits]
    change (readLastGroup leading.length 0 {} last >>= _) = _
    rw [hgroup]
    change (lastBytes leading.length group >>= _) = _
    rw [hbytes]
    rfl

/-- All groups but the last one are read by themselves. -/
theorem exists_leading {bytes : Bytes} (hne : bytes ≠ []) :
    ∃ leading last bits, base64Symbols bytes = leading ++ base64Symbols last ∧
      leading.length % 4 = 0 ∧ (∀ offset, plainBits offset leading = .ok bits) ∧
      (∀ start, LastRead start last) ∧ groupBytes bits ++ last = bytes := by
  induction bytes using base64Symbols.induct with
  | case1 => exact absurd rfl hne
  | case2 a => exact ⟨[], [a], [], rfl, rfl, fun _ => rfl, (lastRead_one · a), rfl⟩
  | case3 a b => exact ⟨[], [a, b], [], rfl, rfl, fun _ => rfl, (lastRead_two · a b), rfl⟩
  | case4 a b c rest ih =>
    by_cases hrest : rest = []
    · subst hrest
      exact ⟨[], [a, b, c], [], rfl, rfl, fun _ => rfl, (lastRead_three · a b c), rfl⟩
    · obtain ⟨leading, last, bits, hsymbols, hlength, hbits, hlast, hbytes⟩ := ih hrest
      have ha := a.toNat_lt
      have hb := b.toNat_lt
      have hc := c.toNat_lt
      refine ⟨symbolOf (a.toNat / 4) :: symbolOf (a.toNat % 4 * 16 + b.toNat / 16)
          :: symbolOf (b.toNat % 16 * 4 + c.toNat / 64) :: symbolOf (c.toNat % 64) :: leading, last,
        a.toNat / 4 :: (a.toNat % 4 * 16 + b.toNat / 16) :: (b.toNat % 16 * 4 + c.toNat / 64)
          :: c.toNat % 64 :: bits, ?_, ?_, fun offset => ?_, hlast, ?_⟩
      · rw [base64Symbols, hsymbols]
        rfl
      · simp only [List.length_cons]
        omega
      · exact plainBits_cons (by omega) (plainBits_cons (by omega) (plainBits_cons (by omega)
          (plainBits_cons (by omega) (hbits _))))
      · simp only [groupBytes, firstByte, secondByte, thirdByte, List.cons_append, hbytes]

/-- The symbols of bytes are read as these bytes. -/
theorem decodeSymbols_base64Symbols (bytes : Bytes) :
    decodeSymbols (base64Symbols bytes) = .ok bytes := by
  by_cases hne : bytes = []
  · subst hne
    rfl
  · obtain ⟨leading, last, bits, hsymbols, hlength, hbits, hlast, hbytes⟩ := exists_leading hne
    obtain ⟨hfour, group, hgroup, hfinal⟩ := hlast leading.length
    rw [hsymbols, decodeSymbols_append hfour hlength (hbits 0) hgroup hfinal, hbytes]

/-! ## Texts -/

/-- Symbols are written as the characters with their numbers. -/
theorem toNat_lt_of_mem_base64Symbols {bytes : Bytes} :
    ∀ symbol ∈ base64Symbols bytes, symbol.toNat < 128 := by
  induction bytes using base64Symbols.induct with
  | case1 => simp [base64Symbols]
  | case2 a =>
    have ha := a.toNat_lt
    simp only [base64Symbols, List.forall_mem_cons]
    exact ⟨symbolOf_toNat_lt (by omega), symbolOf_toNat_lt (by omega), by decide, by decide,
      List.forall_mem_nil _⟩
  | case3 a b =>
    have ha := a.toNat_lt
    have hb := b.toNat_lt
    simp only [base64Symbols, List.forall_mem_cons]
    exact ⟨symbolOf_toNat_lt (by omega), symbolOf_toNat_lt (by omega),
      symbolOf_toNat_lt (by omega), by decide, List.forall_mem_nil _⟩
  | case4 a b c rest ih =>
    have ha := a.toNat_lt
    have hb := b.toNat_lt
    have hc := c.toNat_lt
    simp only [base64Symbols, List.forall_mem_cons]
    exact ⟨symbolOf_toNat_lt (by omega), symbolOf_toNat_lt (by omega),
      symbolOf_toNat_lt (by omega), symbolOf_toNat_lt (by omega), ih⟩

/-- The encoding of characters below 128 is the bytes with their numbers. -/
theorem flatMap_utf8EncodeChar_ofNat {symbols : Bytes}
    (h : ∀ symbol ∈ symbols, symbol.toNat < 128) :
    (symbols.map fun symbol => Char.ofNat symbol.toNat).flatMap String.utf8EncodeChar = symbols := by
  induction symbols with
  | nil => rfl
  | cons symbol more ih =>
    obtain ⟨hsymbol, hmore⟩ := List.forall_mem_cons.mp h
    have hchar : (Char.ofNat symbol.toNat).toNat = symbol.toNat :=
      toNat_charOfNat (.inl (by omega))
    rw [List.map_cons, List.flatMap_cons, utf8EncodeChar_eq, hchar, if_pos (by omega), ih hmore,
      UInt8.ofNat_toNat]
    rfl

/-- **Base64 is read back.** -/
theorem decodeBase64_encodeBase64 (bytes : Bytes) : decodeBase64 (encodeBase64 bytes) = .ok bytes := by
  rw [decodeBase64, encode, encodeBase64, String.toList_ofList,
    flatMap_utf8EncodeChar_ofNat toNat_lt_of_mem_base64Symbols, decodeSymbols_base64Symbols]

end EngineCatalog.Text
