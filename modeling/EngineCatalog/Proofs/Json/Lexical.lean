import EngineCatalog.Json.Printer
import EngineCatalog.Json.Value
import EngineCatalog.Proofs.Text.Numeral
import EngineCatalog.Proofs.Text.Utf8
import Mathlib.Data.Nat.Digits.Defs

/-!
# Texts and numbers are read back

What is written as a quoted text or as a whole number is read back as it was: a text whatever stands
behind it (`readText_quotedTail`), a number if what stands behind it may follow a written value
(`readNumber_toDigits`). In the other direction, whole numbers that are read lie in the range of
those that are read back (`Number.Readable`).
-/

namespace EngineCatalog.Json

open Text

variable {α β : Type}

@[simp] theorem Reading.map_ok (f : α → β) (result : α) (rest : Bytes) :
    Reading.map f (.ok (result, rest)) = .ok (f result, rest) := rfl

@[simp] theorem Reading.map_error (f : α → β) (fault : Fault) :
    Reading.map f (.error fault) = .error fault := rfl

theorem Reading.map_map {γ : Type} (f : α → β) (g : β → γ) (reading : Reading α) :
    (reading.map f).map g = reading.map fun x => g (f x) := by
  match reading with
  | .ok _ => rfl
  | .error _ => rfl

theorem Reading.map_eq_ok_iff {f : α → β} {reading : Reading α} {result : β} {rest : Bytes} :
    reading.map f = .ok (result, rest) ↔ ∃ x, reading = .ok (x, rest) ∧ f x = result := by
  match reading with
  | .ok (x, more) => simp [Reading.map, and_comm]
  | .error fault => simp [Reading.map]

/-! ## Quoted texts -/

/-- An escape gives back what it stands for, and the walk goes on behind it. -/
theorem textBytes_escape {letters raw tail : Bytes}
    (h : readEscape (letters ++ tail) = .ok (raw, letters.length)) :
    textBytes 0 (backslashByte :: (letters ++ tail))
      = (textBytes 0 tail).map (raw ++ ·) := by
  have hskip : ∀ skipped : Bytes,
      textBytes skipped.length (skipped ++ tail) = textBytes 0 tail := by
    intro skipped
    induction skipped with
    | nil => rfl
    | cons b more ih => exact ih
  rw [textBytes, if_neg (by decide), if_pos rfl, h]
  change (textBytes letters.length (letters ++ tail)).map (raw ++ ·) = _
  rw [hskip]

/-- Bytes that are neither the quote, the backslash nor a control character stand for themselves. -/
theorem textBytes_plain {raw tail : Bytes}
    (h : ∀ b ∈ raw, b ≠ quoteByte ∧ b ≠ backslashByte ∧ ¬ b < 0x20) :
    textBytes 0 (raw ++ tail) = (textBytes 0 tail).map (raw ++ ·) := by
  induction raw with
  | nil =>
    match textBytes 0 tail with
    | .ok _ => rfl
    | .error _ => rfl
  | cons b more ih =>
    obtain ⟨⟨hquote, hbackslash, hcontrol⟩, hmore⟩ := List.forall_mem_cons.mp h
    rw [List.cons_append, textBytes, if_neg hquote, if_neg hbackslash, if_neg hcontrol, ih hmore]
    match textBytes 0 tail with
    | .ok _ => rfl
    | .error _ => rfl

/-- The bytes of a character have a meaning of their own only if the character itself has one. -/
theorem plain_of_mem_utf8EncodeChar {c : Char} {b : UInt8} (hquote : c ≠ '"')
    (hbackslash : c ≠ '\\') (hcontrol : ¬ c.toNat < 0x20) (hb : b ∈ String.utf8EncodeChar c) :
    b ≠ quoteByte ∧ b ≠ backslashByte ∧ ¬ b < 0x20 := by
  have hquoteNat : c.toNat ≠ 0x22 := fun h => hquote (Char.toNat_inj.mp h)
  have hbackslashNat : c.toNat ≠ 0x5c := fun h => hbackslash (Char.toNat_inj.mp h)
  have hnat := toNat_of_mem_utf8EncodeChar hb
  rw [UInt8.lt_iff_toNat_lt]
  change _ ∧ _ ∧ ¬ b.toNat < 0x20
  refine ⟨?_, ?_, by omega⟩
  · rintro rfl
    change 0x22 = c.toNat ∨ 128 ≤ 0x22 at hnat
    omega
  · rintro rfl
    change 0x5c = c.toNat ∨ 128 ≤ 0x5c at hnat
    omega

theorem hexValue?_hexDigitByte : ∀ d < 16, hexValue? (hexDigitByte d) = some d := by decide

/-- The escape of a control character by its number. -/
theorem readEscape_control {c : Char} (h : c.toNat < 0x20) (tail : Bytes) :
    readEscape (0x75 :: 0x30 :: 0x30 :: hexDigitByte (c.toNat / 16) :: hexDigitByte (c.toNat % 16)
      :: tail) = .ok (String.utf8EncodeChar c, 5) := by
  have hhex : fourHex (0x30 :: 0x30 :: hexDigitByte (c.toNat / 16)
      :: hexDigitByte (c.toNat % 16) :: tail) = .ok c.toNat := by
    have hzero : hexValue? 0x30 = some 0 := rfl
    rw [fourHex, hzero, hexValue?_hexDigitByte _ (by omega), hexValue?_hexDigitByte _ (by omega)]
    exact congrArg Except.ok (by omega)
  have hnumber : numberEscape (0x30 :: 0x30 :: hexDigitByte (c.toNat / 16)
      :: hexDigitByte (c.toNat % 16) :: tail) = .ok (numberBytes c.toNat, 4) := by
    have htrailing : isTrailing c.toNat = false := by
      simp only [isTrailing, Bool.and_eq_false_iff, decide_eq_false_iff_not]
      omega
    have hleading : isLeading c.toNat = false := by
      simp only [isLeading, Bool.and_eq_false_iff, decide_eq_false_iff_not]
      omega
    rw [numberEscape, hhex]
    change (if isTrailing c.toNat then _ else if !isLeading c.toNat then _ else _) = _
    rw [htrailing, hleading]
    rfl
  have hletter : simpleEscape? 0x75 = none := rfl
  rw [readEscape, hletter, hnumber, numberBytes, Char.ofNat_toNat]
  rfl

/-- A written character is read back as its encoding. -/
theorem textBytes_escapedChar (c : Char) (tail : Bytes) :
    textBytes 0 (escapedChar c ++ tail)
      = (textBytes 0 tail).map (String.utf8EncodeChar c ++ ·) := by
  unfold escapedChar
  split
  · exact @textBytes_escape [0x22] _ tail rfl
  · exact @textBytes_escape [0x5c] _ tail rfl
  · exact @textBytes_escape [0x6e] _ tail rfl
  · exact @textBytes_escape [0x72] _ tail rfl
  · exact @textBytes_escape [0x74] _ tail rfl
  · exact @textBytes_escape [0x62] _ tail rfl
  · exact @textBytes_escape [0x66] _ tail rfl
  · rename_i hquote hbackslash _ _ _ _ _
    by_cases hcontrol : c.toNat < 0x20
    · rw [if_pos hcontrol]
      exact @textBytes_escape [_, _, _, _, _] _ tail (readEscape_control hcontrol tail)
    · rw [if_neg hcontrol]
      exact textBytes_plain fun b hb =>
        plain_of_mem_utf8EncodeChar hquote hbackslash hcontrol hb

theorem textBytes_quotedTail (cs : List Char) (rest : Bytes) :
    textBytes 0 (quotedTail cs ++ rest) = .ok (cs.flatMap String.utf8EncodeChar, rest) := by
  induction cs with
  | nil => rfl
  | cons c more ih =>
    rw [quotedTail, List.append_assoc, textBytes_escapedChar, ih, List.flatMap_cons,
      Reading.map_ok]

/-- A written text is read back, whatever stands behind it. -/
theorem readText_quotedTail (text : String) (rest : Bytes) :
    readText (quotedTail text.toList ++ rest) = .ok (text, rest) := by
  have hdecode : decode? (text.toList.flatMap String.utf8EncodeChar) = some text :=
    decode?_encode text
  rw [readText, textBytes_quotedTail]
  simp only [hdecode]

/-! ## Whole numbers -/

/-- What stands behind a written value: nothing, or what separates it from others. -/
def EndsValue (rest : Bytes) : Prop :=
  ∀ b ∈ rest.head?, b = commaByte ∨ b = listEnd ∨ b = objectEnd

theorem endsValue_nil : EndsValue [] := nofun

theorem endsValue_cons {b : UInt8} {rest : Bytes}
    (h : b = commaByte ∨ b = listEnd ∨ b = objectEnd) : EndsValue (b :: rest) := by
  rintro _ hb
  obtain rfl := Option.some.inj hb
  exact h

/-- Nothing that may stand behind a written value goes on with a number. -/
theorem EndsValue.ends_number {rest : Bytes} (h : EndsValue rest) :
    ∀ b ∈ rest.head?, isDigitByte b = false ∧ b ≠ 0x2e ∧ b ≠ 0x65 ∧ b ≠ 0x45 := by
  intro b hb
  rcases h b hb with rfl | rfl | rfl <;> decide

theorem isDigitByte_ofNat {c : Char} (h : c.isDigit = true) :
    isDigitByte (UInt8.ofNat c.toNat) = true ∧
      digitOf (UInt8.ofNat c.toNat) = c.toNat - '0'.toNat := by
  have hrange := toNat_of_isDigit h
  have hnat : (UInt8.ofNat c.toNat).toNat = c.toNat := toNat_ofNat_of_lt (by omega)
  refine ⟨le_and_le_iff.mpr ?_, ?_⟩
  · rw [hnat]
    exact hrange
  · rw [digitOf, hnat]
    rfl

/-- Where the whole number fits into 64 bits, no digit is left over. -/
theorem takeSignificant_asciiBytes {cs : List Char} {value : Nat}
    (hdigits : ∀ c ∈ cs, c.isDigit = true) (h : Nat.ofDigitChars 10 cs value < Nat.pow 2 64) :
    takeSignificant value (asciiBytes cs) = (Nat.ofDigitChars 10 cs value, 0) := by
  induction cs generalizing value with
  | nil => rfl
  | cons c more ih =>
    obtain ⟨hc, hmore⟩ := List.forall_mem_cons.mp hdigits
    obtain ⟨-, hvalue⟩ := isDigitByte_ofNat hc
    rw [Nat.ofDigitChars_cons, Nat.mul_comm] at h ⊢
    have hfits := Nat.lt_of_le_of_lt (le_ofDigitChars more _) h
    change takeSignificant value (UInt8.ofNat c.toNat :: asciiBytes more) = _
    rw [takeSignificant, hvalue, if_pos hfits, ih hmore h]

/-- Only zero is written with a zero at its front. -/
theorem head?_toDigits {n : Nat} (h : 0 < n) : (Nat.toDigits 10 n).head? ≠ some '0' := by
  induction n using Nat.strongRecOn with
  | ind n ih =>
    rw [Nat.toDigits_eq_if (by decide)]
    by_cases hsmall : n < 10
    · rw [if_pos hsmall, List.head?_cons]
      intro hzero
      have hn := Nat.digitChar_eq_zero.mp (Option.some.inj hzero)
      omega
    · rw [if_neg hsmall, List.head?_append_of_ne_nil _ Nat.toDigits_ne_nil]
      exact ih (n / 10) (by omega) (by omega)

/-- The digits are split off as they were put before the rest. -/
theorem splitDigits_append {digits rest : Bytes} (hdigits : ∀ b ∈ digits, isDigitByte b = true)
    (hrest : EndsValue rest) : splitDigits (digits ++ rest) = (digits, rest) := by
  have hfirst : rest.takeWhile isDigitByte = [] ∧ rest.dropWhile isDigitByte = rest := by
    cases rest with
    | nil => exact ⟨rfl, rfl⟩
    | cons b more =>
      obtain ⟨hb, -⟩ := hrest.ends_number b rfl
      simp [hb]
  rw [splitDigits, List.takeWhile_append_of_pos hdigits, List.dropWhile_append_of_pos hdigits,
    hfirst.1, hfirst.2, List.append_nil]

/-- A number without point and power is whole. -/
theorem readNumber_of_splitDigits {negative : Bool} {b : UInt8} {after digits rest : Bytes}
    {significand : Nat} (hb : isDigitByte b = true)
    (hzero : b = 0x30 → (after.head?.map isDigitByte).getD false = false)
    (hsplit : splitDigits (b :: after) = (digits, rest))
    (hsignificant : takeSignificant 0 digits = (significand, 0)) (hrest : EndsValue rest) :
    readNumber negative (b :: after) = .ok (wholeNumber negative significand, rest) := by
  have hlead : ¬ (b = 0x30 ∧ (after.head?.map isDigitByte).getD false = true) := by
    rintro ⟨hb, hnext⟩
    rw [hzero hb] at hnext
    cases hnext
  simp only [readNumber, hb, if_neg hlead, hsplit, hsignificant, Bool.not_true,
    Bool.false_eq_true, if_false]
  cases rest with
  | nil => rfl
  | cons next more =>
    obtain ⟨-, hpoint, he, hE⟩ := hrest.ends_number next rfl
    split
    · rename_i heq
      exact absurd (List.cons.inj heq).1 hpoint
    · simp [he, hE]

/-- The digits of a written number are read back as that number. -/
theorem readNumber_toDigits (negative : Bool) {n : Nat} (hn : n < Nat.pow 2 64) {rest : Bytes}
    (hrest : EndsValue rest) :
    readNumber negative (asciiBytes (Nat.toDigits 10 n) ++ rest)
      = .ok (wholeNumber negative n, rest) := by
  have hdigits : ∀ c ∈ Nat.toDigits 10 n, c.isDigit = true := fun c hc =>
    Nat.isDigit_of_mem_toDigits (by decide) (by decide) hc
  have hbytes : ∀ b ∈ asciiBytes (Nat.toDigits 10 n), isDigitByte b = true := by
    intro b hb
    obtain ⟨c, hc, rfl⟩ := List.mem_map.mp hb
    exact (isDigitByte_ofNat (hdigits c hc)).1
  have hvalue : Nat.ofDigitChars 10 (Nat.toDigits 10 n) 0 = n := Nat.ofDigitChars_ten_toDigits
  have hsignificant : takeSignificant 0 (asciiBytes (Nat.toDigits 10 n)) = (n, 0) := by
    rw [takeSignificant_asciiBytes hdigits (by rwa [hvalue]), hvalue]
  have hsplit := splitDigits_append hbytes hrest
  have hne : Nat.toDigits 10 n ≠ [] := Nat.toDigits_ne_nil
  obtain ⟨c, more, hcons⟩ := List.exists_cons_of_ne_nil hne
  rw [hcons] at hdigits hbytes hsignificant hsplit ⊢
  refine readNumber_of_splitDigits (hbytes _ List.mem_cons_self) ?_ hsplit hsignificant hrest
  intro hzero
  -- a zero at the front is all that is written
  have hn : n = 0 := by
    by_contra hpos
    refine head?_toDigits (Nat.pos_of_ne_zero hpos) ?_
    have hc : c.toNat = '0'.toNat := by
      have hrange := toNat_of_isDigit (hdigits c List.mem_cons_self)
      have hnat := congrArg UInt8.toNat hzero
      rwa [toNat_ofNat_of_lt (by omega)] at hnat
    rw [hcons, List.head?_cons, Char.toNat_inj.mp hc]
  have hmore : more = [] := by
    rw [hn] at hcons
    exact (List.cons.inj hcons).2.symm
  rw [hmore]
  cases hhead : rest.head? with
  | none => simp [hhead]
  | some b => simp [hhead, (hrest.ends_number b hhead).1]

/-! ## The range of whole numbers -/

/-- The number fits into 64 bits, with or without sign. -/
def FitsWord (n : Int) : Prop :=
  -(Nat.pow 2 63 : Int) ≤ n ∧ n < Nat.pow 2 64

/-- The number with the sign and the digits of one that fits is that number. -/
theorem wholeNumber_natAbs {n : Int} (h : FitsWord n) :
    wholeNumber (decide (n < 0)) n.natAbs = .int n := by
  have h63 : Nat.pow 2 63 = 9223372036854775808 := rfl
  have h64 : Nat.pow 2 64 = 18446744073709551616 := rfl
  rw [FitsWord, h63, h64] at h
  rw [wholeNumber, h63]
  by_cases hneg : n < 0
  · have hrange : 0 < n.natAbs ∧ n.natAbs ≤ 9223372036854775808 := by omega
    have habs : -(n.natAbs : Int) = n := by omega
    simp only [hneg, decide_true, Bool.not_true, Bool.false_eq_true, if_false, if_pos hrange, habs]
  · have habs : (n.natAbs : Int) = n := by omega
    simp only [hneg, decide_false, Bool.not_false, if_true, habs]

theorem takeSignificant_lt {value : Nat} (digits : Bytes) (h : value < Nat.pow 2 64) :
    (takeSignificant value digits).1 < Nat.pow 2 64 := by
  induction digits generalizing value with
  | nil => exact h
  | cons digit more ih =>
    rw [takeSignificant]
    by_cases hfits : value * 10 + digitOf digit < Nat.pow 2 64
    · rw [if_pos hfits]
      exact ih hfits
    · rw [if_neg hfits]
      exact h

theorem fitsWord_of_wholeNumber {negative : Bool} {significand : Nat} {n : Int}
    (hlt : significand < Nat.pow 2 64) (h : wholeNumber negative significand = .int n) :
    FitsWord n := by
  have h63 : Nat.pow 2 63 = 9223372036854775808 := rfl
  have h64 : Nat.pow 2 64 = 18446744073709551616 := rfl
  rw [FitsWord, h63, h64]
  rw [h64] at hlt
  rw [wholeNumber] at h
  cases negative with
  | false =>
    obtain rfl := Number.int.inj h
    omega
  | true =>
    rw [if_neg (by decide), h63] at h
    split at h
    · obtain rfl := Number.int.inj h
      omega
    · cases h

section Float

variable {negative : Bool} {significand : Nat} {power : Int} {bytes rest : Bytes} {n : Int}

/-- A number with a power of ten is not whole. -/
theorem readPower_ne_int : readPower negative significand power bytes ≠ .ok (.int n, rest) := by
  intro h
  unfold readPower at h
  split at h
  dsimp only at h
  split at h
  · cases h
  · split at h
    · cases h
    · split at h <;> split at h <;> cases h

theorem finishFloat_ne_int :
    finishFloat negative significand power bytes ≠ .ok (.int n, rest) := by
  intro h
  unfold finishFloat at h
  dsimp only at h
  split at h
  · exact readPower_ne_int h
  · exact readPower_ne_int h
  · split at h <;> cases h

/-- A number with a point is not whole. -/
theorem readFraction_ne_int :
    readFraction negative significand power bytes ≠ .ok (.int n, rest) := by
  intro h
  unfold readFraction at h
  dsimp only at h
  split at h
  · split at h <;> cases h
  · exact finishFloat_ne_int h

/-- A whole number that is read fits into 64 bits. -/
theorem fitsWord_of_readNumber (h : readNumber negative bytes = .ok (.int n, rest)) :
    FitsWord n := by
  unfold readNumber at h
  split at h
  · cases h
  · rename_i b after
    split at h
    · cases h
    · split at h
      · cases h
      · dsimp only at h
        have hlt : (takeSignificant 0 (splitDigits (b :: after)).1).1 < Nat.pow 2 64 :=
          takeSignificant_lt _ (by decide)
        split at h
        · exact absurd h readFraction_ne_int
        · split at h
          · exact absurd h finishFloat_ne_int
          · obtain ⟨hwhole, -⟩ := Prod.mk.inj (Except.ok.inj h)
            exact fitsWord_of_wholeNumber hlt hwhole

end Float

end EngineCatalog.Json
