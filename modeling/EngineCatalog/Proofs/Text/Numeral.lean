import EngineCatalog.Proofs.Text.Blank
import EngineCatalog.Text.Numeral
import Mathlib.Data.Nat.Digits.Defs

/-!
# Numerals are read back

A number below a bound is read from its numerals, and from no other characters
(`readNumeral_eq_ok_iff`); what is wrong with the others is told by the digits they start with
(`readNumeral_eq_error_iff`). So a number that fits into a 64-bit word is read back from its decimal
digits, also after white space is taken off both ends: there is none (`readWord_trim_toString`).

* `Numeral` — how a number is written: decimal digits, with a sign before them or without.
* `NumeralFault.IsOf` — what is wrong with characters that are no numeral below a bound.
-/

namespace EngineCatalog.Text

/-! ## Digits -/

/-- More digits make no number smaller. -/
theorem le_ofDigitChars (cs : List Char) (value : Nat) : value ≤ Nat.ofDigitChars 10 cs value := by
  induction cs generalizing value with
  | nil => exact Nat.le_refl _
  | cons c more ih =>
    rw [Nat.ofDigitChars_cons]
    exact Nat.le_trans (by omega) (ih _)

theorem toNat_of_isDigit {c : Char} (h : c.isDigit = true) : 48 ≤ c.toNat ∧ c.toNat ≤ 57 := by
  simpa [Char.isDigit, UInt32.le_iff_toNat_le] using h

theorem digitValue?_eq (c : Char) :
    digitValue? c = if c.isDigit then some (c.toNat - '0'.toNat) else none := rfl

theorem areDigits_iff {cs : List Char} :
    areDigits cs = true ↔ cs ≠ [] ∧ ∀ c ∈ cs, c.isDigit = true := by
  simp [areDigits]

/-- The digits at the front decide. If they reach the bound, it does not matter what follows them;
otherwise nothing may follow. -/
theorem readDigits_eq {bound value : Nat} (h : value < bound) (cs : List Char) :
    readDigits bound value cs =
      if bound ≤ Nat.ofDigitChars 10 (cs.takeWhile Char.isDigit) value then .error .tooLarge
      else if cs.all Char.isDigit then .ok (Nat.ofDigitChars 10 cs value)
      else .error .invalidDigit := by
  induction cs generalizing value with
  | nil =>
    rw [List.takeWhile_nil, Nat.ofDigitChars_nil, if_neg (Nat.not_le_of_lt h)]
    rfl
  | cons c more ih =>
    rw [readDigits, digitValue?_eq]
    by_cases hc : c.isDigit = true
    · rw [if_pos hc, List.takeWhile_cons_of_pos hc, List.all_cons, hc, Bool.true_and,
        Nat.ofDigitChars_cons, Nat.ofDigitChars_cons, Nat.mul_comm]
      dsimp only
      split
      · rename_i hfits
        exact ih hfits
      · rename_i hlarge
        rw [if_pos (Nat.le_trans (Nat.le_of_not_lt hlarge) (le_ofDigitChars _ _))]
    · rw [if_neg hc, List.takeWhile_cons_of_neg hc, Nat.ofDigitChars_nil,
        if_neg (Nat.not_le_of_lt h), List.all_cons, Bool.eq_false_iff.mpr hc]
      rfl

/-! ## Numerals -/

/-- How a number is written: in decimal digits, one at least, with a single `+` before them or
without. Zeros may stand at the front. -/
inductive Numeral : List Char → Nat → Prop where
  /-- digits alone -/
  | digits {cs : List Char} (h : areDigits cs = true) : Numeral cs (Nat.ofDigitChars 10 cs 0)
  /-- digits behind a sign -/
  | signed {cs : List Char} (h : areDigits cs = true) :
    Numeral ('+' :: cs) (Nat.ofDigitChars 10 cs 0)

/-- Digits and the sign are all that numerals are made of. -/
theorem Numeral.eq_or_isDigit {cs : List Char} {n : Nat} (h : Numeral cs n) :
    ∀ c ∈ cs, c = '+' ∨ c.isDigit = true := by
  cases h with
  | digits h => exact fun c hc => .inr ((areDigits_iff.mp h).2 c hc)
  | signed h =>
    intro c hc
    rcases List.mem_cons.mp hc with rfl | hc
    · exact .inl rfl
    · exact .inr ((areDigits_iff.mp h).2 c hc)

/-- There is no white space in a numeral. -/
theorem Numeral.not_isSpace {cs : List Char} {n : Nat} (h : Numeral cs n) :
    ∀ c ∈ cs, isSpace c = false := by
  intro c hc
  rcases h.eq_or_isDigit c hc with rfl | hdigit
  · rfl
  · have hrange := toNat_of_isDigit hdigit
    simp only [isSpace, Bool.or_eq_false_iff, Bool.and_eq_false_iff, decide_eq_false_iff_not]
    omega

theorem areDigits_toString (n : Nat) : areDigits (toString n).toList = true := by
  rw [Nat.toString_eq_ofList_toDigits, String.toList_ofList]
  exact areDigits_iff.mpr ⟨Nat.toDigits_ne_nil, fun c hc =>
    Nat.isDigit_of_mem_toDigits (by decide) (by decide) hc⟩

/-- The decimal digits of a number are its numeral. -/
theorem numeral_toString (n : Nat) : Numeral (toString n).toList n := by
  have hnumeral := Numeral.digits (areDigits_toString n)
  have hvalue : Nat.ofDigitChars 10 (toString n).toList 0 = n := by
    rw [Nat.toString_eq_ofList_toDigits, String.toList_ofList, Nat.ofDigitChars_ten_toDigits]
  rwa [hvalue] at hnumeral

/-! ## Without the sign -/

/-- The characters without the sign that they start with. -/
def unsigned : List Char → List Char
  | '+' :: cs => cs
  | cs => cs

theorem unsigned_of_ne {c : Char} (h : c ≠ '+') (cs : List Char) :
    unsigned (c :: cs) = c :: cs := by
  rw [unsigned]
  exact fun _ heq => h (List.cons.inj heq).1

theorem unsigned_of_areDigits {cs : List Char} (h : areDigits cs = true) : unsigned cs = cs := by
  obtain ⟨hne, hdigits⟩ := areDigits_iff.mp h
  obtain ⟨c, more, rfl⟩ := List.exists_cons_of_ne_nil hne
  refine unsigned_of_ne ?_ more
  rintro rfl
  exact absurd (hdigits '+' List.mem_cons_self) (by decide)

/-- Only a sign has nothing behind its sign. -/
theorem eq_sign_of_unsigned {cs : List Char} (hne : cs ≠ []) (h : unsigned cs = []) :
    cs = ['+'] := by
  obtain ⟨c, more, rfl⟩ := List.exists_cons_of_ne_nil hne
  by_cases hsign : c = '+'
  · subst hsign
    exact congrArg ('+' :: ·) h
  · rw [unsigned_of_ne hsign] at h
    cases h

/-- A numeral writes what its digits write. -/
theorem numeral_iff {cs : List Char} {n : Nat} :
    Numeral cs n ↔ areDigits (unsigned cs) = true ∧ Nat.ofDigitChars 10 (unsigned cs) 0 = n := by
  constructor
  · intro h
    cases h with
    | digits h =>
      rw [unsigned_of_areDigits h]
      exact ⟨h, rfl⟩
    | signed h => exact ⟨h, rfl⟩
  · rintro ⟨h, rfl⟩
    match cs with
    | [] => cases h
    | c :: more =>
      by_cases hsign : c = '+'
      · subst hsign
        exact .signed h
      · rw [unsigned_of_ne hsign] at h ⊢
        exact .digits h

/-! ## Reading -/

/-- What stands behind the sign is read as digits. -/
theorem readNumeral_eq_readDigits {bound : Nat} {cs : List Char} (h : unsigned cs ≠ []) :
    readNumeral bound cs = readDigits bound 0 (unsigned cs) := by
  match cs with
  | [] => exact absurd rfl h
  | c :: more =>
    by_cases hsign : c = '+'
    · subst hsign
      match more with
      | [] => exact absurd rfl h
      | d :: more => rfl
    · rw [unsigned_of_ne hsign, readNumeral]
      · nofun
      · exact fun heq => hsign (List.cons.inj heq).1
      · exact fun _ heq => hsign (List.cons.inj heq).1

/-- All characters are read, whatever they are. -/
theorem readNumeral_eq {bound : Nat} (h : 0 < bound) (cs : List Char) :
    readNumeral bound cs =
      if cs = [] then .error .empty
      else if bound ≤ Nat.ofDigitChars 10 ((unsigned cs).takeWhile Char.isDigit) 0 then
        .error .tooLarge
      else if areDigits (unsigned cs) then .ok (Nat.ofDigitChars 10 (unsigned cs) 0)
      else .error .invalidDigit := by
  by_cases hcs : cs = []
  · rw [if_pos hcs, hcs]
    rfl
  rw [if_neg hcs]
  by_cases hrest : unsigned cs = []
  · rw [hrest, List.takeWhile_nil, Nat.ofDigitChars_nil, if_neg (Nat.not_le_of_lt h),
      eq_sign_of_unsigned hcs hrest]
    rfl
  · have hall : areDigits (unsigned cs) = (unsigned cs).all Char.isDigit := by
      simp [areDigits, hrest]
    rw [readNumeral_eq_readDigits hrest, readDigits_eq h, hall]

/-- A number below the bound is read from its numerals, and from nothing else. -/
theorem readNumeral_eq_ok_iff {bound n : Nat} (h : 0 < bound) {cs : List Char} :
    readNumeral bound cs = .ok n ↔ Numeral cs n ∧ n < bound := by
  rw [readNumeral_eq h, numeral_iff]
  by_cases hdigits : areDigits (unsigned cs) = true
  · have hcs : cs ≠ [] := by
      rintro rfl
      cases hdigits
    have hfront : (unsigned cs).takeWhile Char.isDigit = unsigned cs :=
      List.takeWhile_eq_self_iff.mpr (areDigits_iff.mp hdigits).2
    rw [if_neg hcs, hfront, if_pos hdigits]
    by_cases hbound : bound ≤ Nat.ofDigitChars 10 (unsigned cs) 0
    · rw [if_pos hbound]
      refine iff_of_false nofun ?_
      rintro ⟨⟨-, rfl⟩, hlt⟩
      exact Nat.not_le_of_lt hlt hbound
    · rw [if_neg hbound, Except.ok.injEq]
      refine ⟨?_, fun hn => hn.1.2⟩
      rintro rfl
      exact ⟨⟨hdigits, rfl⟩, Nat.lt_of_not_le hbound⟩
  · rw [if_neg hdigits]
    refine iff_of_false (fun heq => ?_) fun hn => hdigits hn.1.1
    split at heq
    · cases heq
    · split at heq <;> cases heq

/-- What is wrong with characters that write no number below the bound. Of what stands behind the
sign the digits up to the first other character decide: where they reach the bound the number is too
large, whatever follows them. -/
def NumeralFault.IsOf (bound : Nat) (cs : List Char) : NumeralFault → Prop
  | .empty => cs = []
  | .invalidDigit => cs ≠ [] ∧ areDigits (unsigned cs) = false ∧
    Nat.ofDigitChars 10 ((unsigned cs).takeWhile Char.isDigit) 0 < bound
  | .tooLarge => bound ≤ Nat.ofDigitChars 10 ((unsigned cs).takeWhile Char.isDigit) 0

/-- Characters are refused for what is wrong with them. -/
theorem readNumeral_eq_error_iff {bound : Nat} (h : 0 < bound) {cs : List Char}
    {fault : NumeralFault} : readNumeral bound cs = .error fault ↔ fault.IsOf bound cs := by
  rw [readNumeral_eq h]
  by_cases hcs : cs = []
  · subst hcs
    have hsmall : ¬ bound ≤ Nat.ofDigitChars 10 ((unsigned []).takeWhile Char.isDigit) 0 :=
      Nat.not_le_of_lt h
    cases fault <;> simp [NumeralFault.IsOf, hsmall]
  rw [if_neg hcs]
  by_cases hbound : bound ≤ Nat.ofDigitChars 10 ((unsigned cs).takeWhile Char.isDigit) 0
  · rw [if_pos hbound]
    cases fault <;> simp [NumeralFault.IsOf, hcs, hbound]
  · rw [if_neg hbound]
    have hlt := Nat.lt_of_not_le hbound
    by_cases hdigits : areDigits (unsigned cs) = true <;>
      cases fault <;> simp [NumeralFault.IsOf, hcs, hbound, hdigits, hlt]

/-- Something is wrong with all characters but the numerals of numbers below the bound. -/
theorem exists_isOf_iff {bound : Nat} (h : 0 < bound) {cs : List Char} :
    (∃ fault : NumeralFault, fault.IsOf bound cs) ↔ ¬ ∃ n, Numeral cs n ∧ n < bound := by
  simp only [← readNumeral_eq_error_iff h, ← readNumeral_eq_ok_iff h]
  cases readNumeral bound cs <;> simp

/-- Digits that reach the bound are met before the character that is none. -/
example : readNumeral 256 "300x".toList = .error .tooLarge ∧
    readNumeral 256 "30x".toList = .error .invalidDigit := ⟨rfl, rfl⟩

/-! ## Words -/

theorem wordBound_eq : wordBound = 2 ^ 64 := rfl

theorem wordBound_pos : 0 < wordBound := Nat.two_pow_pos 64

/-- White space around a numeral is taken off, and nothing of the numeral. -/
theorem Numeral.trim_append {before numeral after : String} {n : Nat}
    (h : Numeral numeral.toList n) (hbefore : isBlank before = true)
    (hafter : isBlank after = true) : trim (before ++ numeral ++ after) = numeral :=
  Text.trim_append hbefore hafter (fun c hc => h.not_isSpace c (List.mem_of_mem_head? hc))
    fun c hc => h.not_isSpace c (List.mem_of_mem_getLast? hc)

/-- The digits of a number have no white space to be taken off. -/
theorem trim_toString (n : Nat) : trim (toString n) = toString n := by
  have heq : trim ("" ++ toString n ++ "") = toString n :=
    (numeral_toString n).trim_append rfl rfl
  rwa [String.empty_append, String.append_empty] at heq

/-- A number is read back from its digits, with white space taken off them. -/
theorem readWord_trim_toString {n : Nat} (h : n < wordBound) :
    readWord (trim (toString n)) = .ok n := by
  rw [readWord, trim_toString, readNumeral_eq_ok_iff wordBound_pos]
  exact ⟨numeral_toString n, h⟩

end EngineCatalog.Text
