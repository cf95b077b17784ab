import EngineCatalog.Proofs.Dict.Prefix
import EngineCatalog.Proofs.Text.Utf8
import Mathlib.Algebra.Group.Nat.Defs

/-!
# Texts by their bytes

Texts are put in order by the numbers of their characters. Their encodings have the same order,
byte by byte (`encode_lt_encode_iff`): a character's encoding starts with a byte that tells how many
follow, and these carry the digits of its number, the highest one first. Nor does it matter for what
a text starts with whether characters or bytes are compared (`startsWith_iff_encode`).
-/

namespace EngineCatalog.Text

/-! ## One character -/

/-- So many bytes that continue an encoding. They carry the lowest digits of a number to the base
64. -/
def continuations : Nat → Nat → Bytes
  | 0, _ => []
  | k + 1, n => UInt8.ofNat (n / 64 ^ k % 64 + 128) :: continuations k n

/-- How many bytes continue the encoding of a number. -/
def continuing (n : Nat) : Nat :=
  if n ≤ 127 then 0 else if n ≤ 2047 then 1 else if n ≤ 65535 then 2 else 3

/-- The first byte of the encoding of a number: its highest digits, marked by how many bytes
follow. -/
def leading (n : Nat) : Nat :=
  if n ≤ 127 then n
  else if n ≤ 2047 then n / 64 + 192
  else if n ≤ 65535 then n / 64 ^ 2 + 224
  else n / 64 ^ 3 + 240

theorem leading_lt {n : Nat} (h : n < 0x110000) : leading n < 256 := by
  unfold leading
  repeat' split
  all_goals omega

theorem toNat_lt_last (c : Char) : c.toNat < 0x110000 := by
  have hvalid : c.toNat < 0xd800 ∨ (0xdfff < c.toNat ∧ c.toNat < 0x110000) := c.valid
  omega

theorem utf8EncodeChar_eq_cons (c : Char) :
    String.utf8EncodeChar c
      = UInt8.ofNat (leading c.toNat) :: continuations (continuing c.toNat) c.toNat := by
  have hlast := toNat_lt_last c
  rw [utf8EncodeChar_eq, leading, continuing]
  -- the first byte has room for all of the highest digits
  by_cases hone : c.toNat ≤ 127
  · simp only [if_pos hone, continuations]
  · by_cases htwo : c.toNat ≤ 2047
    · have hfirst : c.toNat / 64 % 32 = c.toNat / 64 := by omega
      simp [if_neg hone, if_pos htwo, continuations, hfirst]
    · by_cases hthree : c.toNat ≤ 65535
      · have hfirst : c.toNat / 4096 % 16 = c.toNat / 4096 := by omega
        simp [if_neg hone, if_neg htwo, if_pos hthree, continuations, hfirst]
      · have hfirst : c.toNat / 262144 % 8 = c.toNat / 262144 := by omega
        simp [if_neg hone, if_neg htwo, if_neg hthree, continuations, hfirst]

/-- The first byte that differs decides. -/
theorem ofNat_cons_lt {a b : Nat} {as bs : Bytes} (ha : a < 256) (hb : b < 256)
    (h : a < b ∨ (a = b ∧ as < bs)) : UInt8.ofNat a :: as < UInt8.ofNat b :: bs := by
  rw [List.cons_lt_cons_iff, UInt8.lt_iff_toNat_lt, toNat_ofNat_of_lt ha, toNat_ofNat_of_lt hb]
  rcases h with hlt | ⟨rfl, hlt⟩
  · exact .inl hlt
  · exact .inr ⟨rfl, hlt⟩

/-- Of two numbers whose higher digits agree, the lower one has the lower bytes. -/
theorem continuations_append_lt {k n m : Nat} (hhigh : n / 64 ^ k = m / 64 ^ k) (hlt : n < m)
    (front back : Bytes) : continuations k n ++ front < continuations k m ++ back := by
  induction k with
  | zero =>
    simp only [Nat.pow_zero, Nat.div_one] at hhigh
    omega
  | succ k ih =>
    rw [Nat.pow_succ, ← Nat.div_div_eq_div_mul, ← Nat.div_div_eq_div_mul] at hhigh
    have hle : n / 64 ^ k ≤ m / 64 ^ k := Nat.div_le_div_right (Nat.le_of_lt hlt)
    refine ofNat_cons_lt (by omega) (by omega) ?_
    rcases Nat.lt_or_eq_of_le hle with hdigit | hdigit
    · exact .inl (by omega)
    · exact .inr ⟨by rw [hdigit], ih hdigit⟩

/-- Of two characters the lower one has the lower encoding, whatever follows. -/
theorem utf8EncodeChar_append_lt {c d : Char} (h : c < d) (front back : Bytes) :
    String.utf8EncodeChar c ++ front < String.utf8EncodeChar d ++ back := by
  have hlt : c.toNat < d.toNat := h
  have hcases : leading c.toNat < leading d.toNat ∨
      (leading c.toNat = leading d.toNat ∧ continuing c.toNat = continuing d.toNat ∧
        c.toNat / 64 ^ continuing c.toNat = d.toNat / 64 ^ continuing c.toNat) := by
    have hd := toNat_lt_last d
    unfold leading continuing
    repeat' split
    all_goals omega
  rw [utf8EncodeChar_eq_cons, utf8EncodeChar_eq_cons]
  refine ofNat_cons_lt (leading_lt (toNat_lt_last c)) (leading_lt (toNat_lt_last d)) ?_
  rcases hcases with hfirst | ⟨hfirst, hcount, hhigh⟩
  · exact .inl hfirst
  · exact .inr ⟨hfirst, hcount ▸ continuations_append_lt hhigh hlt front back⟩

/-! ## Texts -/

/-- Of two texts the lower one has the lower encoding. -/
theorem encodeChars_lt {cs ds : List Char} (h : cs < ds) :
    cs.flatMap String.utf8EncodeChar < ds.flatMap String.utf8EncodeChar := by
  induction cs generalizing ds with
  | nil =>
    cases ds with
    | nil => exact absurd h (List.lt_irrefl _)
    | cons d ds =>
      rw [List.flatMap_nil, List.flatMap_cons, utf8EncodeChar_eq_cons]
      exact List.nil_lt_cons _ _
  | cons c cs ih =>
    cases ds with
    | nil => exact absurd h (List.not_lt_nil _)
    | cons d ds =>
      rw [List.flatMap_cons, List.flatMap_cons]
      rcases List.cons_lt_cons_iff.mp h with hlt | ⟨rfl, hlt⟩
      · exact utf8EncodeChar_append_lt hlt _ _
      · exact List.append_left_lt (ih hlt)

/-- Texts are in the order of their bytes. -/
theorem encode_lt_encode_iff {one other : String} : encode one < encode other ↔ one < other := by
  have hlt : ∀ {a b : String}, a < b → encode a < encode b := fun h =>
    encodeChars_lt (String.lt_iff.mp h)
  refine ⟨fun h => ?_, hlt⟩
  by_contra hone
  by_cases hother : other < one
  · exact List.lt_asymm h (hlt hother)
  · obtain rfl := String.le_antisymm (String.not_lt.mp hother) (String.not_lt.mp hone)
    exact List.lt_irrefl _ h

/-- The bytes of a text are read back in front of whatever follows them. -/
theorem strictChars?_encodeChars_append (cs : List Char) (rest : Bytes) :
    strictChars? 0 (cs.flatMap String.utf8EncodeChar ++ rest)
      = (strictChars? 0 rest).map (cs ++ ·) := by
  induction cs with
  | nil => simp
  | cons c cs ih =>
    rw [List.flatMap_cons, List.append_assoc, strictChars?_encodeChar, ih, Option.map_map]
    rfl

/-- A text starts with another one if its bytes do. -/
theorem startsWith_iff_encode {part text : String} :
    startsWith part text = true ↔ encode part <+: encode text := by
  rw [startsWith_iff]
  constructor
  · rintro ⟨rest, hrest⟩
    rw [encode, encode, ← hrest, List.flatMap_append]
    exact List.prefix_append _ _
  · rintro ⟨rest, hrest⟩
    have hread := strictChars?_encodeChars_append part.toList rest
    rw [← encode, hrest, encode, strictChars?_encodeChars, eq_comm, Option.map_eq_some_iff] at hread
    obtain ⟨cs, -, hcs⟩ := hread
    exact ⟨cs, hcs⟩

end EngineCatalog.Text
