import EngineCatalog.Text.Utf8
import Mathlib.Data.List.Basic

/-!
# Encoded text is read back

Main statement: bytes are decoded strictly exactly if they are the encoding of a text, and to that
text (`decode?_eq_some_iff`). Lossy decoding gives it back, too (`decodeLossy_encode`), and gives
nothing else without a U+FFFD in it (`encode_decodeLossy`).

A character's encoding is taken off the front whatever follows it (`frontOf_utf8EncodeChar`), and
what is taken off is the encoding of that character (`utf8EncodeChar_of_frontOf`), so the walk
through the bytes of a text meets its characters one by one.
-/

namespace EngineCatalog.Text

/-! ## Bytes by their numbers -/

theorem le_and_le_iff {low b high : UInt8} :
    (decide (low ≤ b) && decide (b ≤ high)) = true
      ↔ low.toNat ≤ b.toNat ∧ b.toNat ≤ high.toNat := by
  simp [UInt8.le_iff_toNat_le]

theorem isContinuation_iff {b : UInt8} :
    isContinuation b = true ↔ 128 ≤ b.toNat ∧ b.toNat ≤ 191 :=
  le_and_le_iff

/-- A byte that continues a character may stand second, unless the first byte is one of the four
that allow fewer. -/
theorem isSecond_iff {first second : UInt8} :
    isSecond first second = true ↔ (128 ≤ second.toNat ∧ second.toNat ≤ 191) ∧
      (first.toNat = 0xe0 → 160 ≤ second.toNat) ∧ (first.toNat = 0xed → second.toNat ≤ 159) ∧
      (first.toNat = 0xf0 → 144 ≤ second.toNat) ∧ (first.toNat = 0xf4 → second.toNat ≤ 143) := by
  have hne : ∀ {b : UInt8}, first ≠ b → first.toNat ≠ b.toNat := fun h heq =>
    h (UInt8.toNat_inj.mp heq)
  rw [isSecond, le_and_le_iff]
  unfold secondRange
  split
  case h_5 he0 hed hf0 hf4 =>
    have hothers : first.toNat ≠ 0xe0 ∧ first.toNat ≠ 0xed ∧ first.toNat ≠ 0xf0
        ∧ first.toNat ≠ 0xf4 := ⟨hne he0, hne hed, hne hf0, hne hf4⟩
    simp only [UInt8.reduceToNat]
    omega
  all_goals
    simp only [UInt8.reduceToNat, Nat.reduceEqDiff, true_imp_iff, false_imp_iff, and_true,
      true_and]
    omega

/-- The number of a byte that is made from a small number. -/
theorem toNat_ofNat_of_lt {n : Nat} (h : n < 256) : (UInt8.ofNat n).toNat = n := by
  rw [UInt8.toNat_ofNat', Nat.mod_eq_of_lt h]

/-- A byte is made from its number. -/
theorem ofNat_eq_of_toNat {b : UInt8} {n : Nat} (h : n = b.toNat) : UInt8.ofNat n = b := by
  rw [h, UInt8.ofNat_toNat]

/-- The number of a character that is made from a number. -/
theorem toNat_charOfNat {n : Nat} (h : n < 0xd800 ∨ (0xdfff < n ∧ n < 0x110000)) :
    (Char.ofNat n).toNat = n := by
  have hvalid : n.isValidChar := h
  rw [Char.ofNat, dif_pos hvalid]
  rfl

/-! ## One character -/

section Front

variable {first b c d : UInt8} {rest : Bytes}

theorem not_lt_of_toNat {bound : UInt8} (h : bound.toNat ≤ first.toNat) : ¬ first < bound := by
  rw [UInt8.lt_iff_toNat_lt]
  omega

/-- A first byte above a range is not in it. -/
theorem not_le_and_le {low high : UInt8} (h : high.toNat < first.toNat) :
    ¬ (decide (low ≤ first) && decide (first ≤ high)) = true := by
  rw [le_and_le_iff]
  omega

theorem frontOf_one (h : first.toNat < 128) :
    frontOf first rest = .char (Char.ofNat first.toNat) 1 := by
  unfold frontOf
  rw [if_pos (UInt8.lt_iff_toNat_lt.mpr h)]

theorem frontOf_two (hlow : 0xc2 ≤ first.toNat) (hhigh : first.toNat ≤ 0xdf)
    (hb : isContinuation b = true) :
    frontOf first (b :: rest) = .char (Char.ofNat (first.toNat % 32 * 64 + payload b)) 2 := by
  have hone : ¬ first < 0x80 := not_lt_of_toNat (Nat.le_trans (by decide) hlow)
  have htwo : (decide (0xc2 ≤ first) && decide (first ≤ 0xdf)) = true :=
    le_and_le_iff.mpr ⟨hlow, hhigh⟩
  simp only [frontOf, if_neg hone, if_pos htwo, if_pos hb]

theorem frontOf_three (hlow : 0xe0 ≤ first.toNat) (hhigh : first.toNat ≤ 0xef)
    (hb : isSecond first b = true) (hc : isContinuation c = true) :
    frontOf first (b :: c :: rest)
      = .char (Char.ofNat (first.toNat % 16 * 4096 + payload b * 64 + payload c)) 3 := by
  have hone : ¬ first < 0x80 := not_lt_of_toNat (Nat.le_trans (by decide) hlow)
  have htwo : ¬ (decide (0xc2 ≤ first) && decide (first ≤ 0xdf)) = true :=
    not_le_and_le (Nat.lt_of_lt_of_le (by decide) hlow)
  have hthree : (decide (0xe0 ≤ first) && decide (first ≤ 0xef)) = true :=
    le_and_le_iff.mpr ⟨hlow, hhigh⟩
  simp only [frontOf, if_neg hone, if_neg htwo, if_pos hthree, hb, hc, Bool.not_true,
    Bool.false_eq_true, if_false]

theorem frontOf_four (hlow : 0xf0 ≤ first.toNat) (hhigh : first.toNat ≤ 0xf4)
    (hb : isSecond first b = true) (hc : isContinuation c = true)
    (hd : isContinuation d = true) :
    frontOf first (b :: c :: d :: rest)
      = .char (Char.ofNat
          (first.toNat % 8 * 262144 + payload b * 4096 + payload c * 64 + payload d)) 4 := by
  have hone : ¬ first < 0x80 := not_lt_of_toNat (Nat.le_trans (by decide) hlow)
  have htwo : ¬ (decide (0xc2 ≤ first) && decide (first ≤ 0xdf)) = true :=
    not_le_and_le (Nat.lt_of_lt_of_le (by decide) hlow)
  have hthree : ¬ (decide (0xe0 ≤ first) && decide (first ≤ 0xef)) = true :=
    not_le_and_le (Nat.lt_of_lt_of_le (by decide) hlow)
  have hfour : (decide (0xf0 ≤ first) && decide (first ≤ 0xf4)) = true :=
    le_and_le_iff.mpr ⟨hlow, hhigh⟩
  simp only [frontOf, if_neg hone, if_neg htwo, if_neg hthree, if_pos hfour, hb, hc, hd,
    Bool.not_true, Bool.false_eq_true, if_false]

end Front

/-- A byte that continues an encoding carries six bits. -/
theorem continuation_ofNat (n : Nat) :
    isContinuation (UInt8.ofNat (n % 64 + 128)) = true
      ∧ payload (UInt8.ofNat (n % 64 + 128)) = n % 64
      ∧ (UInt8.ofNat (n % 64 + 128)).toNat = n % 64 + 128 := by
  have hnat : (UInt8.ofNat (n % 64 + 128)).toNat = n % 64 + 128 := toNat_ofNat_of_lt (by omega)
  refine ⟨isContinuation_iff.mpr ?_, ?_, hnat⟩
  · omega
  · rw [payload, hnat]
    omega

/-- The encoding of a character by its number. -/
theorem utf8EncodeChar_eq (c : Char) :
    String.utf8EncodeChar c =
      if c.toNat ≤ 127 then [UInt8.ofNat c.toNat]
      else if c.toNat ≤ 2047 then
        [UInt8.ofNat (c.toNat / 64 % 32 + 192), UInt8.ofNat (c.toNat % 64 + 128)]
      else if c.toNat ≤ 65535 then
        [UInt8.ofNat (c.toNat / 4096 % 16 + 224), UInt8.ofNat (c.toNat / 64 % 64 + 128),
          UInt8.ofNat (c.toNat % 64 + 128)]
      else
        [UInt8.ofNat (c.toNat / 262144 % 8 + 240), UInt8.ofNat (c.toNat / 4096 % 64 + 128),
          UInt8.ofNat (c.toNat / 64 % 64 + 128), UInt8.ofNat (c.toNat % 64 + 128)] :=
  String.utf8EncodeChar.eq_1 c

/-- Bytes below 128 stand for themselves, and for nothing else. -/
theorem toNat_of_mem_utf8EncodeChar {c : Char} {b : UInt8} (h : b ∈ String.utf8EncodeChar c) :
    b.toNat = c.toNat ∨ 128 ≤ b.toNat := by
  have hhigh : ∀ n, 128 ≤ n → n < 256 → 128 ≤ (UInt8.ofNat n).toNat := by
    intro n hlow hlt
    rw [toNat_ofNat_of_lt hlt]
    exact hlow
  rw [utf8EncodeChar_eq] at h
  split at h
  · obtain rfl := List.mem_singleton.mp h
    left
    exact toNat_ofNat_of_lt (by omega)
  · right
    split at h
    · simp only [List.mem_cons, List.not_mem_nil, or_false] at h
      rcases h with rfl | rfl <;> apply hhigh <;> omega
    · split at h
      · simp only [List.mem_cons, List.not_mem_nil, or_false] at h
        rcases h with rfl | rfl | rfl <;> apply hhigh <;> omega
      · simp only [List.mem_cons, List.not_mem_nil, or_false] at h
        rcases h with rfl | rfl | rfl | rfl <;> apply hhigh <;> omega

/-- The encoding of a character is taken off the front, whatever follows it. -/
theorem frontOf_utf8EncodeChar (c : Char) :
    ∃ first more, String.utf8EncodeChar c = first :: more ∧
      ∀ rest, frontOf first (more ++ rest) = .char c (more.length + 1) := by
  have hvalid : c.toNat < 0xd800 ∨ (0xdfff < c.toNat ∧ c.toNat < 0x110000) := c.valid
  have hchar : ∀ {n}, n = c.toNat → Char.ofNat n = c := fun h => h ▸ Char.ofNat_toNat c
  obtain ⟨hlast, hlastPayload, -⟩ := continuation_ofNat c.toNat
  obtain ⟨hmid, hmidPayload, hmidNat⟩ := continuation_ofNat (c.toNat / 64)
  obtain ⟨hhigh, hhighPayload, hhighNat⟩ := continuation_ofNat (c.toNat / 4096)
  rw [utf8EncodeChar_eq]
  by_cases hone : c.toNat ≤ 127
  · have hfirst : (UInt8.ofNat c.toNat).toNat = c.toNat := toNat_ofNat_of_lt (by omega)
    rw [if_pos hone]
    refine ⟨_, _, rfl, fun rest => ?_⟩
    rw [List.nil_append, frontOf_one (by omega), hfirst, hchar rfl, List.length_nil]
  · rw [if_neg hone]
    by_cases htwo : c.toNat ≤ 2047
    · have hfirst : (UInt8.ofNat (c.toNat / 64 % 32 + 192)).toNat = c.toNat / 64 % 32 + 192 :=
        toNat_ofNat_of_lt (by omega)
      rw [if_pos htwo]
      refine ⟨_, _, rfl, fun rest => ?_⟩
      rw [List.singleton_append, frontOf_two (by omega) (by omega) hlast, hfirst, hlastPayload,
        hchar (by omega), List.length_singleton]
    · rw [if_neg htwo]
      by_cases hthree : c.toNat ≤ 65535
      · have hfirst : (UInt8.ofNat (c.toNat / 4096 % 16 + 224)).toNat
            = c.toNat / 4096 % 16 + 224 := toNat_ofNat_of_lt (by omega)
        have hsecond : isSecond (UInt8.ofNat (c.toNat / 4096 % 16 + 224))
            (UInt8.ofNat (c.toNat / 64 % 64 + 128)) = true := by
          rw [isSecond_iff]
          omega
        rw [if_pos hthree]
        refine ⟨_, _, rfl, fun rest => ?_⟩
        rw [List.cons_append, List.singleton_append,
          frontOf_three (by omega) (by omega) hsecond hlast, hfirst, hmidPayload, hlastPayload,
          hchar (by omega)]
        rfl
      · have hfirst : (UInt8.ofNat (c.toNat / 262144 % 8 + 240)).toNat
            = c.toNat / 262144 % 8 + 240 := toNat_ofNat_of_lt (by omega)
        have hsecond : isSecond (UInt8.ofNat (c.toNat / 262144 % 8 + 240))
            (UInt8.ofNat (c.toNat / 4096 % 64 + 128)) = true := by
          rw [isSecond_iff]
          omega
        rw [if_neg hthree]
        refine ⟨_, _, rfl, fun rest => ?_⟩
        rw [List.cons_append, List.cons_append, List.singleton_append,
          frontOf_four (by omega) (by omega) hsecond hmid hlast, hfirst, hhighPayload,
          hmidPayload, hlastPayload, hchar (by omega)]
        rfl

/-! ## What is taken off the front -/

section Taken

variable {first b c d : UInt8} {rest : Bytes}

theorem utf8EncodeChar_two (hlow : 0xc2 ≤ first.toNat) (hhigh : first.toNat ≤ 0xdf)
    (hb : isContinuation b = true) :
    String.utf8EncodeChar (Char.ofNat (first.toNat % 32 * 64 + payload b)) = [first, b] := by
  obtain ⟨hblow, hbhigh⟩ := isContinuation_iff.mp hb
  have hn : (Char.ofNat (first.toNat % 32 * 64 + payload b)).toNat
      = first.toNat % 32 * 64 + payload b := toNat_charOfNat (by unfold payload; omega)
  rw [utf8EncodeChar_eq, hn, payload, if_neg (by omega), if_pos (by omega),
    ofNat_eq_of_toNat (b := first) (by omega), ofNat_eq_of_toNat (b := b) (by omega)]

theorem utf8EncodeChar_three (hlow : 0xe0 ≤ first.toNat) (hhigh : first.toNat ≤ 0xef)
    (hb : isSecond first b = true) (hc : isContinuation c = true) :
    String.utf8EncodeChar (Char.ofNat (first.toNat % 16 * 4096 + payload b * 64 + payload c))
      = [first, b, c] := by
  obtain ⟨hb, he0, hed, -⟩ := isSecond_iff.mp hb
  obtain ⟨hclow, hchigh⟩ := isContinuation_iff.mp hc
  have hn : (Char.ofNat (first.toNat % 16 * 4096 + payload b * 64 + payload c)).toNat
      = first.toNat % 16 * 4096 + payload b * 64 + payload c :=
    toNat_charOfNat (by unfold payload; omega)
  rw [utf8EncodeChar_eq, hn, payload, payload, if_neg (by omega), if_neg (by omega),
    if_pos (by omega), ofNat_eq_of_toNat (b := first) (by omega),
    ofNat_eq_of_toNat (b := b) (by omega), ofNat_eq_of_toNat (b := c) (by omega)]

theorem utf8EncodeChar_four (hlow : 0xf0 ≤ first.toNat) (hhigh : first.toNat ≤ 0xf4)
    (hb : isSecond first b = true) (hc : isContinuation c = true) (hd : isContinuation d = true) :
    String.utf8EncodeChar (Char.ofNat
        (first.toNat % 8 * 262144 + payload b * 4096 + payload c * 64 + payload d))
      = [first, b, c, d] := by
  obtain ⟨hb, -, -, hf0, hf4⟩ := isSecond_iff.mp hb
  obtain ⟨hclow, hchigh⟩ := isContinuation_iff.mp hc
  obtain ⟨hdlow, hdhigh⟩ := isContinuation_iff.mp hd
  have hn : (Char.ofNat
        (first.toNat % 8 * 262144 + payload b * 4096 + payload c * 64 + payload d)).toNat
      = first.toNat % 8 * 262144 + payload b * 4096 + payload c * 64 + payload d :=
    toNat_charOfNat (by unfold payload; omega)
  rw [utf8EncodeChar_eq, hn, payload, payload, payload, if_neg (by omega), if_neg (by omega),
    if_neg (by omega), ofNat_eq_of_toNat (b := first) (by omega),
    ofNat_eq_of_toNat (b := b) (by omega), ofNat_eq_of_toNat (b := c) (by omega),
    ofNat_eq_of_toNat (b := d) (by omega)]

/-- A character that is met at the front is the one whose encoding stands there. -/
theorem utf8EncodeChar_of_frontOf {c : Char} {length : Nat}
    (h : frontOf first rest = .char c length) :
    ∃ more tail, rest = more ++ tail ∧ more.length = length - 1 ∧
      String.utf8EncodeChar c = first :: more := by
  -- the first byte tells how long the character is, so there is one case for each length
  unfold frontOf at h
  split at h
  · rename_i hone
    obtain ⟨rfl, rfl⟩ := Front.char.inj h
    have hfirst : first.toNat < 128 := UInt8.lt_iff_toNat_lt.mp hone
    have hn : (Char.ofNat first.toNat).toNat = first.toNat := toNat_charOfNat (by omega)
    refine ⟨[], rest, rfl, rfl, ?_⟩
    rw [utf8EncodeChar_eq, hn, if_pos (by omega), UInt8.ofNat_toNat]
  split at h
  · rename_i htwo
    obtain ⟨hlow, hhigh⟩ := le_and_le_iff.mp htwo
    split at h
    · split at h
      · rename_i hb
        obtain ⟨rfl, rfl⟩ := Front.char.inj h
        exact ⟨[_], _, rfl, rfl, utf8EncodeChar_two hlow hhigh hb⟩
      · cases h
    · cases h
  split at h
  · rename_i hthree
    obtain ⟨hlow, hhigh⟩ := le_and_le_iff.mp hthree
    split at h
    · split at h
      · cases h
      split at h
      · cases h
      rename_i hb hc
      obtain ⟨rfl, rfl⟩ := Front.char.inj h
      refine ⟨[_, _], _, rfl, rfl, utf8EncodeChar_three hlow hhigh ?_ ?_⟩
      · simpa using hb
      · simpa using hc
    · split at h <;> cases h
    · cases h
  split at h
  · rename_i hfour
    obtain ⟨hlow, hhigh⟩ := le_and_le_iff.mp hfour
    split at h
    · split at h
      · cases h
      split at h
      · cases h
      split at h
      · cases h
      rename_i hb hc hd
      obtain ⟨rfl, rfl⟩ := Front.char.inj h
      refine ⟨[_, _, _], _, rfl, rfl, utf8EncodeChar_four hlow hhigh ?_ ?_ ?_⟩
      · simpa using hb
      · simpa using hc
      · simpa using hd
    · split at h
      · cases h
      · split at h <;> cases h
    · split at h <;> cases h
    · cases h
  · cases h

end Taken

/-! ## Texts -/

/-- Bytes that belong to a character already read are passed over. -/
theorem strictChars?_skip (skipped rest : Bytes) :
    strictChars? skipped.length (skipped ++ rest) = strictChars? 0 rest := by
  induction skipped with
  | nil => rfl
  | cons b more ih => exact ih

theorem strictChars?_encodeChar (c : Char) (rest : Bytes) :
    strictChars? 0 (String.utf8EncodeChar c ++ rest) = (strictChars? 0 rest).map (c :: ·) := by
  obtain ⟨first, more, hencode, hfront⟩ := frontOf_utf8EncodeChar c
  rw [hencode, List.cons_append, strictChars?, hfront]
  change (strictChars? more.length (more ++ rest)).map (c :: ·) = _
  rw [strictChars?_skip]

theorem strictChars?_encodeChars (cs : List Char) :
    strictChars? 0 (cs.flatMap String.utf8EncodeChar) = some cs := by
  induction cs with
  | nil => rfl
  | cons c rest ih => rw [List.flatMap_cons, strictChars?_encodeChar, ih, Option.map_some]

/-- The text whose encoding some bytes are is read back from them. -/
theorem decode?_encode (text : String) : decode? (encode text) = some text := by
  rw [decode?, encode, strictChars?_encodeChars, Option.map_some, String.ofList_toList]

/-- What is read strictly is encoded as it was read. -/
theorem encodeChars_of_strictChars? {skip : Nat} {bytes : Bytes} {cs : List Char}
    (h : strictChars? skip bytes = some cs) :
    cs.flatMap String.utf8EncodeChar = bytes.drop skip := by
  induction bytes generalizing skip cs with
  | nil =>
    obtain rfl := Option.some.inj h
    rw [List.drop_nil]
    rfl
  | cons b rest ih =>
    cases skip with
    | succ skip => exact ih h
    | zero =>
      rw [strictChars?] at h
      cases hfront : frontOf b rest with
      | char c length =>
        rw [hfront] at h
        obtain ⟨more, hmore, rfl⟩ := Option.map_eq_some_iff.mp h
        obtain ⟨encoded, tail, rfl, hlength, hencode⟩ := utf8EncodeChar_of_frontOf hfront
        rw [List.flatMap_cons, hencode, ih hmore, ← hlength, List.drop_left]
        rfl
      | lost length =>
        rw [hfront] at h
        cases h

/-- Bytes are read strictly exactly if they are the encoding of a text, and as that text. -/
theorem decode?_eq_some_iff {bytes : Bytes} {text : String} :
    decode? bytes = some text ↔ bytes = encode text := by
  constructor
  · intro h
    obtain ⟨cs, hcs, rfl⟩ := Option.map_eq_some_iff.mp h
    rw [encode, String.toList_ofList, encodeChars_of_strictChars? hcs]
    rfl
  · rintro rfl
    exact decode?_encode text

/-! ## Lossy decoding -/

/-- Where nothing is lost, both walks meet the same characters. -/
theorem lossyChars_of_strictChars? {skip : Nat} {bytes : Bytes} {cs : List Char}
    (h : strictChars? skip bytes = some cs) : lossyChars skip bytes = cs := by
  induction bytes generalizing skip cs with
  | nil =>
    obtain rfl := Option.some.inj h
    rfl
  | cons b rest ih =>
    cases skip with
    | succ skip => exact ih h
    | zero =>
      rw [strictChars?] at h
      rw [lossyChars]
      cases hfront : frontOf b rest with
      | char c length =>
        rw [hfront] at h
        obtain ⟨more, hmore, rfl⟩ := Option.map_eq_some_iff.mp h
        exact congrArg (c :: ·) (ih hmore)
      | lost length =>
        rw [hfront] at h
        cases h

/-- Lossy decoding gives back an encoded text, too. -/
theorem decodeLossy_encode (text : String) : decodeLossy (encode text) = text := by
  rw [decodeLossy, encode, lossyChars_of_strictChars? (strictChars?_encodeChars text.toList),
    String.ofList_toList]

/-- Where no U+FFFD is read, nothing was lost. -/
theorem strictChars?_of_not_mem {skip : Nat} {bytes : Bytes}
    (h : '\ufffd' ∉ lossyChars skip bytes) :
    strictChars? skip bytes = some (lossyChars skip bytes) := by
  induction bytes generalizing skip with
  | nil => rfl
  | cons b rest ih =>
    cases skip with
    | succ skip => exact ih h
    | zero =>
      rw [lossyChars] at h ⊢
      rw [strictChars?]
      cases hfront : frontOf b rest with
      | char c length =>
        rw [hfront] at h
        exact congrArg (Option.map (c :: ·)) (ih fun hmem => h (List.mem_cons_of_mem c hmem))
      | lost length =>
        rw [hfront] at h
        exact absurd List.mem_cons_self h

/-- So the bytes are the encoding of what was read. -/
theorem encode_decodeLossy {bytes : Bytes} (h : '\ufffd' ∉ (decodeLossy bytes).toList) :
    encode (decodeLossy bytes) = bytes := by
  rw [decodeLossy, String.toList_ofList] at h
  refine (decode?_eq_some_iff.mp ?_).symm
  rw [decode?, strictChars?_of_not_mem h]
  rfl

end EngineCatalog.Text
