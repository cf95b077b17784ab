import EngineCatalog.Layout.Basic
import EngineCatalog.Proofs.Dict.Prefix
import EngineCatalog.Variable.Name
import Mathlib.Data.List.Basic

/-!
# Direct children of a path

The key of a variable is the path of all variables, a slash, and the variable's name. Main
statement: the direct children of a path are the keys of that form whose last part is a segment
(`childKey?_eq_some_iff`), so the name is read off the key that it was put into, and off no other.
-/

namespace EngineCatalog

theorem dropStart?_eq_some_iff {part cs rest : List Char} :
    dropStart? part cs = some rest ↔ cs = part ++ rest := by
  induction part generalizing cs with
  | nil => simp [dropStart?, eq_comm]
  | cons p part ih =>
    cases cs with
    | nil => simp [dropStart?]
    | cons c cs =>
      rw [dropStart?]
      by_cases hc : p = c
      · rw [if_pos hc, ih, hc, List.cons_append, List.cons_inj_right]
      · rw [if_neg hc, List.cons_append, List.cons_eq_cons]
        simp [Ne.symm hc]

/-- The direct children of a path are the path, a slash, and a segment. -/
theorem childKey?_eq_some_iff {path key name : String} :
    childKey? path key = some name
      ↔ isSegment name.toList = true ∧ key = path ++ "/" ++ name := by
  have hkey : key = path ++ "/" ++ name ↔ key.toList = path.toList ++ '/' :: name.toList := by
    rw [← String.toList_inj]
    simp
  rw [hkey, ← dropStart?_eq_some_iff, childKey?]
  constructor
  · intro h
    split at h
    · rename_i child hdrop
      split at h
      · rename_i hsegment
        obtain rfl := Option.some.inj h
        rw [String.toList_ofList]
        exact ⟨hsegment, hdrop⟩
      · cases h
    · cases h
  · rintro ⟨hsegment, hdrop⟩
    rw [hdrop]
    simp [hsegment]

theorem startsWith_of_childKey? {path key name : String} (h : childKey? path key = some name) :
    startsWith path key = true := by
  obtain ⟨-, rfl⟩ := childKey?_eq_some_iff.mp h
  rw [startsWith_iff]
  exact ⟨'/' :: name.toList, by simp⟩

/-! ## The last segment -/

theorem exists_segments_eq_cons (cs : List Char) : ∃ first more, segments cs = first :: more := by
  cases cs with
  | nil => exact ⟨[], [], rfl⟩
  | cons c rest =>
    rw [segments]
    split
    · exact ⟨_, _, rfl⟩
    · split <;> exact ⟨_, _, rfl⟩

theorem segments_cons {c : Char} {rest first : List Char} {more : List (List Char)}
    (h : segments rest = first :: more) :
    segments (c :: rest) = if c = '/' then [] :: first :: more else (c :: first) :: more := by
  rw [segments, h]

/-- A text without a slash is its only segment. -/
theorem segments_of_noSlash {cs : List Char} (h : '/' ∉ cs) : segments cs = [cs] := by
  induction cs with
  | nil => rfl
  | cons c rest ih =>
    rw [List.mem_cons, not_or] at h
    rw [segments_cons (ih h.2), if_neg (Ne.symm h.1)]

/-- A slash parts the segments before it from those behind it. -/
theorem segments_append_slash (cs rest : List Char) :
    segments (cs ++ '/' :: rest) = segments cs ++ segments rest := by
  induction cs with
  | nil =>
    obtain ⟨first, more, hrest⟩ := exists_segments_eq_cons rest
    rw [List.nil_append, segments_cons hrest, if_pos rfl, hrest]
    rfl
  | cons c cs ih =>
    obtain ⟨first, more, hcs⟩ := exists_segments_eq_cons cs
    rw [hcs, List.cons_append] at ih
    rw [List.cons_append, segments_cons ih, segments_cons hcs]
    split <;> rfl

/-- The first segment ends at the first slash. -/
theorem head?_segments_eq_some_iff {cs part : List Char} :
    (segments cs).head? = some part
      ↔ '/' ∉ part ∧ (cs = part ∨ ∃ back, cs = part ++ '/' :: back) := by
  constructor
  · intro h
    by_cases hslash : '/' ∈ cs
    · obtain ⟨front, back, rfl, hfront⟩ := List.eq_append_cons_of_mem hslash
      rw [segments_append_slash, segments_of_noSlash hfront] at h
      obtain rfl := Option.some.inj h
      exact ⟨hfront, .inr ⟨back, rfl⟩⟩
    · rw [segments_of_noSlash hslash] at h
      obtain rfl := Option.some.inj h
      exact ⟨hslash, .inl rfl⟩
  · rintro ⟨hpart, rfl | ⟨back, rfl⟩⟩
    · rw [segments_of_noSlash hpart]
      rfl
    · rw [segments_append_slash, segments_of_noSlash hpart]
      rfl

theorem isSegment_iff {part : List Char} : isSegment part = true ↔ part ≠ [] ∧ '/' ∉ part := by
  simp [isSegment]

/-- A direct child's segment is the last one of its key. -/
theorem lastSegment?_of_childKey? {path key name : String} (h : childKey? path key = some name) :
    lastSegment? key = some name := by
  obtain ⟨hsegment, rfl⟩ := childKey?_eq_some_iff.mp h
  obtain ⟨hne, hslash⟩ := isSegment_iff.mp hsegment
  have hlast : (segments (path ++ "/" ++ name).toList).getLast? = some name.toList := by
    have hkey : (path ++ "/" ++ name).toList = path.toList ++ '/' :: name.toList := by simp
    rw [hkey, segments_append_slash, segments_of_noSlash hslash, List.getLast?_append]
    rfl
  rw [lastSegment?, hlast]
  cases hname : name.toList with
  | nil => exact absurd hname hne
  | cons c rest =>
    change some (String.ofList (c :: rest)) = some name
    rw [← hname, String.ofList_toList]

/-! ## Keys of variables -/

theorem childKey?_variableKey_iff {layout : Layout} {key name : String} :
    childKey? layout.commonVariables key = some name
      ↔ isSegment name.toList = true ∧ key = layout.variableKey name :=
  childKey?_eq_some_iff

/-- The name of a variable is read back from its key, if it is a segment. -/
theorem childKey?_variableKey {layout : Layout} {name found : String} :
    childKey? layout.commonVariables (layout.variableKey name) = some found
      ↔ isSegment name.toList = true ∧ found = name := by
  have hinj : layout.variableKey name = layout.variableKey found ↔ found = name := by
    rw [Layout.variableKey, Layout.variableKey, ← String.toList_inj, ← String.toList_inj]
    simp [eq_comm]
  rw [childKey?_variableKey_iff, hinj]
  constructor
  · rintro ⟨hsegment, rfl⟩
    exact ⟨hsegment, rfl⟩
  · rintro ⟨hsegment, rfl⟩
    exact ⟨hsegment, rfl⟩

namespace Variable

/-- A well-formed name is a segment of a key. -/
theorem isSegment_of_isWellFormed {name : String} (h : isWellFormed name = true) :
    isSegment name.toList = true := by
  rw [isWellFormed, Bool.and_eq_true, List.all_eq_true] at h
  obtain ⟨hne, hchars⟩ := h
  rw [isSegment_iff]
  constructor
  · intro hnil
    rw [String.toList_eq_nil_iff] at hnil
    rw [hnil] at hne
    cases hne
  · intro hslash
    have hchar : isNameChar '/' = true := hchars '/' hslash
    revert hchar
    decide

theorem not_isNameChar_of_isSpace {c : Char} (h : Text.isSpace c = true) :
    isNameChar c ≠ true := by
  intro hname
  simp only [isNameChar, Bool.or_eq_true, decide_eq_true_eq] at hname
  rcases hname with ((hletter | rfl) | rfl) | rfl
  · -- letters and digits are told from blanks by their numbers
    change ((decide (65 ≤ c.val ∧ c.val ≤ 90) || (decide (97 ≤ c.val) && decide (c.val ≤ 122)))
      || (decide (48 ≤ c.val) && decide (c.val ≤ 57))) = true at hletter
    simp only [Bool.or_eq_true, Bool.and_eq_true, decide_eq_true_eq,
      UInt32.le_iff_toNat_le] at hletter
    change ((65 ≤ c.toNat ∧ c.toNat ≤ 90) ∨ (97 ≤ c.toNat ∧ c.toNat ≤ 122))
      ∨ (48 ≤ c.toNat ∧ c.toNat ≤ 57) at hletter
    simp only [Text.isSpace, Bool.or_eq_true, Bool.and_eq_true, decide_eq_true_eq] at h
    omega
  all_goals
    revert h
    decide

/-- A well-formed name is not blank. -/
theorem not_isBlank_of_isWellFormed {name : String} (h : isWellFormed name = true) :
    Text.isBlank name = false := by
  obtain ⟨hne, -⟩ := isSegment_iff.mp (isSegment_of_isWellFormed h)
  rw [isWellFormed, Bool.and_eq_true, List.all_eq_true] at h
  obtain ⟨c, hc⟩ := List.exists_mem_of_ne_nil _ hne
  have hchar := h.2 c hc
  rw [Text.isBlank, List.all_eq_false]
  exact ⟨c, hc, fun hspace => not_isNameChar_of_isSpace hspace hchar⟩

end Variable

end EngineCatalog
