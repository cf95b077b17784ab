import EngineCatalog.Proofs.Layout.Key
import EngineCatalog.Proofs.Text.Numeral
import EngineCatalog.Text.Place

/-!
# Places are left off

Whatever a message says, of the message with a place behind it just the place is left off
(`withoutPlace_append_place`): the words for a place cannot begin any sooner, as there would be more
spaces between them.
-/

namespace EngineCatalog.Text

/-- The words for a place are those for two numbers. -/
theorem isPlace_iff {cs : List Char} :
    isPlace cs = true ↔ ∃ line column, areDigits line = true ∧ areDigits column = true ∧
      cs = " at line ".toList ++ (line ++ (" column ".toList ++ column)) := by
  rw [isPlace]
  constructor
  · intro h
    split at h
    · cases h
    · rename_i rest hrest
      split at h
      · cases h
      · rename_i column hcolumn
        obtain ⟨hline, hdigits⟩ := Bool.and_eq_true_iff.mp h
        refine ⟨_, column, hline, hdigits, ?_⟩
        rw [dropStart?_eq_some_iff.mp hrest, ← dropStart?_eq_some_iff.mp hcolumn,
          List.takeWhile_append_dropWhile]
  · rintro ⟨line, column, hline, hcolumn, rfl⟩
    have hdigits := (areDigits_iff.mp hline).2
    have htake : (line ++ (" column ".toList ++ column)).takeWhile Char.isDigit = line := by
      rw [List.takeWhile_append_of_pos hdigits]
      exact List.append_nil line
    have hdrop : (line ++ (" column ".toList ++ column)).dropWhile Char.isDigit
        = " column ".toList ++ column := by
      rw [List.dropWhile_append_of_pos hdigits]
      rfl
    simp only [dropStart?_eq_some_iff.mpr rfl, hdrop, htake, hline, hcolumn, Bool.and_self]

theorem count_of_isPlace {cs : List Char} (h : isPlace cs = true) : cs.count ' ' = 5 := by
  have hnone : ∀ digits, areDigits digits = true → digits.count ' ' = 0 := by
    intro digits hdigits
    refine List.count_eq_zero.mpr fun hspace => ?_
    exact absurd ((areDigits_iff.mp hdigits).2 _ hspace) (by decide)
  obtain ⟨line, column, hline, hcolumn, rfl⟩ := isPlace_iff.mp h
  rw [List.count_append, List.count_append, List.count_append, hnone line hline,
    hnone column hcolumn]
  rfl

/-- The words for a place are left off, and nothing before them. -/
theorem dropPlace_append {place : List Char} (h : isPlace place = true) (cs : List Char) :
    dropPlace (cs ++ place) = cs := by
  induction cs with
  | nil =>
    cases place with
    | nil => cases h
    | cons c rest => rw [List.nil_append, dropPlace, if_pos h]
  | cons c cs ih =>
    have hnot : ¬ isPlace (c :: (cs ++ place)) = true := by
      intro hsooner
      have hcount := count_of_isPlace hsooner
      obtain ⟨line, column, -, -, heq⟩ := isPlace_iff.mp hsooner
      -- it begins with a space, and five more are in the place
      obtain rfl : c = ' ' := (List.cons.inj heq).1
      rw [List.count_cons_self, List.count_append, count_of_isPlace h] at hcount
      omega
    rw [List.cons_append, dropPlace, if_neg hnot, ih]

/-- Of a message with a place behind it just the place is left off. -/
theorem withoutPlace_append_place (message : String) (line column : Nat) :
    withoutPlace (message ++ place line column) = message := by
  have hplace : isPlace (place line column).toList = true := by
    refine isPlace_iff.mpr ⟨_, _, areDigits_toString line, areDigits_toString column, ?_⟩
    change (" at line " ++ toString line ++ " column " ++ toString column).toList = _
    simp only [String.toList_append, List.append_assoc]
  rw [withoutPlace, String.toList_append, dropPlace_append hplace, String.ofList_toList]

end EngineCatalog.Text
