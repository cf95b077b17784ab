import EngineCatalog.Text.Blank
import Mathlib.Data.List.TakeWhile

/-!
# What trimming takes off

A text is what is left of it when it is trimmed, between white space (`exists_eq_append_trim`); and
whatever white space stands around a text without white space at its ends, trimming gives that text
back (`trim_append`).
-/

namespace EngineCatalog.Text

theorem isBlank_iff {text : String} : isBlank text = true ↔ ∀ c ∈ text.toList, isSpace c = true :=
  List.all_eq_true

section Strip

variable {drop : Char → Bool} {cs front middle back : List Char}

/-- What is taken off stands in front of what is left and behind it. -/
theorem exists_eq_append_stripChars (drop : Char → Bool) (cs : List Char) :
    ∃ front back, cs = front ++ stripChars drop cs ++ back ∧
      (∀ c ∈ front, drop c = true) ∧ ∀ c ∈ back, drop c = true := by
  refine ⟨cs.takeWhile drop, ((cs.dropWhile drop).reverse.takeWhile drop).reverse, ?_, ?_, ?_⟩
  · rw [stripChars, List.append_assoc, ← List.reverse_append, List.takeWhile_append_dropWhile,
      List.reverse_reverse, List.takeWhile_append_dropWhile]
  · exact fun c hc => List.mem_takeWhile_imp hc
  · exact fun c hc => List.mem_takeWhile_imp (List.mem_reverse.mp hc)

/-- Nothing is taken off in front of a character that stays. -/
theorem dropWhile_eq_self (h : ∀ c ∈ cs.head?, drop c = false) : cs.dropWhile drop = cs := by
  cases cs with
  | nil => rfl
  | cons c more => rw [List.dropWhile_cons, h c rfl, if_neg Bool.false_ne_true]

/-- Where both ends stay, all that stands around them is taken off. -/
theorem stripChars_append (hfront : ∀ c ∈ front, drop c = true)
    (hback : ∀ c ∈ back, drop c = true) (hhead : ∀ c ∈ middle.head?, drop c = false)
    (hlast : ∀ c ∈ middle.getLast?, drop c = false) :
    stripChars drop (front ++ middle ++ back) = middle := by
  have hbehind : ∀ c ∈ back.reverse, drop c = true := fun c hc => hback c (List.mem_reverse.mp hc)
  rw [stripChars, List.append_assoc, List.dropWhile_append_of_pos hfront]
  cases middle with
  | nil =>
    rw [List.nil_append, List.dropWhile_eq_nil_iff.mpr hback]
    rfl
  | cons c more =>
    have hstart : (c :: more ++ back).dropWhile drop = c :: more ++ back :=
      dropWhile_eq_self hhead
    have hend : (c :: more).reverse.dropWhile drop = (c :: more).reverse :=
      dropWhile_eq_self (by rwa [List.head?_reverse])
    rw [hstart, List.reverse_append, List.dropWhile_append_of_pos hbehind, hend,
      List.reverse_reverse]

end Strip

/-- A text is what is left of it, with white space around that. -/
theorem exists_eq_append_trim (text : String) :
    ∃ before after, text = before ++ trim text ++ after ∧
      isBlank before = true ∧ isBlank after = true := by
  obtain ⟨front, back, heq, hfront, hback⟩ := exists_eq_append_stripChars isSpace text.toList
  refine ⟨String.ofList front, String.ofList back, String.toList_inj.mp ?_, ?_, ?_⟩
  · rw [String.toList_append, String.toList_append, trim, String.toList_ofList,
      String.toList_ofList, String.toList_ofList]
    exact heq
  · rwa [isBlank_iff, String.toList_ofList]
  · rwa [isBlank_iff, String.toList_ofList]

/-- White space around a text that has none at its ends is taken off. -/
theorem trim_append {before middle after : String} (hbefore : isBlank before = true)
    (hafter : isBlank after = true) (hhead : ∀ c ∈ middle.toList.head?, isSpace c = false)
    (hlast : ∀ c ∈ middle.toList.getLast?, isSpace c = false) :
    trim (before ++ middle ++ after) = middle := by
  rw [trim, String.toList_append, String.toList_append,
    stripChars_append (isBlank_iff.mp hbefore) (isBlank_iff.mp hafter) hhead hlast,
    String.ofList_toList]

end EngineCatalog.Text
