import EngineCatalog.Dict
import Mathlib.Data.List.Basic

/-!
# The walk through the keys that start with a part

In the order of keys, those that start with a part lie next to one another, and none of them is
before the part itself. So the walk from the part upwards, for as long as the keys start with it,
meets all of them (`Sorted.underPrefix_eq_filter`).
-/

namespace EngineCatalog

variable {α : Type}

/-! ## The order of texts with a common start -/

theorem startsWith_iff {part text : String} :
    startsWith part text = true ↔ part.toList <+: text.toList :=
  List.isPrefixOf_iff_prefix

/-- No text lies before a part that it starts with. -/
theorem not_lt_of_startsWith {part text : String} (h : startsWith part text = true) :
    ¬ text < part := by
  intro hlt
  exact (startsWith_iff.mp h).le (String.lt_iff.mp hlt)

/-- What lies between a part and a text that starts with it, starts with it, too. -/
theorem prefix_of_between {part between text : List Char} (hstart : part <+: text)
    (hlow : ¬ between < part) (hhigh : between < text) : part <+: between := by
  induction part generalizing between text with
  | nil => exact List.nil_prefix
  | cons c part ih =>
    obtain ⟨back, rfl⟩ := hstart
    cases between with
    | nil => exact absurd (List.nil_lt_cons c part) hlow
    | cons d between =>
      rw [List.cons_append] at hhigh
      rcases List.cons_lt_cons_iff.mp hhigh with hlt | ⟨rfl, hlt⟩
      · exact absurd (List.cons_lt_cons_iff.mpr (.inl hlt)) hlow
      · have hlow' : ¬ between < part := fun h =>
          hlow (List.cons_lt_cons_iff.mpr (.inr ⟨rfl, h⟩))
        exact List.cons_prefix_cons.mpr ⟨rfl, ih (List.prefix_append part back) hlow' hlt⟩

theorem startsWith_of_between {part between text : String} (hstart : startsWith part text = true)
    (hlow : ¬ between < part) (hhigh : between < text) : startsWith part between = true :=
  startsWith_iff.mpr
    (prefix_of_between (startsWith_iff.mp hstart) hlow (String.lt_iff.mp hhigh))

/-! ## The walk -/

namespace Sorted

/-- Among keys from the part upwards, those that start with it come first. -/
theorem takeWhile_startsWith {part : String} {entries : List (String × α)}
    (hasc : Ascending entries) (hlow : ∀ entry ∈ entries, ¬ entry.1 < part) :
    (entries.takeWhile fun entry => startsWith part entry.1)
      = entries.filter fun entry => startsWith part entry.1 := by
  induction entries with
  | nil => rfl
  | cons entry rest ih =>
    obtain ⟨hlt, hrest⟩ := List.pairwise_cons.mp hasc
    by_cases hstart : startsWith part entry.1 = true
    · rw [List.takeWhile_cons, List.filter_cons, if_pos hstart, if_pos hstart,
        ih hrest fun e he => hlow e (List.mem_cons_of_mem _ he)]
    · rw [List.takeWhile_cons, List.filter_cons, if_neg hstart, if_neg hstart]
      -- a later key that starts with the part would put this one between the part and itself
      refine (List.filter_eq_nil_iff.mpr fun later hlater hlaterStart => hstart ?_).symm
      exact startsWith_of_between hlaterStart (hlow entry List.mem_cons_self)
        (hlt later.1 (List.mem_map_of_mem hlater))

/-- The walk from a part upwards meets the entries whose keys start with it. -/
theorem underPrefix_eq_filter {entries : List (String × α)} (hasc : Ascending entries)
    (part : String) :
    underPrefix part entries = entries.filter fun entry => startsWith part entry.1 := by
  induction entries with
  | nil => rfl
  | cons entry rest ih =>
    obtain ⟨hlt, hrest⟩ := List.pairwise_cons.mp hasc
    rw [underPrefix]
    by_cases hbelow : entry.1 < part
    · have hneg : ¬ startsWith part entry.1 = true := fun h => not_lt_of_startsWith h hbelow
      rw [List.dropWhile_cons, List.filter_cons, if_pos (decide_eq_true hbelow), if_neg hneg]
      exact ih hrest
    · rw [List.dropWhile_cons, if_neg fun h => hbelow (of_decide_eq_true h)]
      apply takeWhile_startsWith hasc
      intro e he
      rcases List.mem_cons.mp he with rfl | he
      · exact hbelow
      · exact fun h => hbelow (String.lt_trans (hlt e.1 (List.mem_map_of_mem he)) h)

end Sorted

namespace Dict

theorem underPrefix_eq_filter (dict : Dict α) (part : String) :
    dict.underPrefix part = dict.entries.filter fun entry => startsWith part entry.1 :=
  Sorted.underPrefix_eq_filter dict.ascending part

end Dict

end EngineCatalog
