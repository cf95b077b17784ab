import EngineCatalog.Proofs.Layout.Chain
import Mathlib.Data.List.Basic

/-!
# Which keys are read, and as what

Three readers take a name out of a key: the direct child of a path, the id of a chain two segments
behind a marker, and the last segment. Main statement: each of them accepts the keys of one shape
and no others, and the shape says which name it reads (`reads_by_shape`).

The shapes are put in terms of the text itself and of its parts between slashes, however many of
them are empty and wherever the marker stands (`segments_eq_splitOn`).
-/

namespace EngineCatalog

/-! ## Parts between slashes -/

/-- The segments of a path are its parts between slashes. -/
theorem segments_eq_splitOn (cs : List Char) : segments cs = cs.splitOn '/' := by
  induction cs with
  | nil => rfl
  | cons c rest ih =>
    obtain ⟨first, more, hrest⟩ := exists_segments_eq_cons rest
    rw [segments_cons hrest, List.splitOn_eq_splitOnP, List.splitOnP_cons_eq_if_modifyHead,
      ← List.splitOn_eq_splitOnP, ← ih, hrest]
    simp [beq_iff_eq]

/-- The last segment begins behind the last slash. -/
theorem getLast?_segments_eq_some_iff {cs part : List Char} :
    (segments cs).getLast? = some part
      ↔ '/' ∉ part ∧ (cs = part ∨ ∃ front, cs = front ++ '/' :: part) := by
  have hlast : ∀ {front back : List Char}, '/' ∉ back →
      (segments (front ++ '/' :: back)).getLast? = some back := by
    intro front back hback
    rw [segments_append_slash, segments_of_noSlash hback, List.getLast?_append]
    rfl
  constructor
  · intro h
    by_cases hslash : '/' ∈ cs
    · -- the last slash is the first one from behind
      obtain ⟨behind, before, hcs, hbehind⟩ :=
        List.eq_append_cons_of_mem (List.mem_reverse.mpr hslash)
      have hsplit : cs = before.reverse ++ '/' :: behind.reverse := by
        rw [← List.reverse_reverse cs, hcs]
        simp
      have hback : '/' ∉ behind.reverse := fun hmem => hbehind (List.mem_reverse.mp hmem)
      rw [hsplit, hlast hback] at h
      obtain rfl := Option.some.inj h
      exact ⟨hback, .inr ⟨_, hsplit⟩⟩
    · rw [segments_of_noSlash hslash] at h
      obtain rfl := Option.some.inj h
      exact ⟨hslash, .inl rfl⟩
  · rintro ⟨hpart, rfl | ⟨front, rfl⟩⟩
    · rw [segments_of_noSlash hpart]
      rfl
    · exact hlast hpart

/-! ## The segment behind a marker -/

/-- Two places behind the first marker, by its position. -/
theorem segmentAfter?_eq_some_iff_idxOf? {marker part : List Char} {parts : List (List Char)} :
    segmentAfter? marker parts = some part
      ↔ ∃ i, parts.idxOf? marker = some i ∧ parts[i + 2]? = some part := by
  induction parts with
  | nil => simp [segmentAfter?]
  | cons first more ih =>
    rw [segmentAfter?, List.idxOf?_cons]
    by_cases hfirst : first = marker
    · -- the marker is here, and what is read stands two places on
      rw [List.dropWhile_cons_of_neg (by simp [hfirst]), if_pos (by simp [hfirst])]
      simp only [Option.some.injEq, exists_eq_left', Nat.zero_add, List.getElem?_cons_succ]
      rcases more with _ | ⟨_, _ | ⟨second, _⟩⟩ <;> simp
    · rw [List.dropWhile_cons_of_pos (by simp [hfirst]), if_neg (by simpa using hfirst)]
      rw [segmentAfter?] at ih
      rw [ih]
      simp only [Option.map_eq_some_iff]
      constructor
      · rintro ⟨i, hi, hpart⟩
        exact ⟨i + 1, ⟨i, hi, rfl⟩, hpart⟩
      · rintro ⟨_, ⟨i, hi, rfl⟩, hpart⟩
        exact ⟨i, hi, hpart⟩

/-! ## The readers -/

/-- A name is read off characters that are there. -/
theorem map_ofList_filter_eq_some_iff {found : Option (List Char)} {name : String} :
    (found.filter (· ≠ [])).map String.ofList = some name
      ↔ found = some name.toList ∧ name ≠ "" := by
  have hname : name.toList ≠ [] ↔ name ≠ "" := by simp
  rw [Option.map_eq_some_iff, ← hname]
  constructor
  · rintro ⟨cs, hfound, rfl⟩
    obtain ⟨rfl, hne⟩ := Option.filter_eq_some_iff.mp hfound
    rw [String.toList_ofList]
    exact ⟨rfl, of_decide_eq_true hne⟩
  · rintro ⟨rfl, hne⟩
    exact ⟨name.toList, Option.filter_eq_some_iff.mpr ⟨rfl, decide_eq_true hne⟩,
      String.ofList_toList⟩

theorem chainId?_eq_map_filter (key marker : String) :
    chainId? key marker
      = ((segmentAfter? (trimSlashes marker).toList (segments key.toList)).filter (· ≠ [])).map
          String.ofList := by
  rw [chainId?]
  rcases segmentAfter? (trimSlashes marker).toList (segments key.toList) with _ | _ | ⟨c, id⟩ <;>
    rfl

theorem lastSegment?_eq_map_filter (key : String) :
    lastSegment? key
      = ((segments key.toList).getLast?.filter (· ≠ [])).map String.ofList := by
  rw [lastSegment?]
  rcases (segments key.toList).getLast? with _ | _ | ⟨c, name⟩ <;> rfl

/-- **Keys are read by their shape.** The direct child of a path is read off the path with a slash
and one non-empty segment behind it. The id of a chain is read off the part two places behind the
first part that is the marker without its leading slashes, if that part is there and not empty. The
last segment is read off a name without a slash, alone or with a slash before it. No other key is
read, and none is read as anything else. -/
theorem reads_by_shape :
    (∀ path key name : String, childKey? path key = some name ↔
      key = path ++ "/" ++ name ∧ name ≠ "" ∧ '/' ∉ name.toList) ∧
    (∀ key marker id : String, chainId? key marker = some id ↔
      ∃ i, (key.toList.splitOn '/').idxOf? (marker.toList.dropWhile (· = '/')) = some i ∧
        (key.toList.splitOn '/')[i + 2]? = some id.toList ∧ id ≠ "") ∧
    (∀ key name : String, lastSegment? key = some name ↔
      name ≠ "" ∧ '/' ∉ name.toList ∧ (key = name ∨ ∃ front, key = front ++ "/" ++ name)) := by
  refine ⟨fun path key name => ?_, fun key marker id => ?_, fun key name => ?_⟩
  · have hname : name.toList ≠ [] ↔ name ≠ "" := by simp
    rw [childKey?_eq_some_iff, isSegment_iff, hname]
    exact and_comm
  · rw [chainId?_eq_map_filter, map_ofList_filter_eq_some_iff, segmentAfter?_eq_some_iff_idxOf?,
      segments_eq_splitOn, trimSlashes, String.toList_ofList]
    constructor
    · rintro ⟨⟨i, hmarker, hpart⟩, hid⟩
      exact ⟨i, hmarker, hpart, hid⟩
    · rintro ⟨i, hmarker, hpart, hid⟩
      exact ⟨⟨i, hmarker, hpart⟩, hid⟩
  · have hends : (∃ front, key.toList = front ++ '/' :: name.toList)
        ↔ ∃ front, key = front ++ "/" ++ name := by
      constructor
      · rintro ⟨front, hkey⟩
        refine ⟨String.ofList front, String.toList_inj.mp ?_⟩
        rw [hkey]
        simp
      · rintro ⟨front, rfl⟩
        exact ⟨front.toList, by simp⟩
    rw [lastSegment?_eq_map_filter, map_ofList_filter_eq_some_iff, getLast?_segments_eq_some_iff,
      hends, String.toList_inj]
    constructor
    · rintro ⟨⟨hslash, hkey⟩, hname⟩
      exact ⟨hname, hslash, hkey⟩
    · rintro ⟨hname, hslash, hkey⟩
      exact ⟨⟨hslash, hkey⟩, hname⟩

/-- Only the first marker counts, and empty parts count like others. -/
example : chainId? "/m//m/x" "//m" = some "m" ∧ chainId? "/m/x/" "m" = none := by decide

end EngineCatalog
