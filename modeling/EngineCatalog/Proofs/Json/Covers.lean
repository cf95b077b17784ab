import EngineCatalog.Proofs.Json.Document

/-!
# What is in a document is in another

Whoever rewrites a document is to leave in it all that was there; it may add members to objects and
put them in another order.

* `Covers` — all that one value says, another one says as well: each member of each object, at every
  level, and each item of each list in its place.
* `Plain` — in a value no object has two members of one name, and no number is a floating-point
  number.

A plain document is covered by what is read from it (`Plain.covers_ordered`).
-/

namespace EngineCatalog.Json

open Text

/-! ## Covering -/

mutual

/-- The second value says all that the first one says. -/
def Covers : Json → Json → Prop
  | .list items, other => ∃ others, other = .list others ∧ CoversItems items others
  | .object members, other => ∃ others, other = .object others ∧ CoversMembers members others
  | value, other => value = other

/-- The items are covered one by one. -/
def CoversItems : List Json → List Json → Prop
  | [], others => others = []
  | item :: more, others =>
    ∃ other rest, others = other :: rest ∧ Covers item other ∧ CoversItems more rest

/-- Each member is covered by one of its name. -/
def CoversMembers : List (String × Json) → List (String × Json) → Prop
  | [], _ => True
  | (name, value) :: more, others =>
    (∃ other, (name, other) ∈ others ∧ Covers value other) ∧ CoversMembers more others

end

/-- A member of the name covers the member. -/
def Present (member : String × Json) (others : List (String × Json)) : Prop :=
  ∃ other, (member.1, other) ∈ others ∧ Covers member.2 other

theorem coversMembers_iff {members others : List (String × Json)} :
    CoversMembers members others ↔ ∀ member ∈ members, Present member others := by
  induction members with
  | nil => simp [CoversMembers]
  | cons member more ih =>
    obtain ⟨name, value⟩ := member
    rw [CoversMembers, ih, List.forall_mem_cons]
    rfl

theorem covers_object_iff {members others : List (String × Json)} :
    Covers (.object members) (.object others) ↔ ∀ member ∈ members, Present member others := by
  rw [Covers, ← coversMembers_iff]
  refine ⟨?_, fun h => ⟨others, rfl, h⟩⟩
  rintro ⟨_, hothers, h⟩
  exact Json.object.inj hothers ▸ h

/-- Only an object is covered by an object. -/
theorem exists_of_covers_object {value : Json} {others : List (String × Json)}
    (h : Covers value (.object others)) : ∃ members, value = .object members := by
  cases value with
  | object members => exact ⟨members, rfl⟩
  | list items => simp [Covers] at h
  | _ => simp [Covers] at h

/-- Items are covered by what a function makes of them, if each one is. -/
theorem covers_list_map {items : List Json} {f : Json → Json}
    (h : ∀ item ∈ items, Covers item (f item)) : Covers (.list items) (.list (items.map f)) := by
  have hitems : CoversItems items (items.map f) := by
    induction items with
    | nil => rw [CoversItems, List.map_nil]
    | cons item more ih =>
      obtain ⟨hitem, hmore⟩ := List.forall_mem_cons.mp h
      rw [CoversItems]
      exact ⟨f item, more.map f, rfl, hitem, ih hmore⟩
  rw [Covers]
  exact ⟨_, rfl, hitems⟩

/-! ## Plain documents -/

/-- No object has two members of one name, and no number is a floating-point number. -/
inductive Plain : Json → Prop where
  /-- the null value -/
  | null : Plain .null
  /-- a truth value -/
  | bool (value : Bool) : Plain (.bool value)
  /-- a whole number -/
  | int (n : Int) : Plain (.number (.int n))
  /-- a text -/
  | text (value : String) : Plain (.text value)
  /-- a list of such values -/
  | list {items : List Json} (plain : ∀ item ∈ items, Plain item) : Plain (.list items)
  /-- an object of such values under names that differ -/
  | object {members : List (String × Json)} (names : (members.map Prod.fst).Nodup)
    (plain : ∀ member ∈ members, Plain member.2) : Plain (.object members)

theorem Plain.nodup {members : List (String × Json)} (h : Plain (.object members)) :
    (members.map Prod.fst).Nodup := by
  cases h
  assumption

theorem Plain.values {members : List (String × Json)} (h : Plain (.object members)) :
    ∀ member ∈ members, Plain member.2 := by
  cases h
  assumption

@[simp] theorem plain_null : Plain .null := .null

@[simp] theorem plain_text (value : String) : Plain (.text value) := .text value

@[simp] theorem plain_int (n : Int) : Plain (.number (.int n)) := .int n

@[simp] theorem plain_list {items : List Json} :
    Plain (.list items) ↔ ∀ item ∈ items, Plain item :=
  ⟨fun h => by cases h; assumption, .list⟩

@[simp] theorem plain_object {members : List (String × Json)} :
    Plain (.object members) ↔ (members.map Prod.fst).Nodup ∧ ∀ member ∈ members, Plain member.2 :=
  ⟨fun h => ⟨h.nodup, h.values⟩, fun h => .object h.1 h.2⟩

@[simp] theorem plain_optionalText (text : Option String) : Plain (optionalText text) := by
  cases text <;> simp [optionalText]

theorem Plain.floatFree {value : Json} (h : Plain value) : FloatFree value := by
  induction h with
  | null => exact .null
  | bool value => exact .bool value
  | int n => exact .int n
  | text value => exact .text value
  | list _ ih => exact .list ih
  | object _ _ ih => exact .object ih

/-- A plain value covers itself. -/
theorem Plain.covers_self {value : Json} (h : Plain value) : Covers value value := by
  induction h with
  | @list items _ ih =>
    have hcovers := @covers_list_map items id ih
    rwa [List.map_id] at hcovers
  | object _ _ ih =>
    exact covers_object_iff.mpr fun member hmember => ⟨_, hmember, ih member hmember⟩
  | _ => simp [Covers]

/-! ## Putting in order -/

theorem ascending_orderedMembers (members : List (String × Json)) :
    Sorted.Ascending (orderedMembers [] members) := by
  induction members using List.reverseRecOn with
  | nil => exact List.Pairwise.nil
  | append_singleton before member ih =>
    rw [orderedMembers_concat]
    exact Sorted.ascending_insert ih

/-- What stands in order among members was one of them. -/
theorem exists_of_mem_orderedMembers {members : List (String × Json)} {entry : String × Json}
    (h : entry ∈ orderedMembers [] members) :
    ∃ member ∈ members, entry = (member.1, member.2.ordered) := by
  induction members using List.reverseRecOn with
  | nil => cases h
  | append_singleton before member ih =>
    have hfind := Sorted.find?_eq_some_of_mem (ascending_orderedMembers _) h
    rw [orderedMembers_concat, Sorted.find?_insert] at hfind
    split at hfind
    · rename_i hname
      refine ⟨member, by simp, ?_⟩
      rw [Option.some.inj hfind, hname]
    · obtain ⟨other, hother, rfl⟩ := ih (Sorted.mem_of_find?_eq_some hfind)
      exact ⟨other, List.mem_append_left _ hother, rfl⟩

/-- Where names differ, each member stands in order among the others. -/
theorem mem_orderedMembers {members : List (String × Json)} (h : (members.map Prod.fst).Nodup)
    {member : String × Json} (hmember : member ∈ members) :
    (member.1, member.2.ordered) ∈ orderedMembers [] members := by
  refine Sorted.mem_of_find?_eq_some ?_
  induction members using List.reverseRecOn with
  | nil => cases hmember
  | append_singleton before last ih =>
    rw [List.map_append, List.nodup_append] at h
    obtain ⟨hbefore, -, hdiffer⟩ := h
    rw [orderedMembers_concat, Sorted.find?_insert]
    rcases List.mem_append.mp hmember with hearlier | hlast
    · have hname : member.1 ≠ last.1 :=
        hdiffer _ (List.mem_map_of_mem hearlier) _ (by simp)
      rw [if_neg hname.symm]
      exact ih hbefore hearlier
    · rw [List.mem_singleton.mp hlast, if_pos rfl]

theorem Plain.ordered {value : Json} (h : Plain value) : Plain value.ordered := by
  induction h with
  | @list items _ ih =>
    rw [Json.ordered, orderedItems_eq_map]
    exact .list (List.forall_mem_map.mpr ih)
  | @object members _ _ ih =>
    rw [Json.ordered]
    refine .object ((ascending_orderedMembers members).imp fun h => String.ne_of_lt h) ?_
    intro entry hentry
    obtain ⟨member, hmember, rfl⟩ := exists_of_mem_orderedMembers hentry
    exact ih member hmember
  | null => exact .null
  | bool value => exact .bool value
  | int n => exact .int n
  | text value => exact .text value

/-- Putting a plain document in order takes nothing away. -/
theorem Plain.covers_ordered {value : Json} (h : Plain value) : Covers value value.ordered := by
  induction h with
  | @list items _ ih =>
    rw [Json.ordered, orderedItems_eq_map]
    exact covers_list_map ih
  | object hnames _ ih =>
    rw [Json.ordered]
    exact covers_object_iff.mpr fun member hmember =>
      ⟨_, mem_orderedMembers hnames hmember, ih member hmember⟩
  | _ => simp [Covers, Json.ordered]

end EngineCatalog.Json
