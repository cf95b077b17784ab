import EngineCatalog.Proofs.Json.Value

/-!
# Records are read back

A record takes the members of an object one by one. What a member can do to it is said once
(`Record.takes_of_readMember`); what every such step keeps, a record that is read keeps
(`Record.of_readObject`). A record with a dictionary for all other members (`Record.KeepsIn`) has in it
only what fits, under names that are no fields (`Record.KeepsIn.kept`).

In the other direction, a written member is taken as the field of its name, or kept, and so the
record is read back from its members (`Record.readsBack_object`). It does not matter whether the
members ascend.
-/

namespace EngineCatalog.Json

open Text

variable {α β : Type}

/-! ## Readers of one kind of value -/

theorem ReadsBack.map {reader : Reader α} {depth : Nat} {bytes : Bytes} {value : α}
    (h : ReadsBack (reader depth) bytes value) (f : α → β) :
    ReadsBack (Reader.map f reader depth) bytes (f value) := by
  intro rest hrest
  rw [Reader.map, h rest hrest, Reading.map_ok]

theorem readsBack_text (text : String) (depth : Nat) :
    ReadsBack (Reader.text depth) (write (.text text)) text := by
  intro rest _
  rw [write, writeText]
  exact readText_quotedTail text rest

/-- A value that may be null is read back where it is not. -/
theorem readsBack_optional {reader : Reader α} {depth : Nat} {b : UInt8} {bytes : Bytes} {value : α}
    (hspace : isSpaceByte b = false) (hnull : b ≠ 0x6e)
    (h : ReadsBack (reader depth) (b :: bytes) value) :
    ReadsBack (Reader.optional reader depth) (b :: bytes) (some value) := by
  intro rest hrest
  have hread := h rest hrest
  rw [List.cons_append] at hread ⊢
  rw [Reader.optional, skipSpace_cons hspace]
  split
  · rename_i heq
    exact absurd (List.cons.inj heq).1 hnull
  · rw [hread, Reading.map_ok]

/-- A text that may be missing is read back, also where it is. -/
theorem readsBack_optionalText (text : Option String) (depth : Nat) :
    ReadsBack (Reader.optional Reader.text depth) (write (optionalText text)) text := by
  cases text with
  | none =>
    intro rest _
    rw [optionalText, write]
    rfl
  | some text =>
    have hread := readsBack_text text depth
    rw [optionalText]
    rw [write, writeText] at hread ⊢
    exact readsBack_optional rfl (by decide) hread

/-- A number that fits into a word is read back. -/
theorem readsBack_word (name : String) {n : Nat} (hn : n < Nat.pow 2 64) (depth : Nat) :
    ReadsBack (Reader.word name depth) (write (nat n)) n := by
  intro rest hrest
  obtain ⟨b, more, hcons, hb⟩ := exists_asciiBytes_toDigits n
  have hread := readNumber_toDigits false hn hrest
  have hminus : b ≠ 0x2d := ne_of_isDigitByte hb rfl
  have hwrite : write (nat n) = asciiBytes (Nat.toDigits 10 n) := by
    rw [nat, write, writeNumber, writeInt, if_neg (Int.not_lt.mpr (Int.natCast_nonneg n)),
      Int.natAbs_natCast]
  rw [hwrite]
  rw [hcons, List.cons_append] at hread ⊢
  rw [Reader.word, skipSpace_cons (isSpaceByte_of_isDigitByte hb)]
  simp only [if_neg hminus, hb, if_true, hread]
  rfl

/-- A number that is read as a word fits into one. -/
theorem lt_of_word {name : String} {depth n : Nat} {bytes rest : Bytes}
    (h : Reader.word name depth bytes = .ok (n, rest)) : n < Nat.pow 2 64 := by
  have hfits : ∀ {negative bytes}, readNumber negative bytes = .ok (.int (.ofNat n), rest) →
      n < Nat.pow 2 64 := fun hnumber => Int.ofNat_lt.mp (fitsWord_of_readNumber hnumber).2
  unfold Reader.word at h
  split at h
  · cases h
  · dsimp only at h
    split at h
    · split at h
      · cases h
      · obtain ⟨rfl, rfl⟩ := Prod.mk.inj (Except.ok.inj h)
        exact hfits ‹_›
      · cases h
      · cases h
    · split at h
      · split at h
        · cases h
        · obtain ⟨rfl, rfl⟩ := Prod.mk.inj (Except.ok.inj h)
          exact hfits ‹_›
        · cases h
        · cases h
      · cases h

/-- A list is read back if each of its items is. -/
theorem readsBack_list {item : Reader α} {toJson : α → Json} {items : List α} {depth : Nat}
    (hfree : ∀ x ∈ items, FloatFree (toJson x))
    (hitem : ∀ x ∈ items, ReadsBack (item depth) (write (toJson x)) x) :
    ReadsBack (Reader.list item (depth + 1)) (write (.list (items.map toJson))) items := by
  intro rest _
  obtain ⟨bytes, hwrite, hread⟩ := readItems_write hfree hitem rest
  rw [hwrite, List.cons_append]
  exact hread

/-- The items of a list that is read are read by the reader of items. -/
theorem forall_of_list {item : Reader α} {P : α → Prop} {depth : Nat} {bytes rest : Bytes}
    {items : List α} (hitem : ∀ {bytes x rest}, item depth bytes = .ok (x, rest) → P x)
    (h : Reader.list item (depth + 1) bytes = .ok (items, rest)) : ∀ x ∈ items, P x := by
  unfold Reader.list at h
  split at h
  · cases h
  · split at h
    · exact forall_of_readItemsWithin hitem h
    · cases h

namespace Record

variable {record : Record α} {depth : Nat}

/-- A field is found by its name, and by no other. -/
theorem find?_fields_eq_none {name : String} :
    (record.fields.find? fun field => field.name = name) = none
      ↔ name ∉ record.fields.map Field.name := by
  simp [List.find?_eq_none]

/-! ## What a member does -/

/-- What a member of a name does to a record that is being read; the bytes are those of its value. -/
inductive Takes (record : Record α) (depth : Nat) (draft : Draft α) (name : String)
    (bytes : Bytes) : Draft α → Bytes → Prop where
  /-- it is a field, for the first time -/
  | field {field : Field α} {change : α → α} {rest : Bytes}
    (find : (record.fields.find? fun field => field.name = name) = some field)
    (unseen : name ∉ draft.1) (read : field.read depth bytes = .ok (change, rest)) :
    Takes record depth draft name bytes (name :: draft.1, change draft.2) rest
  /-- it is no field, and kept -/
  | kept {keep : String → Json → α → α} {value : Json} {rest : Bytes}
    (find : (record.fields.find? fun field => field.name = name) = none)
    (keeps : record.keep = some keep) (read : readValue depth bytes = .ok (value, rest)) :
    Takes record depth draft name bytes (draft.1, keep name value draft.2) rest
  /-- it is no field, and passed over -/
  | passed {rest : Bytes}
    (find : (record.fields.find? fun field => field.name = name) = none)
    (keeps : record.keep = none) (skip : skipValue bytes = .ok rest) :
    Takes record depth draft name bytes draft rest

theorem takes_of_readMember {draft after : Draft α} {name : String} {bytes rest : Bytes}
    (h : record.readMember depth draft name bytes = .ok (after, rest)) :
    ∃ value, afterColon bytes = .ok value ∧ Takes record depth draft name value after rest := by
  unfold readMember at h
  split at h
  · rename_i field hfind
    split at h
    · cases h
    · rename_i hunseen
      split at h
      · cases h
      · rename_i value hcolon
        obtain ⟨change, hread, rfl⟩ := Reading.map_eq_ok_iff.mp h
        exact ⟨value, hcolon, .field hfind (by simpa using hunseen) hread⟩
  · rename_i hfind
    split at h
    · cases h
    · rename_i value hcolon
      split at h
      · rename_i keep hkeep
        obtain ⟨json, hread, rfl⟩ := Reading.map_eq_ok_iff.mp h
        exact ⟨value, hcolon, .kept hfind hkeep hread⟩
      · rename_i hkeep
        split at h
        · cases h
        · rename_i hskip
          obtain ⟨rfl, rfl⟩ := Prod.mk.inj (Except.ok.inj h)
          exact ⟨value, hcolon, .passed hfind hkeep hskip⟩

/-- What every member keeps, an object that is read as a record has. -/
theorem of_readObject {P : Draft α → Prop} {bytes rest : Bytes} {value : α}
    (hblank : P ([], record.blank))
    (htake : ∀ {draft after name bytes rest}, P draft →
      Takes record depth draft name bytes after rest → P after)
    (h : record.readObject depth bytes = .ok (value, rest)) : ∃ seen, P (seen, value) := by
  unfold readObject at h
  split at h
  · cases h
  · rename_i seen value rest hmembers
    split at h
    · cases h
    · obtain ⟨rfl, rfl⟩ := Prod.mk.inj (Except.ok.inj h)
      refine ⟨seen, of_readMembersWithin ?_ hblank hmembers⟩
      intro draft name bytes after rest hdraft hmember
      obtain ⟨value, -, htakes⟩ := takes_of_readMember hmember
      exact htake hdraft htakes

/-- A record that keeps what is no field is read from an object only. -/
theorem exists_of_reader {bytes rest : Bytes} {value : α} (hkeep : record.keep.isNone = false)
    (h : record.reader (depth + 1) bytes = .ok (value, rest)) :
    ∃ inner, skipSpace bytes = 0x7b :: inner ∧
      record.readObject depth inner = .ok (value, rest) := by
  unfold reader at h
  split at h
  · cases h
  · rename_i b inner hspace
    split at h
    · rename_i hb
      exact ⟨inner, hb ▸ hspace, h⟩
    · rw [hkeep] at h
      simp at h

/-- What every field keeps, a record has whose fields are read by their places. -/
theorem of_readPlaces {P : α → Prop} {fields : List (Field α)} {place : Nat} {bytes rest : Bytes}
    {value result : α}
    (hfield : ∀ field ∈ fields, ∀ {bytes change rest},
      field.read depth bytes = .ok (change, rest) → ∀ x, P x → P (change x))
    (hvalue : P value)
    (h : record.readPlaces depth place value bytes fields = .ok (result, rest)) : P result := by
  induction fields generalizing place value bytes with
  | nil =>
    rw [readPlaces] at h
    split at h
    · cases h
    · obtain ⟨rfl, -⟩ := Prod.mk.inj (Except.ok.inj h)
      exact hvalue
  | cons field more ih =>
    obtain ⟨hfirst, hmore⟩ := List.forall_mem_cons.mp hfield
    rw [readPlaces] at h
    split at h
    · cases h
    · split at h
      · cases h
      · exact ih hmore hvalue h
    · split at h
      · cases h
      · rename_i hread
        exact ih hmore (hfirst hread _ hvalue) h

/-- What the blank record has and every field keeps, a record has that is read in either form, if
members that are no fields are passed over. -/
theorem of_reader {P : α → Prop} {bytes rest : Bytes} {value : α} (hkeep : record.keep = none)
    (hblank : P record.blank)
    (hfield : ∀ field ∈ record.fields, ∀ {depth bytes change rest},
      field.read depth bytes = .ok (change, rest) → ∀ x, P x → P (change x))
    (h : record.reader depth bytes = .ok (value, rest)) : P value := by
  have htake : ∀ {depth draft after name bytes rest}, P draft.2 →
      Takes record depth draft name bytes after rest → P after.2 := by
    intro depth draft after name bytes rest hdraft htakes
    cases htakes with
    | field find _ read => exact hfield _ (List.mem_of_find?_eq_some find) read _ hdraft
    | kept _ keeps _ =>
      rw [hkeep] at keeps
      cases keeps
    | passed _ _ _ => exact hdraft
  unfold reader at h
  split at h
  · cases h
  · split at h
    · split at h
      · cases h
      · obtain ⟨seen, hvalue⟩ := of_readObject (P := fun draft => P draft.2) hblank htake h
        exact hvalue
    · split at h
      · split at h
        · cases h
        · exact of_readPlaces (fun field hmem => hfield field hmem) hblank h
      · cases h

/-! ## What is kept -/

/-- The record keeps its members that are no fields in a dictionary, which no field changes. -/
structure KeepsIn (record : Record α) (details : α → Dict Json) : Prop where
  /-- nothing is kept at first -/
  blank : details record.blank = Dict.empty
  /-- a member that is no field is put into the dictionary -/
  keep : ∃ keep, record.keep = some keep ∧
    ∀ name value x, details (keep name value x) = (details x).insert name value
  /-- a field leaves the dictionary alone -/
  field : ∀ field ∈ record.fields, ∀ {depth bytes change rest},
    field.read depth bytes = .ok (change, rest) → ∀ x, details (change x) = details x

/-- What members have that were kept: they fit, and none of them has the name of a field. -/
structure Kept (record : Record α) (depth : Nat) (details : Dict Json) : Prop where
  /-- they fit, together with the object in which they stand -/
  fits : Fits (depth + 1) (ofDict details)
  /-- none is a field -/
  no_field : ∀ name ∈ record.fields.map Field.name, details.contains name = false

theorem Kept.insert {details : Dict Json} {name : String} {value : Json}
    (h : Kept record depth details) (hname : name ∉ record.fields.map Field.name)
    (hvalue : Fits depth value) : Kept record depth (details.insert name value) := by
  refine ⟨fits_insert h.fits hvalue, fun field hfield => ?_⟩
  have hne : name ≠ field := by
    rintro rfl
    exact hname hfield
  rw [Dict.contains, Dict.find?_insert_ne hne]
  exact h.no_field field hfield

/-- Kept members are read back, each by itself. -/
theorem Kept.readsBack {details : Dict Json} (h : Kept record depth details)
    (hfree : ∀ entry ∈ details.entries, FloatFree entry.2) :
    ∀ entry ∈ details.entries, entry.1 ∉ record.fields.map Field.name ∧
      ReadsBack (readValue depth) (write entry.2) entry.2 := by
  intro entry hentry
  refine ⟨fun hfield => ?_, readsBack_write (h.fits.2 entry hentry) (hfree entry hentry)⟩
  have hcontains := Dict.contains_of_find? (Dict.mem_entries_iff.mp hentry)
  rw [h.no_field entry.1 hfield] at hcontains
  cases hcontains

/-- What a record keeps that is read, can be written and kept again. -/
theorem KeepsIn.kept {details : α → Dict Json} {bytes rest : Bytes} {value : α}
    (h : KeepsIn record details) (hread : record.reader (depth + 1) bytes = .ok (value, rest)) :
    Kept record depth (details value) := by
  obtain ⟨keep, hkeep, hput⟩ := h.keep
  obtain ⟨inner, -, hobject⟩ := exists_of_reader (hkeep ▸ rfl) hread
  have hblank : Kept record depth (details record.blank) :=
    h.blank ▸ ⟨fits_empty depth, fun _ _ => rfl⟩
  refine (@of_readObject _ record depth (fun draft => Kept record depth (details draft.2)) _ _ _
    hblank ?_ hobject).elim fun _ hvalue => hvalue
  intro draft after name bytes rest hdraft htakes
  cases htakes with
  | field hfind _ hfield =>
    rw [h.field _ (List.mem_of_find?_eq_some hfind) hfield]
    exact hdraft
  | kept hfind hkeep' hvalue =>
    obtain rfl := Option.some.inj (hkeep.symm.trans hkeep')
    rw [hput]
    exact hdraft.insert (find?_fields_eq_none.mp hfind) (fits_of_readValue hvalue)
  | passed _ _ _ => exact hdraft

/-! ## Written members are taken -/

theorem readsBack_field {field : Field α} {draft : Draft α} {name : String} {bytes : Bytes}
    {change : α → α} {after : α}
    (hfind : (record.fields.find? fun field => field.name = name) = some field)
    (hunseen : draft.1.contains name = false)
    (hread : ReadsBack (field.read depth) bytes change) (hafter : change draft.2 = after) :
    ReadsBack (record.readMember depth draft name) (0x3a :: bytes) (name :: draft.1, after) := by
  intro rest hrest
  have hcolon : afterColon (0x3a :: (bytes ++ rest)) = .ok (bytes ++ rest) := rfl
  rw [List.cons_append, readMember, hfind]
  simp only [hunseen, hcolon, hread rest hrest, Reading.map_ok, hafter, Bool.false_eq_true,
    if_false]

/-- A member that is no field, and not kept, is passed over. -/
theorem readsBack_passed {draft : Draft α} {entry : String × Json}
    (hfind : (record.fields.find? fun field => field.name = entry.1) = none)
    (hkeep : record.keep = none)
    (hskip : ∀ rest, EndsValue rest → skipValue (write entry.2 ++ rest) = .ok rest) :
    ReadsBack (record.readMember depth draft entry.1) (0x3a :: write entry.2) draft := by
  intro rest hrest
  have hcolon : afterColon (0x3a :: (write entry.2 ++ rest)) = .ok (write entry.2 ++ rest) := rfl
  rw [List.cons_append, readMember, hfind]
  simp only [hcolon, hkeep, hskip rest hrest]

theorem readsBack_kept {keep : String → Json → α → α} {draft : Draft α} {entry : String × Json}
    (hfind : (record.fields.find? fun field => field.name = entry.1) = none)
    (hkeep : record.keep = some keep)
    (hread : ReadsBack (readValue depth) (write entry.2) entry.2) :
    ReadsBack (record.readMember depth draft entry.1) (0x3a :: write entry.2)
      (draft.1, keep entry.1 entry.2 draft.2) := by
  intro rest hrest
  have hcolon : afterColon (0x3a :: (write entry.2 ++ rest)) = .ok (write entry.2 ++ rest) := rfl
  rw [List.cons_append, readMember, hfind]
  simp only [hcolon, hkeep, hread rest hrest, Reading.map_ok]

/-- Members that are no fields are kept, one after the other, in the dictionary of the record. -/
theorem membersRead_kept {keep : String → Json → α → α} {make : Dict Json → α}
    (hkeep : record.keep = some keep)
    (hmake : ∀ name value dict, keep name value (make dict) = make (dict.insert name value))
    {entries : List (String × Json)}
    (hentries : ∀ entry ∈ entries, entry.1 ∉ record.fields.map Field.name ∧
      ReadsBack (readValue depth) (write entry.2) entry.2) (seen : List String)
    (dict : Dict Json) :
    MembersRead (record.readMember depth) (seen, make dict) entries
      (seen, make (dict.insertAll entries)) := by
  induction entries generalizing dict with
  | nil => exact .nil _
  | cons entry more ih =>
    obtain ⟨⟨hname, hread⟩, hmore⟩ := List.forall_mem_cons.mp hentries
    refine .cons (readsBack_kept (find?_fields_eq_none.mpr hname) hkeep hread) ?_
    rw [hmake]
    exact ih hmore (dict.insert entry.1 entry.2)

/-- A record is read back from its members, where no required one is missing. -/
theorem readsBack_object {members : List (String × Json)} {seen : List String} {value : α}
    (hread : MembersRead (record.readMember depth) ([], record.blank) members (seen, value))
    (hmissing : record.missing? seen = none) :
    ReadsBack (record.reader (depth + 1)) (write (.object members)) value := by
  intro rest _
  obtain ⟨bytes, hwrite, hmembers⟩ := readMembers_write hread rest
  have hspace : isSpaceByte 0x7b = false := rfl
  rw [hwrite, List.cons_append, reader, skipSpace_cons hspace]
  simp only [if_true, readObject, hmembers, hmissing]

end Record

end EngineCatalog.Json
