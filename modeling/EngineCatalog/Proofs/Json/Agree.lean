import EngineCatalog.Proofs.Json.Covers
import EngineCatalog.Proofs.Json.Record
import EngineCatalog.Proofs.Json.Skip

/-!
# Readers and documents

A reader of values of one shape goes its own way through a text. Where the text is also a document,
the reader takes the same bytes as the document does, and what it gives back can be compared with
that (`Agrees`).

A text agrees with the document that is this text, and any value with the document put in order. For
records the two walks over the members are taken side by side (`agree_of_readMembersWithin`): a field
shows the member of its name (`Record.Shows`), and a record that keeps its other members has each of
them in order (`Record.KeepsIn.agrees`).
-/

namespace EngineCatalog.Json

open Text

variable {α β σ τ : Type}

/-- Where the reader and a document start at the same bytes, they end at the same bytes, and the
result stands in the relation to the document. -/
def Agrees (read : Bytes → Reading α) (Q : α → Json → Prop) : Prop :=
  ∀ ⦃bytes x rest⦄, read bytes = .ok (x, rest) → ∀ ⦃depth document after⦄,
    readWritten depth bytes = .ok (document, after) → rest = after ∧ Q x document

/-! ## Readers of one kind of value -/

theorem Agrees.map {read : Bytes → Reading α} {Q : α → Json → Prop} {P : β → Json → Prop}
    (h : Agrees read Q) (f : α → β) (himp : ∀ {x document}, Q x document → P (f x) document) :
    Agrees (fun bytes => (read bytes).map f) P := by
  intro bytes y rest hread depth document after hdocument
  obtain ⟨x, hx, rfl⟩ := Reading.map_eq_ok_iff.mp hread
  obtain ⟨hrest, hQ⟩ := h hx hdocument
  exact ⟨hrest, himp hQ⟩

/-- A reader whose result can be read as a value without parts agrees with the document that is
this value. -/
theorem agrees_of_leaf {read : Bytes → Reading α} {toJson : α → Json}
    (hread : ∀ {bytes x rest}, read bytes = .ok (x, rest) →
      readValue 0 bytes = .ok (toJson x, rest))
    (hlist : ∀ x items, toJson x ≠ .list items) (hobject : ∀ x members, toJson x ≠ .object members) :
    Agrees read fun x document => document = toJson x := by
  intro bytes x rest hx depth document after hdocument
  obtain ⟨hrest, hordered⟩ := agree_of_readValue (hread hx) hdocument
  exact ⟨hrest, eq_of_ordered_eq hordered.symm (hlist x) (hobject x)⟩

theorem readValue_of_text {depth : Nat} {bytes rest : Bytes} {text : String}
    (h : Reader.text depth bytes = .ok (text, rest)) :
    readValue 0 bytes = .ok (.text text, rest) := by
  unfold Reader.text at h
  split at h
  · cases h
  · rename_i b inner hspace
    split at h
    · rename_i hquote
      subst hquote
      rw [← readValue_skipSpace, hspace, quoteByte, readValue_quote, h, Reading.map_ok]
    · cases h

theorem agrees_text (depth : Nat) :
    Agrees (Reader.text depth) fun text document => document = .text text :=
  agrees_of_leaf readValue_of_text nofun nofun

theorem agrees_optionalText (depth : Nat) :
    Agrees (Reader.optional Reader.text depth) fun text document => document = optionalText text := by
  refine agrees_of_leaf ?_ (fun text _ => by cases text <;> nofun)
    (fun text _ => by cases text <;> nofun)
  intro bytes text rest h
  unfold Reader.optional at h
  split at h
  · rename_i inner hspace
    obtain rfl := eq_of_readWord h
    rw [← readValue_skipSpace, hspace]
    exact readWord_other Json.null h
  · obtain ⟨text, htext, rfl⟩ := Reading.map_eq_ok_iff.mp h
    rw [← readValue_skipSpace]
    exact readValue_of_text htext

/-! ## Members side by side -/

/-- Two walks over the same members, in which corresponding states stay corresponding, end at the
same bytes. -/
theorem agree_of_readMembersWithin {member : σ → String → Bytes → Reading σ}
    {other : τ → String → Bytes → Reading τ} {R : σ → τ → Prop}
    (hmember : ∀ {state state' name bytes after after' rest rest'}, R state state' →
      member state name bytes = .ok (after, rest) → other state' name bytes = .ok (after', rest') →
      rest = rest' ∧ R after after')
    {bound : Nat} {first : Bool} {state after : σ} {state' after' : τ} {bytes rest rest' : Bytes}
    (hstate : R state state')
    (h : readMembersWithin member bound first state bytes = .ok (after, rest))
    (h' : readMembersWithin other bound first state' bytes = .ok (after', rest')) :
    rest = rest' ∧ R after after' := by
  induction bound generalizing first state state' bytes with
  | zero => cases h
  | succ bound ih =>
    rw [readMembersWithin] at h h'
    cases hnext : nextName first bytes with
    | error fault =>
      rw [hnext] at h
      cases h
    | ok next =>
      obtain ⟨name, inner⟩ := next
      rw [hnext] at h h'
      cases name with
      | none =>
        obtain ⟨rfl, rfl⟩ := Prod.mk.inj (Except.ok.inj h)
        obtain ⟨rfl, rfl⟩ := Prod.mk.inj (Except.ok.inj h')
        exact ⟨rfl, hstate⟩
      | some name =>
        dsimp only at h h'
        split at h
        · cases h
        · rename_i hread
          split at h'
          · cases h'
          · rename_i hread'
            obtain ⟨rfl, hafter⟩ := hmember hstate hread hread'
            exact ih hafter h h'

namespace Record

variable {record : Record α} {depth : Nat}

/-- What is shown of a member: a field shows the member of its name and changes nothing that is shown
of other members, and what is kept changes nothing. -/
structure Shows (record : Record α) (depth : Nat) (Shown : α → String → Json → Prop) : Prop where
  /-- a field shows what it is read from, and leaves the rest -/
  field : ∀ field ∈ record.fields, Agrees (field.read depth) fun change document =>
    ∀ x, Shown (change x) field.name document ∧
      ∀ name other, name ≠ field.name → Shown x name other → Shown (change x) name other
  /-- what is kept leaves it all -/
  keep : ∀ keep, record.keep = some keep → ∀ name value x name' other,
    Shown x name' other → Shown (keep name value x) name' other

variable {Shown : α → String → Json → Prop}

theorem of_find?_fields {name : String} {field : Field α}
    (h : (record.fields.find? fun field => field.name = name) = some field) :
    field ∈ record.fields ∧ field.name = name :=
  ⟨List.mem_of_find?_eq_some h, by simpa using List.find?_some h⟩

/-- A member is taken up to where its value ends in the document. -/
theorem Shows.rest_eq (h : record.Shows depth Shown) {draft after : Draft α} {name : String}
    {bytes rest rest' : Bytes} {limit : Nat} {document : Json}
    (htakes : Takes record depth draft name bytes after rest)
    (hdocument : readWritten limit bytes = .ok (document, rest')) : rest = rest' := by
  cases htakes with
  | field hfind _ hread => exact (h.field _ (of_find?_fields hfind).1 hread hdocument).1
  | kept _ _ hread => exact (agree_of_readValue hread hdocument).1
  | passed _ _ hskip => exact (eq_of_skipValue hskip hdocument).symm

/-- A record and the document of the object it is read from, member by member. -/
theorem Shows.agree_of_readObject (h : record.Shows depth Shown)
    {R : Draft α → List (String × Json) → Prop} (hblank : R ([], record.blank) [])
    (htake : ∀ {draft after members name bytes rest limit document}, R draft members →
      Takes record depth draft name bytes after rest →
      readWritten limit bytes = .ok (document, rest) → R after (members ++ [(name, document)]))
    {bytes rest rest' : Bytes} {value : α} {limit : Nat} {members : List (String × Json)}
    (hread : record.readObject depth bytes = .ok (value, rest))
    (hdocument : readMembers (appendMember (readWritten limit)) [] bytes = .ok (members, rest')) :
    rest = rest' ∧ ∃ seen, R (seen, value) members := by
  unfold readObject at hread
  split at hread
  · cases hread
  · rename_i seen value rest hmembers
    split at hread
    · cases hread
    · obtain ⟨rfl, rfl⟩ := Prod.mk.inj (Except.ok.inj hread)
      refine (agree_of_readMembersWithin ?_ hblank hmembers hdocument).imp_right fun hR =>
        ⟨seen, hR⟩
      intro draft members name bytes after members' rest rest' hR hmember happend
      obtain ⟨inner, hcolon, htakes⟩ := takes_of_readMember hmember
      rw [appendMember, hcolon] at happend
      obtain ⟨document, hwritten, rfl⟩ := Reading.map_eq_ok_iff.mp happend
      obtain rfl := h.rest_eq htakes hwritten
      exact ⟨rfl, htake hR htakes hwritten⟩

/-- The object of a document is read as a record from its members. -/
theorem readObject_of_document {bytes rest after : Bytes} {value : α} {limit : Nat}
    {members : List (String × Json)}
    (hread : record.reader (depth + 1) bytes = .ok (value, rest))
    (hdocument : readWritten limit bytes = .ok (.object members, after)) :
    ∃ inner limit, record.readObject depth inner = .ok (value, rest) ∧
      readMembers (appendMember (readWritten limit)) [] inner = .ok (members, after) := by
  unfold reader at hread
  unfold readWritten at hdocument
  split at hread
  · cases hread
  · rename_i b inner hspace
    split at hread
    · rename_i hopen
      subst hopen
      rw [hspace] at hdocument
      cases limit with
      | zero => cases hdocument
      | succ limit =>
        obtain ⟨_, hmembers, hsame⟩ := Reading.map_eq_ok_iff.mp hdocument
        exact ⟨inner, limit, hread, Json.object.inj hsame ▸ hmembers⟩
    · split at hread
      · rename_i hopen
        obtain rfl := hopen.1
        rw [hspace] at hdocument
        cases limit with
        | zero => cases hdocument
        | succ limit =>
          obtain ⟨_, -, hsame⟩ := Reading.map_eq_ok_iff.mp hdocument
          cases hsame
      · cases hread

theorem nextItem_of_skipSpace {first : Bool} {bytes rest : Bytes}
    (h : skipSpace bytes = listEnd :: rest) : nextItem first bytes = .ok none := by
  simp only [nextItem, h, if_true]

theorem skipSpace_of_closeList {bytes rest : Bytes} (h : closeList bytes = .ok rest) :
    skipSpace bytes = listEnd :: rest := by
  unfold closeList at h
  split at h
  · cases h
  · rename_i b inner hspace
    split at h
    · rename_i hclose
      rw [hspace, hclose, Except.ok.inj h]
    · split at h
      · split at h
        · cases h
        · split at h <;> cases h
      · cases h

/-- No items are read where a list is closed. -/
theorem eq_nil_of_closed {item : Bytes → Reading β} {bound : Nat} {first : Bool}
    {bytes rest after : Bytes} {items : List β} (hspace : skipSpace bytes = listEnd :: rest)
    (h : readItemsWithin item bound first bytes = .ok (items, after)) :
    after = rest ∧ items = [] := by
  cases bound with
  | zero => cases h
  | succ bound =>
    have hclose : closeList bytes = .ok rest := by simp only [closeList, hspace, if_true]
    rw [readItemsWithin, nextItem_of_skipSpace hspace, hclose] at h
    obtain ⟨rfl, rfl⟩ := Prod.mk.inj (Except.ok.inj h)
    exact ⟨rfl, rfl⟩

/-- A record is taken from a list up to where the list ends in the document. -/
theorem Shows.rest_eq_of_readPlaces (h : record.Shows depth Shown) {fields : List (Field α)}
    (hfields : fields ⊆ record.fields) {place bound limit : Nat} {value result : α}
    {bytes rest after : Bytes} {items : List Json}
    (hread : record.readPlaces depth place value bytes fields = .ok (result, rest))
    (hdocument : readItemsWithin (readWritten limit) bound (place = 0) bytes = .ok (items, after)) :
    rest = after := by
  induction fields generalizing place bound value bytes items with
  | nil =>
    rw [readPlaces] at hread
    split at hread
    · cases hread
    · rename_i hclose
      obtain ⟨-, rfl⟩ := Prod.mk.inj (Except.ok.inj hread)
      exact (eq_nil_of_closed (skipSpace_of_closeList hclose) hdocument).1.symm
  | cons field more ih =>
    obtain ⟨hfield, hmore⟩ := List.cons_subset.mp hfields
    rw [readPlaces] at hread
    split at hread
    · cases hread
    · rename_i hnext
      split at hread
      · cases hread
      · -- the list is at its end, and stays there for all further fields
        obtain ⟨inner, hspace, hclose⟩ := closes_of_nextItem hnext
        obtain ⟨rfl, rfl⟩ := eq_nil_of_closed hspace hdocument
        have hlater : decide (place + 1 = 0) = false := by simp
        have hagain : readItemsWithin (readWritten limit) 1 (place + 1 = 0) bytes
            = .ok ([], after) := by
          rw [hlater, readItemsWithin, nextItem_of_skipSpace hspace]
          simp only [hclose]
        exact ih hmore hread hagain
    · rename_i inner hnext
      split at hread
      · cases hread
      · rename_i change next hchange
        cases bound with
        | zero => cases hdocument
        | succ bound =>
          rw [readItemsWithin, hnext] at hdocument
          dsimp only at hdocument
          split at hdocument
          · cases hdocument
          · rename_i hitem
            obtain ⟨items, hitems, -⟩ := Reading.map_eq_ok_iff.mp hdocument
            obtain ⟨rfl, -⟩ := h.field field hfield hchange hitem
            have hlater : decide (place + 1 = 0) = false := by simp
            exact ih hmore hread (hlater ▸ hitems)

/-- Of the members taken so far, those that are fields are shown, if no two have one name. -/
def FieldsShown (record : Record α) (Shown : α → String → Json → Prop) (value : α)
    (members : List (String × Json)) : Prop :=
  (members.map Prod.fst).Nodup → ∀ member ∈ members, member.1 ∈ record.fields.map Field.name →
    Shown value member.1 member.2

theorem nodup_concat {members : List (String × Json)} {member : String × Json}
    (h : ((members ++ [member]).map Prod.fst).Nodup) :
    (members.map Prod.fst).Nodup ∧ ∀ other ∈ members, other.1 ≠ member.1 := by
  rw [List.map_append, List.nodup_append] at h
  exact ⟨h.1, fun other hother => h.2.2 _ (List.mem_map_of_mem hother) _ (by simp)⟩

theorem FieldsShown.takes (h : record.Shows depth Shown) {draft after : Draft α}
    {members : List (String × Json)} {name : String} {bytes rest : Bytes} {limit : Nat}
    {document : Json} (hshown : FieldsShown record Shown draft.2 members)
    (htakes : Takes record depth draft name bytes after rest)
    (hdocument : readWritten limit bytes = .ok (document, rest)) :
    FieldsShown record Shown after.2 (members ++ [(name, document)]) := by
  intro hnodup
  obtain ⟨hbefore, hdiffer⟩ := nodup_concat hnodup
  have hshown := hshown hbefore
  refine List.forall_mem_append.mpr ⟨fun member hmember hfield => ?_,
    List.forall_mem_singleton.mpr fun hfield => ?_⟩
  · have hmember' := hshown member hmember hfield
    cases htakes with
    | field hfind _ hread =>
      obtain ⟨hmem, rfl⟩ := of_find?_fields hfind
      exact ((h.field _ hmem hread hdocument).2 _).2 _ _ (hdiffer member hmember) hmember'
    | kept _ hkeep _ => exact h.keep _ hkeep _ _ _ _ _ hmember'
    | passed _ _ _ => exact hmember'
  · cases htakes with
    | field hfind _ hread =>
      obtain ⟨hmem, rfl⟩ := of_find?_fields hfind
      exact ((h.field _ hmem hread hdocument).2 _).1
    | kept hfind _ _ => exact absurd hfield (find?_fields_eq_none.mp hfind)
    | passed hfind _ _ => exact absurd hfield (find?_fields_eq_none.mp hfind)

/-- A record agrees with a document; of an object, its fields show their members. -/
theorem Shows.agrees (h : record.Shows depth Shown) :
    Agrees (record.reader (depth + 1)) fun value document =>
      ∀ members, document = .object members → FieldsShown record Shown value members := by
  intro bytes value rest hread limit document after hdocument
  by_cases hobject : ∃ members, document = .object members
  · obtain ⟨members, rfl⟩ := hobject
    obtain ⟨inner, limit, hread, hmembers⟩ := readObject_of_document hread hdocument
    obtain ⟨hrest, seen, hshown⟩ := @Shows.agree_of_readObject _ _ _ _ h
      (fun draft members => FieldsShown record Shown draft.2 members)
      (fun _ => List.forall_mem_nil _) (FieldsShown.takes h) _ _ _ _ _ _ hread hmembers
    exact ⟨hrest, fun _ hsame => Json.object.inj hsame ▸ hshown⟩
  · refine ⟨?_, fun members hsame => absurd ⟨members, hsame⟩ hobject⟩
    unfold reader at hread
    unfold readWritten at hdocument
    split at hread
    · cases hread
    · rename_i b inner hspace
      split at hread
      · rename_i hopen
        subst hopen
        rw [hspace] at hdocument
        cases limit with
        | zero => cases hdocument
        | succ limit =>
          obtain ⟨members, -, rfl⟩ := Reading.map_eq_ok_iff.mp hdocument
          exact absurd ⟨members, rfl⟩ hobject
      · split at hread
        · rename_i hopen
          obtain rfl := hopen.1
          rw [hspace] at hdocument
          cases limit with
          | zero => cases hdocument
          | succ limit =>
            obtain ⟨items, hitems, -⟩ := Reading.map_eq_ok_iff.mp hdocument
            exact h.rest_eq_of_readPlaces (List.Subset.refl _) hread hitems
        · cases hread

/-! ## What is kept -/

/-- Of the members taken so far, those that are no fields are kept, put in order, if no two have one
name; and what is kept is plain. -/
def AllKept (record : Record α) (details : Dict Json) (members : List (String × Json)) : Prop :=
  Plain (.object members) →
    (∀ member ∈ members, member.1 ∉ record.fields.map Field.name →
      details.find? member.1 = some member.2.ordered) ∧
    ∀ entry ∈ details.entries, Plain entry.2

theorem AllKept.takes {details : α → Dict Json} (h : KeepsIn record details)
    {draft after : Draft α} {members : List (String × Json)} {name : String} {bytes rest : Bytes}
    {limit : Nat} {document : Json} (hkept : AllKept record (details draft.2) members)
    (htakes : Takes record depth draft name bytes after rest)
    (hdocument : readWritten limit bytes = .ok (document, rest)) :
    AllKept record (details after.2) (members ++ [(name, document)]) := by
  intro hplain
  obtain ⟨hbefore, hdiffer⟩ := nodup_concat hplain.nodup
  obtain ⟨hvalues, hvalue⟩ := List.forall_mem_append.mp hplain.values
  obtain ⟨hfound, hentries⟩ := hkept (.object hbefore hvalues)
  obtain ⟨keep, hkeep, hput⟩ := h.keep
  cases htakes with
  | field hfind _ hread =>
    obtain ⟨hfield, rfl⟩ := of_find?_fields hfind
    rw [h.field _ hfield hread]
    exact ⟨List.forall_mem_append.mpr ⟨hfound, List.forall_mem_singleton.mpr fun hno =>
      absurd (List.mem_map_of_mem hfield) hno⟩, hentries⟩
  | kept hfind hkeep' hread =>
    obtain rfl := Option.some.inj (hkeep.symm.trans hkeep')
    obtain ⟨-, rfl⟩ := agree_of_readValue hread hdocument
    rw [hput]
    refine ⟨List.forall_mem_append.mpr ⟨fun member hmember hno => ?_,
      List.forall_mem_singleton.mpr fun _ => Dict.find?_insert_self _ _ _⟩, fun entry hentry => ?_⟩
    · rw [Dict.find?_insert_ne (hdiffer member hmember).symm]
      exact hfound member hmember hno
    · have hfind := Dict.mem_entries_iff.mp hentry
      rw [Dict.find?_insert] at hfind
      split at hfind
      · exact Option.some.inj hfind ▸ (List.forall_mem_singleton.mp hvalue).ordered
      · exact hentries entry (Dict.mem_entries_iff.mpr hfind)
  | passed _ hnone _ =>
    rw [hkeep] at hnone
    cases hnone

/-- A record that keeps what is no field has kept each such member of the document. -/
theorem KeepsIn.allKept {details : α → Dict Json} (h : KeepsIn record details)
    (hshows : record.Shows depth Shown) {bytes rest after : Bytes} {value : α} {limit : Nat}
    {members : List (String × Json)}
    (hread : record.reader (depth + 1) bytes = .ok (value, rest))
    (hdocument : readWritten limit bytes = .ok (.object members, after)) :
    AllKept record (details value) members := by
  obtain ⟨inner, limit, hread, hmembers⟩ := readObject_of_document hread hdocument
  have hblank : AllKept record (details record.blank) [] := by
    rw [h.blank]
    exact fun _ => ⟨List.forall_mem_nil _, List.forall_mem_nil _⟩
  exact (@Shows.agree_of_readObject _ _ _ _ hshows
    (fun draft members => AllKept record (details draft.2) members) hblank (AllKept.takes h)
    _ _ _ _ _ _ hread hmembers).2.elim fun _ hkept => hkept

end Record

end EngineCatalog.Json
