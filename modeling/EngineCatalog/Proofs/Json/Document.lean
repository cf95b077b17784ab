import EngineCatalog.Proofs.Json.Value
import Mathlib.Data.List.DropRight

/-!
# Texts as they are written

A value that is read has the members of its objects in ascending order, each name once. What the text
says before that is its document: all members, in the order in which they stand there
(`readWritten`, `Writes`).

* `ordered` — a document with its members put in order. Reading a value is reading the document and
  putting it in order (`readValue_eq_map_ordered`), and so a reader that succeeds takes the same
  bytes as the document does (`agree_of_readValue`).
* `readWritten_mono` — a limit on the nesting does not matter as long as it is not reached.
* `readsBack_written` — a written value is its own document.
-/

namespace EngineCatalog.Json

open Text

variable {α β σ τ : Type}

/-! ## Documents -/

/-- Puts a member's value behind the members before it. -/
def appendMember (value : Bytes → Reading Json) (members : List (String × Json)) (name : String)
    (bytes : Bytes) : Reading (List (String × Json)) :=
  match afterColon bytes with
  | .error fault => .error fault
  | .ok bytes => (value bytes).map fun json => members ++ [(name, json)]

/-- A value as it is written, with all members of its objects in the order of the text. -/
def readWritten (depth : Nat) (bytes : Bytes) : Reading Json :=
  match skipSpace bytes with
  | 0x5b :: rest =>
    match depth with
    | 0 => .error .tooDeep
    | depth + 1 => (readItems (readWritten depth) rest).map .list
  | 0x7b :: rest =>
    match depth with
    | 0 => .error .tooDeep
    | depth + 1 => (readMembers (appendMember (readWritten depth)) [] rest).map .object
  | _ => readValue depth bytes

/-- The bytes are the text of a document, however deep its nesting. -/
def Writes (bytes : Bytes) (document : Json) : Prop :=
  ∃ depth, complete (readWritten depth bytes) = .ok document

mutual

/-- The value with the members of all objects in ascending order; of two at one name the later one
counts. -/
def ordered : Json → Json
  | .list items => .list (orderedItems items)
  | .object members => .object (orderedMembers [] members)
  | value => value

/-- The items with their members in order. -/
def orderedItems : List Json → List Json
  | [] => []
  | item :: more => item.ordered :: orderedItems more

/-- The members put in order among the ones before them. -/
def orderedMembers (before : List (String × Json)) :
    List (String × Json) → List (String × Json)
  | [] => before
  | (name, value) :: more => orderedMembers (Sorted.insert name value.ordered before) more

end

theorem orderedItems_eq_map (items : List Json) : orderedItems items = items.map ordered := by
  induction items with
  | nil => rfl
  | cons item more ih => rw [orderedItems, ih, List.map_cons]

theorem orderedMembers_eq_foldl (before members : List (String × Json)) :
    orderedMembers before members
      = members.foldl (fun before member => Sorted.insert member.1 member.2.ordered before)
          before := by
  induction members generalizing before with
  | nil => rfl
  | cons member more ih =>
    obtain ⟨name, value⟩ := member
    rw [orderedMembers, ih, List.foldl_cons]

theorem orderedMembers_concat (before members : List (String × Json)) (name : String)
    (value : Json) :
    orderedMembers before (members ++ [(name, value)])
      = Sorted.insert name value.ordered (orderedMembers before members) := by
  rw [orderedMembers_eq_foldl, orderedMembers_eq_foldl, List.foldl_append]
  rfl

theorem ordered_optionalText (text : Option String) :
    (optionalText text).ordered = optionalText text := by
  cases text with
  | none => rfl
  | some text => rfl

/-! ## Reading is putting in order -/

theorem skipSpace_skipSpace (bytes : Bytes) : skipSpace (skipSpace bytes) = skipSpace bytes := by
  rw [skipSpace, skipSpace, List.dropWhile_idempotent]

theorem readValue_skipSpace (depth : Nat) (bytes : Bytes) :
    readValue depth (skipSpace bytes) = readValue depth bytes := by
  unfold readValue
  rw [skipSpace_skipSpace]

/-- Items that are read with their results replaced. -/
theorem readItemsWithin_map (f : α → β) (item : Bytes → Reading α) (bound : Nat) (first : Bool)
    (bytes : Bytes) :
    readItemsWithin (fun bytes => (item bytes).map f) bound first bytes
      = (readItemsWithin item bound first bytes).map (List.map f) := by
  induction bound generalizing first bytes with
  | zero => rfl
  | succ bound ih =>
    rw [readItemsWithin, readItemsWithin]
    cases nextItem first bytes with
    | error fault => rfl
    | ok next =>
      cases next with
      | none =>
        cases closeList bytes with
        | error fault => rfl
        | ok rest => rfl
      | some bytes =>
        cases hitem : item bytes with
        | error fault => simp only [hitem, Reading.map_error]
        | ok result =>
          obtain ⟨x, rest⟩ := result
          simp only [hitem, Reading.map_ok, ih, Reading.map_map]
          rfl

/-- Members that change corresponding states correspondingly lead to corresponding states. -/
theorem readMembersWithin_map {member : σ → String → Bytes → Reading σ}
    {other : τ → String → Bytes → Reading τ} {f : τ → σ}
    (h : ∀ state name bytes, member (f state) name bytes = (other state name bytes).map f)
    (bound : Nat) (first : Bool) (state : τ) (bytes : Bytes) :
    readMembersWithin member bound first (f state) bytes
      = (readMembersWithin other bound first state bytes).map f := by
  induction bound generalizing first state bytes with
  | zero => rfl
  | succ bound ih =>
    rw [readMembersWithin, readMembersWithin]
    cases nextName first bytes with
    | error fault => rfl
    | ok next =>
      obtain ⟨name, rest⟩ := next
      cases name with
      | none => rfl
      | some name =>
        simp only [h]
        cases other state name rest with
        | error fault => rfl
        | ok result => exact ih false result.1 result.2

/-- A value that starts with no bracket is read without regard to the depth, and in order. -/
theorem readValue_leaf {bytes : Bytes} (hlist : ∀ rest, skipSpace bytes ≠ 0x5b :: rest)
    (hobject : ∀ rest, skipSpace bytes ≠ 0x7b :: rest) (depth other : Nat) :
    readValue depth bytes = readValue other bytes ∧
      readValue depth bytes = (readValue depth bytes).map ordered := by
  unfold readValue
  split
  · exact ⟨rfl, rfl⟩
  · rename_i b rest hspace
    have hword : ∀ (value : Json) (word : Bytes), value.ordered = value →
        readWord value word rest = (readWord value word rest).map ordered := by
      intro value word hvalue
      match hread : readWord value word rest with
      | .error _ => rfl
      | .ok (result, after) =>
        obtain rfl := eq_of_readWord hread
        rw [Reading.map_ok, hvalue]
    split
    · exact ⟨rfl, hword _ _ rfl⟩
    · exact ⟨rfl, hword _ _ rfl⟩
    · exact ⟨rfl, hword _ _ rfl⟩
    · exact ⟨rfl, by rw [Reading.map_map]; rfl⟩
    · exact ⟨rfl, by rw [Reading.map_map]; rfl⟩
    · exact absurd hspace (hlist rest)
    · exact absurd hspace (hobject rest)
    · split
      · exact ⟨rfl, by rw [Reading.map_map]; rfl⟩
      · exact ⟨rfl, rfl⟩

/-- Reading a value is reading its document and putting it in order. -/
theorem readValue_eq_map_ordered (depth : Nat) (bytes : Bytes) :
    readValue depth bytes = (readWritten depth bytes).map ordered := by
  induction depth generalizing bytes with
  | zero =>
    unfold readWritten
    split
    · rename_i rest hspace
      unfold readValue
      rw [hspace]
      rfl
    · rename_i rest hspace
      unfold readValue
      rw [hspace]
      rfl
    · rename_i hlist hobject
      exact (readValue_leaf hlist hobject 0 0).2
  | succ depth ih =>
    have hvalue : readValue depth = fun bytes => (readWritten depth bytes).map ordered := funext ih
    unfold readWritten
    split
    · rename_i rest hspace
      rw [← readValue_skipSpace, hspace, readValue_list, hvalue, readItems, readItemsWithin_map,
        Reading.map_map, Reading.map_map]
      congr 1
      funext items
      exact congrArg Json.list (orderedItems_eq_map items).symm
    · rename_i rest hspace
      have hmember : ∀ members name bytes,
          putMember (readValue depth) (orderedMembers [] members) name bytes
            = (appendMember (readWritten depth) members name bytes).map (orderedMembers []) := by
        intro members name bytes
        rw [putMember, appendMember]
        cases afterColon bytes with
        | error fault => rfl
        | ok bytes =>
          simp only [hvalue, Reading.map_map]
          congr 1
          funext value
          exact (orderedMembers_concat [] members name value).symm
      have hread : readMembers (putMember (readValue depth)) [] rest
          = (readMembers (appendMember (readWritten depth)) [] rest).map (orderedMembers []) :=
        readMembersWithin_map hmember _ true [] rest
      rw [← readValue_skipSpace, hspace, readValue_object, hread, Reading.map_map, Reading.map_map]
      rfl
    · rename_i hlist hobject
      exact (readValue_leaf hlist hobject _ 0).2

/-! ## The depth does not matter -/

theorem readItemsWithin_mono {item other : Bytes → Reading α}
    (h : ∀ {bytes x rest}, item bytes = .ok (x, rest) → other bytes = .ok (x, rest)) {bound : Nat}
    {first : Bool} {bytes rest : Bytes} {items : List α}
    (hread : readItemsWithin item bound first bytes = .ok (items, rest)) :
    readItemsWithin other bound first bytes = .ok (items, rest) := by
  induction bound generalizing first bytes items with
  | zero => cases hread
  | succ bound ih =>
    rw [readItemsWithin] at hread ⊢
    cases hnext : nextItem first bytes with
    | error fault =>
      rw [hnext] at hread
      cases hread
    | ok next =>
      cases next with
      | none =>
        rw [hnext] at hread
        exact hread
      | some inner =>
        rw [hnext] at hread
        dsimp only at hread ⊢
        split at hread
        · cases hread
        · rename_i x after hitem
          obtain ⟨more, hmore, rfl⟩ := Reading.map_eq_ok_iff.mp hread
          simp only [h hitem, ih hmore, Reading.map_ok]

theorem readMembersWithin_mono {member other : σ → String → Bytes → Reading σ}
    (h : ∀ {state name bytes after rest}, member state name bytes = .ok (after, rest) →
      other state name bytes = .ok (after, rest)) {bound : Nat} {first : Bool} {state after : σ}
    {bytes rest : Bytes}
    (hread : readMembersWithin member bound first state bytes = .ok (after, rest)) :
    readMembersWithin other bound first state bytes = .ok (after, rest) := by
  induction bound generalizing first state bytes with
  | zero => cases hread
  | succ bound ih =>
    rw [readMembersWithin] at hread ⊢
    cases hnext : nextName first bytes with
    | error fault =>
      rw [hnext] at hread
      cases hread
    | ok next =>
      obtain ⟨name, inner⟩ := next
      cases name with
      | none =>
        rw [hnext] at hread
        exact hread
      | some name =>
        rw [hnext] at hread
        dsimp only at hread ⊢
        split at hread
        · cases hread
        · rename_i hmember
          simp only [h hmember, ih hread]

/-- A document that is read within a depth is read within every larger one. -/
theorem readWritten_mono {depth larger : Nat} (hle : depth ≤ larger) {bytes rest : Bytes}
    {value : Json} (h : readWritten depth bytes = .ok (value, rest)) :
    readWritten larger bytes = .ok (value, rest) := by
  induction depth generalizing larger bytes rest value with
  | zero =>
    unfold readWritten at h ⊢
    split at h
    · cases h
    · cases h
    · rename_i hlist hobject
      exact (readValue_leaf hlist hobject _ _).1 ▸ h
  | succ depth ih =>
    obtain ⟨larger, rfl⟩ := Nat.exists_eq_succ_of_ne_zero (Nat.ne_zero_of_lt hle)
    have hstep : ∀ {bytes value rest}, readWritten depth bytes = .ok (value, rest) →
        readWritten larger bytes = .ok (value, rest) := ih (Nat.le_of_succ_le_succ hle)
    unfold readWritten at h ⊢
    split at h
    · obtain ⟨items, hitems, rfl⟩ := Reading.map_eq_ok_iff.mp h
      exact Reading.map_eq_ok_iff.mpr ⟨items, readItemsWithin_mono hstep hitems, rfl⟩
    · obtain ⟨members, hmembers, rfl⟩ := Reading.map_eq_ok_iff.mp h
      refine Reading.map_eq_ok_iff.mpr ⟨members, readMembersWithin_mono ?_ hmembers, rfl⟩
      intro state name bytes after rest hmember
      rw [appendMember] at hmember ⊢
      split at hmember
      · cases hmember
      · obtain ⟨json, hjson, rfl⟩ := Reading.map_eq_ok_iff.mp hmember
        simp only [hstep hjson, Reading.map_ok]
    · rename_i hlist hobject
      exact (readValue_leaf hlist hobject _ _).1 ▸ h

/-- Documents that are read from the same bytes are the same. -/
theorem agree_of_readWritten {depth other : Nat} {bytes rest rest' : Bytes} {value value' : Json}
    (h : readWritten depth bytes = .ok (value, rest))
    (h' : readWritten other bytes = .ok (value', rest')) : rest = rest' ∧ value = value' := by
  have hlarger := readWritten_mono (Nat.le_max_left depth other) h
  rw [readWritten_mono (Nat.le_max_right depth other) h'] at hlarger
  obtain ⟨rfl, rfl⟩ := Prod.mk.inj (Except.ok.inj hlarger)
  exact ⟨rfl, rfl⟩

/-- A value that is read is its document put in order, and takes the same bytes. -/
theorem agree_of_readValue {depth other : Nat} {bytes rest rest' : Bytes} {value document : Json}
    (h : readValue depth bytes = .ok (value, rest))
    (h' : readWritten other bytes = .ok (document, rest')) :
    rest = rest' ∧ value = document.ordered := by
  rw [readValue_eq_map_ordered] at h
  obtain ⟨written, hwritten, rfl⟩ := Reading.map_eq_ok_iff.mp h
  obtain ⟨rfl, rfl⟩ := agree_of_readWritten hwritten h'
  exact ⟨rfl, rfl⟩

theorem Writes.exists_read {bytes : Bytes} {document : Json} (h : Writes bytes document) :
    ∃ depth rest, readWritten depth bytes = .ok (document, rest) := by
  obtain ⟨depth, h⟩ := h
  unfold complete at h
  split at h
  · cases h
  · rename_i rest hread
    split at h
    · exact ⟨depth, rest, Except.ok.inj h ▸ hread⟩
    · cases h

/-- Bytes are the text of one document at most. -/
theorem Writes.unique {bytes : Bytes} {document other : Json} (h : Writes bytes document)
    (h' : Writes bytes other) : document = other := by
  obtain ⟨_, _, hread⟩ := h.exists_read
  obtain ⟨_, _, hread'⟩ := h'.exists_read
  exact (agree_of_readWritten hread hread').2

/-! ## A written value is its own document -/

theorem readsBack_appendMember {read : Bytes → Reading Json} {entry : String × Json}
    (h : ReadsBack read (write entry.2) entry.2) (members : List (String × Json)) :
    ReadsBack (appendMember read members entry.1) (0x3a :: write entry.2) (members ++ [entry]) := by
  intro rest hrest
  have hcolon : afterColon (0x3a :: (write entry.2 ++ rest)) = .ok (write entry.2 ++ rest) := rfl
  rw [List.cons_append, appendMember, hcolon]
  simp only [h rest hrest, Reading.map_ok]

/-- An object is its own document if the values of its members are, whatever their order. -/
theorem readsBack_writtenObject {depth : Nat} {members : List (String × Json)}
    (h : ∀ member ∈ members, ReadsBack (readWritten depth) (write member.2) member.2) :
    ReadsBack (readWritten (depth + 1)) (write (.object members)) (.object members) := by
  intro rest _
  have hconcat : ∀ before, members.foldl (fun before member => before ++ [member]) before
      = before ++ members := by
    induction members with
    | nil => simp
    | cons member more ih =>
      intro before
      rw [List.foldl_cons, ih (List.forall_mem_cons.mp h).2]
      simp
  have hread : MembersRead (appendMember (readWritten depth)) [] members _ :=
    .foldl (fun member hmember => readsBack_appendMember (h member hmember)) []
  obtain ⟨bytes, hwrite, hmembers⟩ := readMembers_write hread rest
  rw [hconcat [], List.nil_append] at hmembers
  rw [hwrite, List.cons_append]
  change (readMembers (appendMember (readWritten depth)) [] (bytes ++ rest)).map Json.object = _
  rw [hmembers, Reading.map_ok]

/-- In a value without parts nothing is put in order. -/
theorem eq_of_ordered_eq {document value : Json} (h : document.ordered = value)
    (hlist : ∀ items, value ≠ .list items) (hobject : ∀ members, value ≠ .object members) :
    document = value := by
  cases document with
  | list items => exact absurd h.symm (hlist _)
  | object members => exact absurd h.symm (hobject _)
  | _ => exact h

theorem readsBack_writtenLeaf {depth : Nat} {value : Json} (hfits : Fits depth value)
    (hfree : FloatFree value) (hlist : ∀ items, value ≠ .list items)
    (hobject : ∀ members, value ≠ .object members) :
    ReadsBack (readWritten depth) (write value) value := by
  intro rest hrest
  have hread := readsBack_write hfits hfree rest hrest
  rw [readValue_eq_map_ordered] at hread
  obtain ⟨document, hdocument, hordered⟩ := Reading.map_eq_ok_iff.mp hread
  rw [hdocument, eq_of_ordered_eq hordered hlist hobject]

/-- A value that fits is its own document. -/
theorem readsBack_written {depth : Nat} {value : Json} (hfits : Fits depth value)
    (hfree : FloatFree value) : ReadsBack (readWritten depth) (write value) value := by
  induction hfree generalizing depth with
  | @list items hitems ih =>
    cases depth with
    | zero => exact hfits.elim
    | succ depth =>
      intro rest _
      obtain ⟨bytes, hwrite, hread⟩ := @readItems_write _ (readWritten depth) id items hitems
        (fun item hitem => ih item hitem (hfits item hitem)) rest
      rw [List.map_id] at hwrite
      rw [hwrite, List.cons_append]
      change (readItems (readWritten depth) (bytes ++ rest)).map Json.list = _
      rw [hread, Reading.map_ok]
  | @object members hmembers ih =>
    cases depth with
    | zero => exact hfits.elim
    | succ depth =>
      exact readsBack_writtenObject fun member hmember =>
        ih member hmember (hfits.2 member hmember)
  | null => exact readsBack_writtenLeaf hfits .null nofun nofun
  | bool value => exact readsBack_writtenLeaf hfits (.bool value) nofun nofun
  | int n => exact readsBack_writtenLeaf hfits (.int n) nofun nofun
  | text text => exact readsBack_writtenLeaf hfits (.text text) nofun nofun

theorem ReadsBack.writes {depth : Nat} {value : Json}
    (h : ReadsBack (readWritten depth) (write value) value) : Writes (write value) value := by
  have hread := h [] endsValue_nil
  rw [List.append_nil] at hread
  exact ⟨depth, by rw [hread]; rfl⟩

end EngineCatalog.Json
