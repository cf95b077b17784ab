import EngineCatalog.Json.Record
import EngineCatalog.Proofs.Dict.Lookup
import EngineCatalog.Proofs.Json.Lexical

/-!
# Values are read back

What a reader gives back can be written and read again, and comes out the same, as long as no
floating-point number is in it: of those the last place may differ.

* `Json.Fits` — what a reader can give back: whole numbers fit into 64 bits, the members of objects
  ascend, and no more lists and objects stand within one another than allowed (`fits_of_readValue`).
* `Json.FloatFree` — no floating-point number is in a value.
* `ReadsBack` — from some bytes a reader reads a value, whatever may stand behind them. The written
  form of a value that fits is read back as that value (`readsBack_write`); items and members of any
  kind are read back if each of them is (`readItems_write`, `readMembers_write`).
-/

namespace EngineCatalog.Json

open Text

variable {α σ : Type}

/-! ## What is read back -/

/-- The value holds no floating-point number. -/
inductive FloatFree : Json → Prop where
  /-- the null value -/
  | null : FloatFree .null
  /-- a truth value -/
  | bool (value : Bool) : FloatFree (.bool value)
  /-- a whole number -/
  | int (n : Int) : FloatFree (.number (.int n))
  /-- a text -/
  | text (value : String) : FloatFree (.text value)
  /-- a list without any -/
  | list {items : List Json} (items_free : ∀ item ∈ items, FloatFree item) :
    FloatFree (.list items)
  /-- an object without any -/
  | object {members : List (String × Json)} (members_free : ∀ member ∈ members,
      FloatFree member.2) : FloatFree (.object members)

@[simp] theorem floatFree_null : FloatFree .null := .null

@[simp] theorem floatFree_text (value : String) : FloatFree (.text value) := .text value

@[simp] theorem floatFree_int (n : Int) : FloatFree (.number (.int n)) := .int n

@[simp] theorem floatFree_list {items : List Json} :
    FloatFree (.list items) ↔ ∀ item ∈ items, FloatFree item :=
  ⟨fun h => by cases h; assumption, .list⟩

@[simp] theorem floatFree_object {members : List (String × Json)} :
    FloatFree (.object members) ↔ ∀ member ∈ members, FloatFree member.2 :=
  ⟨fun h => by cases h; assumption, .object⟩

@[simp] theorem floatFree_optionalText (text : Option String) : FloatFree (optionalText text) := by
  cases text <;> simp [optionalText]

/-- The value can be what is read, where so many lists and objects may stand within one another. -/
def Fits : Nat → Json → Prop
  | _, .number (.int n) => FitsWord n
  | 0, .list _ => False
  | 0, .object _ => False
  | depth + 1, .list items => ∀ item ∈ items, Fits depth item
  | depth + 1, .object members =>
    Sorted.Ascending members ∧ ∀ member ∈ members, Fits depth member.2
  | _, _ => True

@[simp] theorem fits_null (depth : Nat) : Fits depth .null := by
  cases depth <;> trivial

@[simp] theorem fits_bool (depth : Nat) (value : Bool) : Fits depth (.bool value) := by
  cases depth <;> trivial

@[simp] theorem fits_text (depth : Nat) (value : String) : Fits depth (.text value) := by
  cases depth <;> trivial

@[simp] theorem fits_float (depth : Nat) (x : Float) : Fits depth (.number (.float x)) := by
  cases depth <;> trivial

theorem fits_int_iff {depth : Nat} {n : Int} : Fits depth (.number (.int n)) ↔ FitsWord n := by
  cases depth <;> exact Iff.rfl

theorem fits_empty (depth : Nat) : Fits (depth + 1) (.object []) :=
  ⟨List.Pairwise.nil, List.forall_mem_nil _⟩

/-- From the bytes the value is read, whatever may stand behind them. -/
def ReadsBack (read : Bytes → Reading α) (bytes : Bytes) (value : α) : Prop :=
  ∀ rest, EndsValue rest → read (bytes ++ rest) = .ok (value, rest)

/-! ## The front of a written value -/

theorem skipSpace_cons {b : UInt8} {rest : Bytes} (h : isSpaceByte b = false) :
    skipSpace (b :: rest) = b :: rest := by
  rw [skipSpace, List.dropWhile_cons, h]
  rfl

/-- The bytes of digits are no others. -/
theorem ne_of_isDigitByte {b other : UInt8} (h : isDigitByte b = true)
    (hother : isDigitByte other = false) : b ≠ other := by
  rintro rfl
  rw [h] at hother
  cases hother

theorem isSpaceByte_of_isDigitByte {b : UInt8} (h : isDigitByte b = true) :
    isSpaceByte b = false := by
  have hne : ∀ other, isDigitByte other = false → b ≠ other := fun _ => ne_of_isDigitByte h
  simp [isSpaceByte, hne 0x20 rfl, hne 0x0a rfl, hne 0x09 rfl, hne 0x0d rfl]

/-- The digits of a number have a first one. -/
theorem exists_asciiBytes_toDigits (n : Nat) :
    ∃ b more, asciiBytes (Nat.toDigits 10 n) = b :: more ∧ isDigitByte b = true := by
  have hne : Nat.toDigits 10 n ≠ [] := Nat.toDigits_ne_nil
  obtain ⟨c, more, hcons⟩ := List.exists_cons_of_ne_nil hne
  have hc : c.isDigit = true :=
    Nat.isDigit_of_mem_toDigits (by decide) (by decide) (hcons ▸ List.mem_cons_self)
  refine ⟨_, _, congrArg asciiBytes hcons, (isDigitByte_ofNat hc).1⟩

theorem exists_write_list (items : List Json) : ∃ bytes, write (.list items) = 0x5b :: bytes := by
  cases items <;> exact ⟨_, by rw [write]⟩

theorem exists_write_object (members : List (String × Json)) :
    ∃ bytes, write (.object members) = 0x7b :: bytes := by
  match members with
  | [] => exact ⟨_, by rw [write]⟩
  | (name, value) :: more => exact ⟨_, by rw [write]⟩

/-- A written value starts with neither white space nor a closing bracket. -/
theorem exists_write_eq_cons {value : Json} (h : FloatFree value) :
    ∃ b more, write value = b :: more ∧ isSpaceByte b = false ∧ b ≠ listEnd := by
  cases h with
  | null => exact ⟨_, _, rfl, by decide, by decide⟩
  | bool value => cases value <;> exact ⟨_, _, rfl, by decide, by decide⟩
  | int n =>
    rw [write, writeNumber, writeInt]
    by_cases hneg : n < 0
    · rw [if_pos hneg]
      exact ⟨_, _, rfl, by decide, by decide⟩
    · rw [if_neg hneg]
      obtain ⟨b, more, hcons, hb⟩ := exists_asciiBytes_toDigits n.natAbs
      exact ⟨b, more, hcons, isSpaceByte_of_isDigitByte hb, ne_of_isDigitByte hb (by decide)⟩
  | text value => exact ⟨_, _, rfl, by decide, by decide⟩
  | @list items _ =>
    obtain ⟨bytes, hwrite⟩ := exists_write_list items
    exact ⟨_, bytes, hwrite, by decide, by decide⟩
  | @object members _ =>
    obtain ⟨bytes, hwrite⟩ := exists_write_object members
    exact ⟨_, bytes, hwrite, by decide, by decide⟩

/-! ## Lists -/

theorem nextItem_first {b : UInt8} {rest : Bytes} (hspace : isSpaceByte b = false)
    (hend : b ≠ listEnd) : nextItem true (b :: rest) = .ok (some (b :: rest)) := by
  rw [nextItem, skipSpace_cons hspace]
  simp [hend]

theorem nextItem_further {b : UInt8} {rest : Bytes} (hspace : isSpaceByte b = false)
    (hend : b ≠ listEnd) : nextItem false (commaByte :: b :: rest) = .ok (some (b :: rest)) := by
  have hcomma : commaByte ≠ listEnd := by decide
  have hcommaSpace : isSpaceByte commaByte = false := rfl
  rw [nextItem, skipSpace_cons hcommaSpace]
  simp [hcomma, skipSpace_cons hspace, hend]

theorem endsValue_writeItems (items : List Json) (rest : Bytes) :
    EndsValue (writeItems items ++ rest) := by
  cases items with
  | nil => exact endsValue_cons (.inr (.inl rfl))
  | cons item more => exact endsValue_cons (.inl rfl)

theorem length_le_writeItems (items : List Json) : items.length ≤ (writeItems items).length := by
  induction items with
  | nil => exact Nat.zero_le _
  | cons item more ih =>
    rw [writeItems, List.length_cons, List.length_cons, List.length_append]
    omega

section Items

variable {item : Bytes → Reading α} {toJson : α → Json}

/-- The further items of a list are read back if each of them is. -/
theorem readItemsWithin_writeItems {items : List α} (hfree : ∀ x ∈ items, FloatFree (toJson x))
    (hitem : ∀ x ∈ items, ReadsBack item (write (toJson x)) x) {bound : Nat}
    (hbound : items.length < bound) (rest : Bytes) :
    readItemsWithin item bound false (writeItems (items.map toJson) ++ rest)
      = .ok (items, rest) := by
  induction items generalizing bound with
  | nil =>
    obtain ⟨bound, rfl⟩ := Nat.exists_eq_succ_of_ne_zero (Nat.ne_of_gt hbound)
    rfl
  | cons x more ih =>
    obtain ⟨bound, rfl⟩ := Nat.exists_eq_succ_of_ne_zero (Nat.ne_zero_of_lt hbound)
    obtain ⟨hx, hmore⟩ := List.forall_mem_cons.mp hfree
    obtain ⟨hreads, hreadsMore⟩ := List.forall_mem_cons.mp hitem
    obtain ⟨b, front, hwrite, hspace, hend⟩ := exists_write_eq_cons hx
    have hnext : nextItem false (writeItems ((x :: more).map toJson) ++ rest)
        = .ok (some (write (toJson x) ++ (writeItems (more.map toJson) ++ rest))) := by
      rw [List.map_cons, writeItems, List.cons_append, List.append_assoc, hwrite, List.cons_append]
      exact nextItem_further hspace hend
    have hrest := ih hmore hreadsMore (Nat.lt_of_succ_lt_succ hbound)
    rw [readItemsWithin, hnext]
    simp only [hreads _ (endsValue_writeItems _ _), hrest, Reading.map_ok]

/-- A list is read back if each of its items is. -/
theorem readItems_write {items : List α} (hfree : ∀ x ∈ items, FloatFree (toJson x))
    (hitem : ∀ x ∈ items, ReadsBack item (write (toJson x)) x) (rest : Bytes) :
    ∃ bytes, write (.list (items.map toJson)) = 0x5b :: bytes ∧
      readItems item (bytes ++ rest) = .ok (items, rest) := by
  cases items with
  | nil => exact ⟨_, by rw [List.map_nil, write], rfl⟩
  | cons x more =>
    refine ⟨_, by rw [List.map_cons, write], ?_⟩
    obtain ⟨hx, hmore⟩ := List.forall_mem_cons.mp hfree
    obtain ⟨hreads, hreadsMore⟩ := List.forall_mem_cons.mp hitem
    obtain ⟨b, front, hwrite, hspace, hend⟩ := exists_write_eq_cons hx
    have hnext : nextItem true (write (toJson x) ++ (writeItems (more.map toJson) ++ rest))
        = .ok (some (write (toJson x) ++ (writeItems (more.map toJson) ++ rest))) := by
      rw [hwrite, List.cons_append]
      exact nextItem_first hspace hend
    have hlength := length_le_writeItems (more.map toJson)
    rw [List.length_map] at hlength
    rw [readItems, List.append_assoc, readItemsWithin, hnext]
    simp only [hreads _ (endsValue_writeItems _ _)]
    rw [readItemsWithin_writeItems hmore hreadsMore, Reading.map_ok]
    rw [hwrite]
    simp only [List.length_append, List.length_cons]
    omega

end Items

/-! ## Objects -/

theorem endsValue_writeMembers (members : List (String × Json)) (rest : Bytes) :
    EndsValue (writeMembers members ++ rest) := by
  match members with
  | [] => exact endsValue_cons (.inr (.inr rfl))
  | (name, value) :: more => exact endsValue_cons (.inl rfl)

theorem length_le_writeMembers (members : List (String × Json)) :
    members.length ≤ (writeMembers members).length := by
  induction members with
  | nil => exact Nat.zero_le _
  | cons member more ih =>
    obtain ⟨name, value⟩ := member
    simp only [writeMembers, List.length_cons, List.length_append]
    omega

theorem nextName_first (name : String) (rest : Bytes) :
    nextName true (writeText name ++ rest) = .ok (some name, rest) := by
  have hquote : quoteByte ≠ objectEnd := by decide
  have hspace : isSpaceByte quoteByte = false := rfl
  change nextName true (quoteByte :: (quotedTail name.toList ++ rest)) = _
  rw [nextName, skipSpace_cons hspace]
  simp [hquote, readText_quotedTail]

theorem nextName_further (name : String) (rest : Bytes) :
    nextName false (commaByte :: (writeText name ++ rest)) = .ok (some name, rest) := by
  have hcomma : commaByte ≠ objectEnd := by decide
  have hcommaSpace : isSpaceByte commaByte = false := rfl
  have hspace : isSpaceByte quoteByte = false := rfl
  change nextName false (commaByte :: quoteByte :: (quotedTail name.toList ++ rest)) = _
  rw [nextName, skipSpace_cons hcommaSpace]
  simp [hcomma, skipSpace_cons hspace, readText_quotedTail]

section Members

variable {member : σ → String → Bytes → Reading σ} {state mid after : σ}

/-- Written members are read one after the other, from one state to another. -/
inductive MembersRead (member : σ → String → Bytes → Reading σ) :
    σ → List (String × Json) → σ → Prop where
  /-- no member -/
  | nil (state : σ) : MembersRead member state [] state
  /-- a member and further ones -/
  | cons {state mid after : σ} {entry : String × Json} {more : List (String × Json)}
    (head : ReadsBack (member state entry.1) (0x3a :: write entry.2) mid)
    (tail : MembersRead member mid more after) : MembersRead member state (entry :: more) after

/-- Members that are read from every state, each with its own change, are read in any number. -/
theorem MembersRead.foldl {put : σ → String × Json → σ} {members : List (String × Json)}
    (h : ∀ entry ∈ members, ∀ state,
      ReadsBack (member state entry.1) (0x3a :: write entry.2) (put state entry)) (state : σ) :
    MembersRead member state members (members.foldl put state) := by
  induction members generalizing state with
  | nil => exact .nil state
  | cons entry more ih =>
    obtain ⟨hentry, hmore⟩ := List.forall_mem_cons.mp h
    exact .cons (hentry state) (ih hmore (put state entry))

/-- The further members of an object are read back. -/
theorem readMembersWithin_writeMembers {members : List (String × Json)}
    (h : MembersRead member state members after) {bound : Nat} (hbound : members.length < bound)
    (rest : Bytes) :
    readMembersWithin member bound false state (writeMembers members ++ rest)
      = .ok (after, rest) := by
  induction h generalizing bound with
  | nil state =>
    obtain ⟨bound, rfl⟩ := Nat.exists_eq_succ_of_ne_zero (Nat.ne_of_gt hbound)
    rfl
  | @cons state mid after entry more hhead _ ih =>
    obtain ⟨bound, rfl⟩ := Nat.exists_eq_succ_of_ne_zero (Nat.ne_zero_of_lt hbound)
    have hnext : nextName false (writeMembers (entry :: more) ++ rest)
        = .ok (some entry.1, (0x3a :: write entry.2) ++ (writeMembers more ++ rest)) := by
      rw [writeMembers, List.cons_append, List.append_assoc]
      refine (nextName_further _ _).trans ?_
      simp
    rw [readMembersWithin, hnext]
    simp only [hhead _ (endsValue_writeMembers _ _), ih (Nat.lt_of_succ_lt_succ hbound)]

/-- An object is read back if its members are. -/
theorem readMembers_write {members : List (String × Json)}
    (h : MembersRead member state members after) (rest : Bytes) :
    ∃ bytes, write (.object members) = 0x7b :: bytes ∧
      readMembers member state (bytes ++ rest) = .ok (after, rest) := by
  cases h with
  | nil => exact ⟨_, by rw [write], rfl⟩
  | @cons state mid after entry more hhead htail =>
    obtain ⟨name, value⟩ := entry
    refine ⟨_, by rw [write], ?_⟩
    have hnext : nextName true (writeText name ++ 0x3a :: (write value ++ writeMembers more) ++ rest)
        = .ok (some name, (0x3a :: write value) ++ (writeMembers more ++ rest)) := by
      rw [List.append_assoc, nextName_first]
      simp
    have hlength := length_le_writeMembers more
    rw [readMembers, readMembersWithin, hnext]
    simp only [hhead _ (endsValue_writeMembers _ _)]
    rw [readMembersWithin_writeMembers htail]
    simp only [List.length_append, List.length_cons]
    omega

end Members

/-! ## Any value -/

/-! A value is told by its first byte. -/

theorem readValue_quote (depth : Nat) (rest : Bytes) :
    readValue depth (0x22 :: rest) = (readText rest).map Json.text := by
  cases depth <;> rfl

theorem readValue_minus (depth : Nat) (rest : Bytes) :
    readValue depth (0x2d :: rest) = (readNumber true rest).map Json.number := by
  cases depth <;> rfl

theorem readValue_list (depth : Nat) (rest : Bytes) :
    readValue (depth + 1) (0x5b :: rest) = (readItems (readValue depth) rest).map Json.list := rfl

theorem readValue_object (depth : Nat) (rest : Bytes) :
    readValue (depth + 1) (0x7b :: rest)
      = (readMembers (putMember (readValue depth)) [] rest).map Json.object := rfl

/-- A value that starts with a digit is a number. -/
theorem readValue_digit {depth : Nat} {b : UInt8} {rest : Bytes} (h : isDigitByte b = true) :
    readValue depth (b :: rest) = (readNumber false (b :: rest)).map Json.number := by
  have hne : ∀ other, isDigitByte other = false → b ≠ other := fun _ => ne_of_isDigitByte h
  unfold readValue
  rw [skipSpace_cons (isSpaceByte_of_isDigitByte h)]
  dsimp only
  split
  · exact absurd rfl (hne 0x6e rfl)
  · exact absurd rfl (hne 0x74 rfl)
  · exact absurd rfl (hne 0x66 rfl)
  · exact absurd rfl (hne 0x22 rfl)
  · exact absurd rfl (hne 0x2d rfl)
  · exact absurd rfl (hne 0x5b rfl)
  · exact absurd rfl (hne 0x7b rfl)
  · rw [if_pos h]

theorem readsBack_number {n : Int} (h : FitsWord n) (depth : Nat) :
    ReadsBack (readValue depth) (write (.number (.int n))) (.number (.int n)) := by
  intro rest hrest
  have hwhole := wholeNumber_natAbs h
  have habs : n.natAbs < Nat.pow 2 64 := by
    have h63 : Nat.pow 2 63 = 9223372036854775808 := rfl
    have h64 : Nat.pow 2 64 = 18446744073709551616 := rfl
    rw [FitsWord, h63, h64] at h
    omega
  rw [write, writeNumber, writeInt]
  by_cases hneg : n < 0
  · rw [decide_eq_true hneg] at hwhole
    rw [if_pos hneg]
    rw [List.cons_append, readValue_minus, readNumber_toDigits true habs hrest, hwhole,
      Reading.map_ok]
  · rw [decide_eq_false hneg] at hwhole
    rw [if_neg hneg]
    obtain ⟨b, more, hcons, hb⟩ := exists_asciiBytes_toDigits n.natAbs
    have hread := readNumber_toDigits false habs hrest
    rw [hcons, List.cons_append] at hread ⊢
    rw [readValue_digit hb, hread, hwhole, Reading.map_ok]

/-- The value of a member is put among the members before it. -/
theorem readsBack_putMember {read : Bytes → Reading Json} {entry : String × Json}
    (h : ReadsBack read (write entry.2) entry.2) (members : List (String × Json)) :
    ReadsBack (putMember read members entry.1) (0x3a :: write entry.2)
      (Sorted.insert entry.1 entry.2 members) := by
  intro rest hrest
  have hcolon : afterColon (0x3a :: (write entry.2 ++ rest)) = .ok (write entry.2 ++ rest) := rfl
  rw [List.cons_append, putMember, hcolon]
  simp only [h rest hrest, Reading.map_ok]

/-- **A value that fits is read back.** What can be read, and holds no floating-point number, is read
back from its written form, whatever may stand behind it. -/
theorem readsBack_write {depth : Nat} {value : Json} (hfits : Fits depth value)
    (hfree : FloatFree value) : ReadsBack (readValue depth) (write value) value := by
  induction hfree generalizing depth with
  | null => cases depth <;> exact fun _ _ => rfl
  | bool value => cases value <;> cases depth <;> exact fun _ _ => rfl
  | int n => exact readsBack_number (fits_int_iff.mp hfits) depth
  | text text =>
    intro rest _
    rw [write, writeText, List.cons_append, readValue_quote, readText_quotedTail, Reading.map_ok]
  | @list items hitems ih =>
    cases depth with
    | zero => exact hfits.elim
    | succ depth =>
      intro rest _
      obtain ⟨bytes, hwrite, hread⟩ := @readItems_write _ (readValue depth) id items hitems
        (fun item hitem => ih item hitem (hfits item hitem)) rest
      rw [List.map_id] at hwrite
      rw [hwrite, List.cons_append, readValue_list, hread, Reading.map_ok]
  | @object members hmembers ih =>
    cases depth with
    | zero => exact hfits.elim
    | succ depth =>
      intro rest _
      obtain ⟨hascending, hvalues⟩ := hfits
      have hread : MembersRead (putMember (readValue depth)) [] members _ := .foldl
        (fun entry hentry => readsBack_putMember (ih entry hentry (hvalues entry hentry))) []
      obtain ⟨bytes, hwrite, hread⟩ := readMembers_write hread rest
      have hsame := @Sorted.foldl_insert _ [] members hascending
      rw [hwrite, List.cons_append, readValue_object, hread, Reading.map_ok, hsame, List.nil_append]

/-! ## What is read fits -/

/-- What holds of every item that is read, holds of all items of a list. -/
theorem forall_of_readItemsWithin {item : Bytes → Reading α} {P : α → Prop}
    (hitem : ∀ {bytes x rest}, item bytes = .ok (x, rest) → P x) {bound : Nat} {first : Bool}
    {bytes rest : Bytes} {items : List α}
    (h : readItemsWithin item bound first bytes = .ok (items, rest)) : ∀ x ∈ items, P x := by
  induction bound generalizing first bytes items with
  | zero => cases h
  | succ bound ih =>
    rw [readItemsWithin] at h
    split at h
    · cases h
    · -- the list ends here
      split at h
      · cases h
      · obtain ⟨rfl, -⟩ := Prod.mk.inj (Except.ok.inj h)
        exact List.forall_mem_nil _
    · split at h
      · cases h
      · rename_i hx
        obtain ⟨more, hmore, rfl⟩ := Reading.map_eq_ok_iff.mp h
        exact List.forall_mem_cons.mpr ⟨hitem hx, ih hmore⟩

/-- What every member keeps, the members of an object keep. -/
theorem of_readMembersWithin {member : σ → String → Bytes → Reading σ} {P : σ → Prop}
    (hmember : ∀ {state name bytes after rest}, P state →
      member state name bytes = .ok (after, rest) → P after) {bound : Nat} {first : Bool}
    {state after : σ} {bytes rest : Bytes} (hstate : P state)
    (h : readMembersWithin member bound first state bytes = .ok (after, rest)) : P after := by
  induction bound generalizing first state bytes with
  | zero => cases h
  | succ bound ih =>
    rw [readMembersWithin] at h
    split at h
    · cases h
    · obtain ⟨rfl, -⟩ := Prod.mk.inj (Except.ok.inj h)
      exact hstate
    · split at h
      · cases h
      · rename_i hread
        exact ih (hmember hstate hread) h

/-- A value that fits is put among others that fit. -/
theorem fits_insert {depth : Nat} {members : List (String × Json)} {name : String} {value : Json}
    (hmembers : Fits (depth + 1) (.object members)) (hvalue : Fits depth value) :
    Fits (depth + 1) (.object (Sorted.insert name value members)) := by
  obtain ⟨hascending, hvalues⟩ := hmembers
  have hinsert : Sorted.Ascending (Sorted.insert name value members) :=
    Sorted.ascending_insert hascending
  refine ⟨hinsert, fun entry hentry => ?_⟩
  have hfind := Sorted.find?_eq_some_of_mem hinsert hentry
  rw [Sorted.find?_insert] at hfind
  split at hfind
  · exact Option.some.inj hfind ▸ hvalue
  · exact hvalues entry (Sorted.mem_of_find?_eq_some hfind)

theorem fits_putMember {read : Bytes → Reading Json} {depth : Nat}
    (hread : ∀ {bytes value rest}, read bytes = .ok (value, rest) → Fits depth value)
    {before after : List (String × Json)} {name : String} {bytes rest : Bytes}
    (hbefore : Fits (depth + 1) (.object before))
    (h : putMember read before name bytes = .ok (after, rest)) :
    Fits (depth + 1) (.object after) := by
  rw [putMember] at h
  split at h
  · cases h
  · obtain ⟨value, hvalue, rfl⟩ := Reading.map_eq_ok_iff.mp h
    exact fits_insert hbefore (hread hvalue)

theorem eq_of_readWord {value result : α} {word bytes rest : Bytes}
    (h : readWord value word bytes = .ok (result, rest)) : result = value := by
  induction word generalizing bytes with
  | nil =>
    obtain ⟨rfl, -⟩ := Prod.mk.inj (Except.ok.inj h)
    rfl
  | cons expected more ih =>
    cases bytes with
    | nil => cases h
    | cons b bytes =>
      rw [readWord] at h
      split at h
      · exact ih h
      · cases h

theorem fits_of_readNumber {depth : Nat} {negative : Bool} {bytes rest : Bytes} {value : Json}
    (h : (readNumber negative bytes).map Json.number = .ok (value, rest)) : Fits depth value := by
  obtain ⟨number, hnumber, rfl⟩ := Reading.map_eq_ok_iff.mp h
  cases number with
  | int n => exact fits_int_iff.mpr (fitsWord_of_readNumber hnumber)
  | float x => simp

/-- What is read fits. -/
theorem fits_of_readValue {depth : Nat} {bytes rest : Bytes} {value : Json}
    (h : readValue depth bytes = .ok (value, rest)) : Fits depth value := by
  induction depth using Nat.strongRecOn generalizing bytes rest value with
  | ind depth ih =>
    unfold readValue at h
    split at h
    · cases h
    · split at h
      · simp [eq_of_readWord h]
      · simp [eq_of_readWord h]
      · simp [eq_of_readWord h]
      · obtain ⟨text, -, rfl⟩ := Reading.map_eq_ok_iff.mp h
        simp
      · exact fits_of_readNumber h
      · split at h
        · cases h
        · obtain ⟨items, hitems, rfl⟩ := Reading.map_eq_ok_iff.mp h
          exact forall_of_readItemsWithin (ih _ (Nat.lt_succ_self _)) hitems
      · split at h
        · cases h
        · rename_i depth
          obtain ⟨members, hmembers, rfl⟩ := Reading.map_eq_ok_iff.mp h
          exact @of_readMembersWithin _ _ (fun members => Fits (depth + 1) (.object members))
            (fits_putMember (ih _ (Nat.lt_succ_self _))) _ _ _ _ _ _ (fits_empty depth) hmembers
      · split at h
        · exact fits_of_readNumber h
        · cases h

end EngineCatalog.Json
