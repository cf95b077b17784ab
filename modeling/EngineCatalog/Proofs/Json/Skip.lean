import EngineCatalog.Proofs.Json.Document

/-!
# What is passed over

A value that is passed over is looked at with less care than one that is read: half a surrogate pair,
bytes that are no UTF-8 and numbers of any size do no harm there. Where the value can be read,
passing over it ends at the same place (`skipValue_of_readWritten`).

Quoted texts and numbers come first. Passing over a value keeps the open brackets in a list, and so
the statement about values is one about going on: where a value is read within some brackets, passing
over it goes on behind it within the same brackets.
-/

namespace EngineCatalog.Json

open Text

/-! ## Quoted texts -/

theorem textBytes_drop (skip : Nat) (bytes : Bytes) :
    textBytes skip bytes = textBytes 0 (bytes.drop skip) := by
  induction bytes generalizing skip with
  | nil => rw [List.drop_nil, textBytes, textBytes]
  | cons b rest ih =>
    cases skip with
    | zero => rfl
    | succ skip => exact ih skip

theorem skipText_drop (skip : Nat) (bytes : Bytes) :
    skipText skip bytes = skipText 0 (bytes.drop skip) := by
  induction bytes generalizing skip with
  | nil => rw [List.drop_nil, skipText, skipText]
  | cons b rest ih =>
    cases skip with
    | zero => rfl
    | succ skip => exact ih skip

/-- An escape by number is one of four digits, or of two times four for a surrogate pair. -/
theorem numberEscape_cases {bytes raw : Bytes} {length : Nat}
    (h : numberEscape bytes = .ok (raw, length)) :
    (∃ n, fourHex bytes = .ok n) ∧ (length = 4 ∨ (length = 10 ∧
      ∃ digits n, bytes.drop 4 = backslashByte :: 0x75 :: digits ∧ fourHex digits = .ok n)) := by
  rw [numberEscape] at h
  cases hfirst : fourHex bytes with
  | error fault =>
    rw [hfirst] at h
    cases h
  | ok n =>
    refine ⟨⟨n, rfl⟩, ?_⟩
    rw [hfirst] at h
    change (if isTrailing n then _ else if !isLeading n then _ else _) = _ at h
    split at h
    · cases h
    · split at h
      · obtain ⟨-, rfl⟩ := Prod.mk.inj (Except.ok.inj h)
        exact .inl rfl
      · split at h
        · cases h
        · rename_i b second hdrop
          split at h
          · cases h
          · rename_i hbackslash
            split at h
            · cases h
            · rename_i u digits
              split at h
              · cases h
              · rename_i hu
                obtain rfl := not_not.mp hbackslash
                obtain rfl := not_not.mp hu
                cases hsecond : fourHex digits with
                | error fault =>
                  rw [hsecond] at h
                  cases h
                | ok second =>
                  rw [hsecond] at h
                  change (if isTrailing second then _ else _) = _ at h
                  split at h
                  · obtain ⟨-, rfl⟩ := Prod.mk.inj (Except.ok.inj h)
                    exact .inr ⟨rfl, digits, second, hdrop, hsecond⟩
                  · cases h

/-- An escape that is passed over is as long as it is when it is read; only that of a surrogate pair
is passed over in two steps. -/
theorem skipEscape_of_readEscape {bytes raw : Bytes} {length : Nat}
    (h : readEscape bytes = .ok (raw, length)) :
    skipEscape bytes = .ok length ∨ (skipEscape bytes = .ok 5 ∧ length = 11 ∧
      ∃ second, bytes.drop 5 = backslashByte :: second ∧ skipEscape second = .ok 5) := by
  have hnumber : ∀ {digits n}, fourHex digits = .ok n → skipEscape (0x75 :: digits) = .ok 5 := by
    intro digits n hdigits
    have hletter : (simpleEscape? 0x75).isSome = false := rfl
    rw [skipEscape, hletter, hdigits]
    rfl
  match bytes with
  | [] => cases h
  | letter :: rest =>
    rw [readEscape] at h
    split at h
    · rename_i b hsimple
      obtain ⟨-, rfl⟩ := Prod.mk.inj (Except.ok.inj h)
      rw [skipEscape, hsimple]
      exact .inl rfl
    · split at h
      · rename_i hletter
        subst hletter
        cases hescape : numberEscape rest with
        | error fault =>
          rw [hescape] at h
          cases h
        | ok result =>
          obtain ⟨bytes, count⟩ := result
          rw [hescape] at h
          obtain ⟨-, rfl⟩ := Prod.mk.inj (Except.ok.inj h)
          obtain ⟨⟨n, hfirst⟩, rfl | ⟨rfl, digits, second, hdrop, hsecond⟩⟩ :=
            numberEscape_cases hescape
          · exact .inl (hnumber hfirst)
          · exact .inr ⟨hnumber hfirst, rfl, 0x75 :: digits, hdrop, hnumber hsecond⟩
      · cases h

/-- A quoted text that is read is passed over up to the same place. -/
theorem skipText_of_textBytes {bytes raw rest : Bytes}
    (h : textBytes 0 bytes = .ok (raw, rest)) : skipText 0 bytes = .ok rest := by
  induction hlength : bytes.length using Nat.strongRecOn generalizing bytes raw with
  | ind length ih =>
    match bytes with
    | [] => cases h
    | b :: more =>
      rw [textBytes] at h
      rw [skipText]
      split at h
      · rename_i hquote
        obtain ⟨-, rfl⟩ := Prod.mk.inj (Except.ok.inj h)
        rw [if_pos hquote]
      · rename_i hquote
        rw [if_neg hquote]
        split at h
        · rename_i hbackslash
          rw [if_pos hbackslash]
          split at h
          · cases h
          · rename_i raw count hescape
            obtain ⟨after, hafter, -⟩ := Reading.map_eq_ok_iff.mp h
            rw [textBytes_drop] at hafter
            have hless : (more.drop count).length < length := by
              rw [← hlength, List.length_drop, List.length_cons]
              omega
            have hrest := ih _ hless hafter rfl
            rcases skipEscape_of_readEscape hescape with hskip | ⟨hskip, rfl, second, hdrop, hsecond⟩
            · simp only [hskip]
              rw [skipText_drop, hrest]
            · -- the other half of the pair is an escape of its own
              have hsix : more.drop 6 = second := by
                have htail := congrArg List.tail hdrop
                rwa [List.tail_drop] at htail
              have hfurther : second.drop 5 = more.drop 11 := by rw [← hsix, List.drop_drop]
              simp only [hskip]
              rw [skipText_drop, hdrop, skipText, if_neg (by decide), if_pos rfl, hsecond]
              simp only
              rw [skipText_drop, hfurther, hrest]
        · rename_i hbackslash
          rw [if_neg hbackslash]
          split at h
          · cases h
          · rename_i hcontrol
            rw [if_neg hcontrol]
            obtain ⟨after, hafter, -⟩ := Reading.map_eq_ok_iff.mp h
            exact ih more.length (by simp [← hlength]) hafter rfl

theorem skipText_of_readText {bytes rest : Bytes} {text : String}
    (h : readText bytes = .ok (text, rest)) : skipText 0 bytes = .ok rest := by
  rw [readText] at h
  split at h
  · cases h
  · rename_i hraw
    split at h
    · obtain ⟨-, rfl⟩ := Prod.mk.inj (Except.ok.inj h)
      exact skipText_of_textBytes hraw
    · cases h

/-! ## Numbers -/

section Number

variable {negative : Bool} {significand : Nat} {power : Int} {bytes rest : Bytes} {number : Number}

/-- Digits that start with one are passed over. -/
theorem splitDigits_of_isDigitByte {b : UInt8} {after : Bytes} (h : isDigitByte b = true) :
    ∃ more, splitDigits (b :: after) = (b :: more, after.dropWhile isDigitByte) := by
  simp [splitDigits, h]

/-- The bytes after a sign, if there is one. -/
def afterSign (bytes : Bytes) : Bytes :=
  match bytes with
  | 0x2b :: rest => rest
  | 0x2d :: rest => rest
  | _ => bytes

/-- The bytes after digits, of which there is one at least. -/
def afterDigits (bytes : Bytes) : Except Fault Bytes :=
  match splitDigits bytes with
  | ([], _) => .error .invalidNumber
  | (_ :: _, rest) => .ok rest

theorem skipPower_eq (bytes : Bytes) : skipPower bytes = afterDigits (afterSign bytes) := rfl

theorem afterSign_of_sign {down : Bool} {digits : Bytes}
    (h : (match bytes with
      | 0x2b :: rest => (false, rest)
      | 0x2d :: rest => (true, rest)
      | _ => (false, bytes)) = (down, digits)) : afterSign bytes = digits := by
  unfold afterSign
  split at h
  · exact (Prod.mk.inj h).2
  · exact (Prod.mk.inj h).2
  · exact (Prod.mk.inj h).2

theorem skipPower_of_readPower (h : readPower negative significand power bytes = .ok (number, rest)) :
    skipPower bytes = .ok rest := by
  unfold readPower at h
  split at h
  rename_i down digits hsign
  have hsame : afterSign bytes = digits := afterSign_of_sign hsign
  rw [skipPower_eq, hsame, afterDigits]
  split at h
  · cases h
  · rename_i b after
    split at h
    · cases h
    · rename_i hdigit
      obtain ⟨more, hsplit⟩ := @splitDigits_of_isDigitByte b after (by simpa using hdigit)
      simp only [hsplit] at h ⊢
      split at h
      · split at h
        · cases h
        · obtain ⟨-, rfl⟩ := Prod.mk.inj (Except.ok.inj h)
          rfl
      · split at h
        · obtain ⟨-, rfl⟩ := Prod.mk.inj (Except.ok.inj h)
          rfl
        · cases h

theorem skipNumberEnd_of_finishFloat
    (h : finishFloat negative significand power bytes = .ok (number, rest)) :
    skipNumberEnd bytes = .ok rest := by
  unfold finishFloat at h
  unfold skipNumberEnd
  dsimp only at h
  split at h
  · exact skipPower_of_readPower h
  · exact skipPower_of_readPower h
  · split at h
    · obtain ⟨-, rfl⟩ := Prod.mk.inj (Except.ok.inj h)
      rfl
    · cases h

/-- A number that is read is passed over up to the same place. -/
theorem skipNumber_of_readNumber (h : readNumber negative bytes = .ok (number, rest)) :
    skipNumber bytes = .ok rest := by
  unfold readNumber at h
  split at h
  · cases h
  · rename_i b after
    rw [skipNumber]
    split at h
    · cases h
    · rename_i hdigit
      rw [if_neg hdigit]
      split at h
      · cases h
      · rename_i hzero
        rw [if_neg hzero]
        dsimp only [splitDigits] at h
        generalize hafter : (b :: after).dropWhile isDigitByte = tail at h ⊢
        split at h
        · rename_i fraction
          unfold readFraction at h
          dsimp only at h
          split at h
          · split at h <;> cases h
          · rename_i digit more hdigits
            obtain ⟨tail, hsplit⟩ : ∃ tail, splitDigits fraction = (digit :: more, tail) :=
              ⟨_, Prod.ext hdigits rfl⟩
            simp only [hsplit] at h ⊢
            exact skipNumberEnd_of_finishFloat h
        · rename_i hpoint
          have hend : skipNumberEnd tail = .ok rest := by
            split at h
            · exact skipNumberEnd_of_finishFloat h
            · rename_i hplain
              obtain ⟨-, rfl⟩ := Prod.mk.inj (Except.ok.inj h)
              unfold skipNumberEnd
              split
              · simp at hplain
              · simp at hplain
              · rfl
          split
          · exact absurd rfl (hpoint _)
          · exact hend

end Number

/-! ## What stands within brackets -/

variable {first : Bool} {bracket : Bracket} {brackets : List Bracket} {bytes inner rest out : Bytes}

theorem skipValueWithin_skipSpace (bound : Nat) (brackets : List Bracket) (bytes : Bytes) :
    skipValueWithin bound brackets (skipSpace bytes) = skipValueWithin bound brackets bytes := by
  cases bound with
  | zero => rw [skipValueWithin, skipValueWithin]
  | succ bound => rw [skipValueWithin, skipValueWithin, skipSpace_skipSpace]

/-- Goes on within a bracket: after it is opened, or after a value in it. -/
def skipNext (first : Bool) (bound : Nat) (bracket : Bracket) (brackets : List Bracket)
    (bytes : Bytes) : Except Fault Bytes :=
  if first then skipOpened bound bracket brackets bytes
  else skipClosers bound (bracket :: brackets) bytes

/-- Another value is to follow within the bracket, and the bytes go on with it: at the front, or
after a comma. -/
inductive Separated (bracket : Bracket) (bytes : Bytes) : Bool → Bytes → Prop where
  /-- nothing stands before it -/
  | first {b : UInt8} {rest : Bytes} (space : skipSpace bytes = b :: rest) (more : b ≠ bracket.close) :
    Separated bracket bytes true (b :: rest)
  /-- a value stands before it -/
  | further {rest : Bytes} (space : skipSpace bytes = commaByte :: rest) :
    Separated bracket bytes false rest

/-- At the closing bracket, passing over goes on behind it. -/
theorem skipNext_close {bound : Nat} (hspace : skipSpace bytes = bracket.close :: rest)
    (h : skipNext first bound bracket brackets bytes = .ok out) :
    ∃ bound, skipClosers bound brackets rest = .ok out := by
  have hcomma : bracket.close ≠ commaByte := by cases bracket <;> decide
  unfold skipNext at h
  cases bound with
  | zero => cases first <;> simp [skipOpened, skipClosers] at h
  | succ bound =>
    cases first with
    | true =>
      simp only [if_true, skipOpened, hspace] at h
      exact ⟨bound, h⟩
    | false =>
      simp only [Bool.false_eq_true, if_false, skipClosers, hspace, if_neg hcomma, if_true] at h
      exact ⟨bound, h⟩

/-- Where another value is to follow, it is passed over. -/
theorem skipNext_separated {bound : Nat} (hnext : Separated bracket bytes first inner)
    (h : skipNext first bound bracket brackets bytes = .ok out) :
    ∃ bound value, skipToValue bracket inner = .ok value ∧
      skipValueWithin bound (bracket :: brackets) value = .ok out := by
  unfold skipNext at h
  cases bound with
  | zero => cases first <;> simp [skipOpened, skipClosers] at h
  | succ bound =>
    cases hnext with
    | first hspace hmore =>
      simp only [if_true, skipOpened, hspace, if_neg hmore] at h
      split at h
      · cases h
      · rename_i value hvalue
        exact ⟨bound, value, hvalue, h⟩
    | further hspace =>
      simp only [Bool.false_eq_true, if_false, skipClosers, hspace, if_true] at h
      split at h
      · cases h
      · rename_i value hvalue
        exact ⟨bound, value, hvalue, h⟩

/-! ## Items and members -/

theorem closes_of_nextItem (h : nextItem first bytes = .ok none) :
    ∃ rest, skipSpace bytes = listEnd :: rest ∧ closeList bytes = .ok rest := by
  unfold nextItem at h
  split at h
  · cases h
  · rename_i b rest hspace
    split at h
    · rename_i hclose
      subst hclose
      refine ⟨rest, hspace, ?_⟩
      simp only [closeList, hspace, if_true]
    · split at h
      · cases h
      · split at h
        · split at h
          · cases h
          · split at h <;> cases h
        · cases h

theorem separated_of_nextItem (h : nextItem first bytes = .ok (some inner)) :
    ∃ value, Separated .list bytes first value ∧ skipSpace value = inner := by
  unfold nextItem at h
  split at h
  · cases h
  · rename_i b rest hspace
    split at h
    · cases h
    · rename_i hclose
      split at h
      · rename_i hfirst
        obtain rfl := Option.some.inj (Except.ok.inj h)
        subst hfirst
        exact ⟨b :: rest, .first hspace hclose, by rw [← hspace, skipSpace_skipSpace]⟩
      · rename_i hfirst
        obtain rfl := Bool.eq_false_iff.mpr hfirst
        split at h
        · rename_i hcomma
          subst hcomma
          refine ⟨rest, .further hspace, ?_⟩
          split at h
          · cases h
          · rename_i hrest
            split at h
            · cases h
            · rw [hrest, Option.some.inj (Except.ok.inj h)]
        · cases h

theorem closes_of_nextName (h : nextName first bytes = .ok (none, rest)) :
    skipSpace bytes = objectEnd :: rest := by
  have hsome : ∀ {bytes : Bytes}, (readText bytes).map some ≠ .ok (none, rest) := by
    intro bytes h
    obtain ⟨_, -, h⟩ := Reading.map_eq_ok_iff.mp h
    cases h
  unfold nextName at h
  split at h
  · cases h
  · rename_i b rest hspace
    split at h
    · rename_i hclose
      obtain ⟨-, rfl⟩ := Prod.mk.inj (Except.ok.inj h)
      rw [hspace, hclose]
    · split at h
      · split at h
        · exact absurd h hsome
        · cases h
      · split at h
        · split at h
          · cases h
          · split at h
            · exact absurd h hsome
            · split at h <;> cases h
        · cases h

/-- The name of a member that is read is passed over, together with the colon. -/
theorem separated_of_nextName {name : String} {value : Bytes}
    (h : nextName first bytes = .ok (some name, rest)) (hcolon : afterColon rest = .ok value) :
    ∃ inner, Separated .object bytes first inner ∧ skipToValue .object inner = .ok value := by
  have hname : ∀ {inner text : Bytes}, skipSpace inner = quoteByte :: text →
      (readText text).map some = .ok (some name, rest) →
      skipToValue .object inner = .ok value := by
    intro inner text hspace h
    obtain ⟨_, htext, -⟩ := Reading.map_eq_ok_iff.mp h
    simp only [skipToValue, hspace, if_true, skipText_of_readText htext, hcolon]
  unfold nextName at h
  split at h
  · cases h
  · rename_i b rest hspace
    split at h
    · cases h
    · rename_i hclose
      split at h
      · rename_i hfirst
        subst hfirst
        split at h
        · rename_i hquote
          subst hquote
          refine ⟨quoteByte :: rest, .first hspace hclose, hname ?_ h⟩
          rw [← hspace, skipSpace_skipSpace]
        · cases h
      · rename_i hfirst
        obtain rfl := Bool.eq_false_iff.mpr hfirst
        split at h
        · rename_i hcomma
          subst hcomma
          split at h
          · cases h
          · rename_i hrest
            split at h
            · rename_i hquote
              subst hquote
              exact ⟨rest, .further hspace, hname hrest h⟩
            · split at h <;> cases h
        · cases h

/-- Where the reader reads a value, passing over it goes on behind that. -/
def Passes (item : Bytes → Reading Json) : Prop :=
  ∀ {bytes value rest}, item bytes = .ok (value, rest) → ∀ {bound brackets out},
    skipValueWithin bound brackets bytes = .ok out →
      ∃ bound, skipClosers bound brackets rest = .ok out

/-- Items that are read are passed over, each where it stands. -/
theorem Passes.items {item : Bytes → Reading Json} (hitem : Passes item) {bound limit : Nat}
    {items : List Json} (hread : readItemsWithin item bound first bytes = .ok (items, rest))
    (h : skipNext first limit .list brackets bytes = .ok out) :
    ∃ limit, skipClosers limit brackets rest = .ok out := by
  induction bound generalizing first bytes limit items with
  | zero => cases hread
  | succ bound ih =>
    rw [readItemsWithin] at hread
    split at hread
    · cases hread
    · rename_i hnext
      obtain ⟨after, hspace, hclose⟩ := closes_of_nextItem hnext
      rw [hclose] at hread
      obtain ⟨-, rfl⟩ := Prod.mk.inj (Except.ok.inj hread)
      exact skipNext_close hspace h
    · rename_i inner hnext
      obtain ⟨value, hseparated, hinner⟩ := separated_of_nextItem hnext
      obtain ⟨limit, _, hvalue, hskip⟩ := skipNext_separated hseparated h
      obtain rfl := Except.ok.inj hvalue
      rw [← skipValueWithin_skipSpace, hinner] at hskip
      split at hread
      · cases hread
      · rename_i x after hx
        obtain ⟨more, hmore, -⟩ := Reading.map_eq_ok_iff.mp hread
        obtain ⟨limit, hskip⟩ := hitem hx hskip
        exact ih hmore hskip

/-- Members that are read are passed over, each where it stands. -/
theorem Passes.members {value : Bytes → Reading Json} (hvalue : Passes value) {bound limit : Nat}
    {before members : List (String × Json)}
    (hread : readMembersWithin (appendMember value) bound first before bytes
      = .ok (members, rest))
    (h : skipNext first limit .object brackets bytes = .ok out) :
    ∃ limit, skipClosers limit brackets rest = .ok out := by
  induction bound generalizing first bytes limit before with
  | zero => cases hread
  | succ bound ih =>
    rw [readMembersWithin] at hread
    split at hread
    · cases hread
    · rename_i hnext
      obtain ⟨-, rfl⟩ := Prod.mk.inj (Except.ok.inj hread)
      exact skipNext_close (closes_of_nextName hnext) h
    · rename_i name inner hnext
      split at hread
      · cases hread
      · rename_i after next hmember
        rw [appendMember] at hmember
        split at hmember
        · cases hmember
        · rename_i bytes hcolon
          obtain ⟨json, hjson, -⟩ := Reading.map_eq_ok_iff.mp hmember
          obtain ⟨_, hseparated, hname⟩ := separated_of_nextName hnext hcolon
          obtain ⟨limit, _, hbytes, hskip⟩ := skipNext_separated hseparated h
          obtain rfl := Except.ok.inj (hname.symm.trans hbytes)
          obtain ⟨limit, hskip⟩ := hvalue hjson hskip
          exact ih hread hskip

/-! ## Values -/

/-- A word ends at the same place whatever it stands for. -/
theorem readWord_other {α β : Type} {value result : α} (other : β) {word : Bytes}
    (h : readWord value word bytes = .ok (result, rest)) :
    readWord other word bytes = .ok (other, rest) := by
  induction word generalizing bytes with
  | nil =>
    obtain ⟨-, rfl⟩ := Prod.mk.inj (Except.ok.inj h)
    rfl
  | cons expected more ih =>
    match bytes with
    | [] => cases h
    | b :: after =>
      rw [readWord] at h ⊢
      split at h
      · rename_i hb
        rw [if_pos hb]
        exact ih h
      · cases h

/-- A value without parts is passed over. -/
theorem skip_of_leaf {depth bound : Nat} {value : Json}
    (hlist : ∀ rest, skipSpace bytes ≠ 0x5b :: rest)
    (hobject : ∀ rest, skipSpace bytes ≠ 0x7b :: rest)
    (hread : readValue depth bytes = .ok (value, rest))
    (h : skipValueWithin bound brackets bytes = .ok out) :
    ∃ bound, skipClosers bound brackets rest = .ok out := by
  have hword : ∀ {value result : Json} {word bytes bound},
      readWord value word bytes = .ok (result, rest) →
      skipped (readWord () word bytes) bound brackets = .ok out →
      ∃ bound, skipClosers bound brackets rest = .ok out := by
    intro value result word bytes bound hword hskip
    rw [readWord_other () hword] at hskip
    cases bound with
    | zero => simp [skipped] at hskip
    | succ bound => exact ⟨bound, hskip⟩
  cases bound with
  | zero => simp [skipValueWithin] at h
  | succ bound =>
    unfold readValue at hread
    unfold skipValueWithin at h
    split at hread
    · cases hread
    · rename_i b inner hspace
      rw [hspace] at h
      dsimp only at h
      split at hread
      · exact hword hread h
      · exact hword hread h
      · exact hword hread h
      · obtain ⟨text, htext, -⟩ := Reading.map_eq_ok_iff.mp hread
        simp only [skipText_of_readText htext] at h
        exact ⟨bound, h⟩
      · obtain ⟨number, hnumber, -⟩ := Reading.map_eq_ok_iff.mp hread
        simp only [skipNumber_of_readNumber hnumber] at h
        exact ⟨bound, h⟩
      · exact absurd hspace (hlist inner)
      · exact absurd hspace (hobject inner)
      · split at hread
        · rename_i hdigit
          obtain ⟨number, hnumber, -⟩ := Reading.map_eq_ok_iff.mp hread
          simp only [skipNumber_of_readNumber hnumber, hdigit, if_true] at h
          exact ⟨bound, h⟩
        · cases hread

/-- A value that is read is passed over. -/
theorem passes_readWritten (depth : Nat) : Passes (readWritten depth) := by
  induction depth with
  | zero =>
    intro bytes value rest hread bound brackets out h
    unfold readWritten at hread
    split at hread
    · cases hread
    · cases hread
    · rename_i hlist hobject
      exact skip_of_leaf hlist hobject hread h
  | succ depth ih =>
    intro bytes value rest hread bound brackets out h
    unfold readWritten at hread
    split at hread
    · rename_i inner hspace
      obtain ⟨items, hitems, -⟩ := Reading.map_eq_ok_iff.mp hread
      cases bound with
      | zero => simp [skipValueWithin] at h
      | succ bound =>
        simp only [skipValueWithin, hspace] at h
        exact @Passes.items true _ _ _ _ _ ih _ _ _ hitems h
    · rename_i inner hspace
      obtain ⟨members, hmembers, -⟩ := Reading.map_eq_ok_iff.mp hread
      cases bound with
      | zero => simp [skipValueWithin] at h
      | succ bound =>
        simp only [skipValueWithin, hspace] at h
        exact @Passes.members true _ _ _ _ _ ih _ _ _ _ hmembers h
    · rename_i hlist hobject
      exact skip_of_leaf hlist hobject hread h

/-- A value that can be read and is passed over, is passed over up to the same place. -/
theorem eq_of_skipValue {depth : Nat} {value : Json} (hskip : skipValue bytes = .ok out)
    (hread : readWritten depth bytes = .ok (value, rest)) : rest = out := by
  obtain ⟨bound, h⟩ := passes_readWritten depth hread hskip
  unfold skipClosers at h
  exact Except.ok.inj h

end EngineCatalog.Json
