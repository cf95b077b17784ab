import EngineCatalog.Proofs.Remote.Transaction

/-!
# Addresses of key requests

An address carries a key as it is, and behind it what the request asks for (`KeyRequest.query`). A
key can end with the same characters: then a request for this key alone has the address of one that
asks for more (`KeyRequest.Mimics`).

* `append_mark_inj` — nothing that is asked for has a question mark but its first character, so it
  can be split off the address of a request that asks for something.
* `KeyRequest.query_injective` — what is asked for can be read off its text.
* `KeyRequest.eq_of_url_eq` — addresses of keys without question marks tell requests apart.
* `url_eq_iff` — which requests have one address, and so which deletions and reads of one
  key are those of all keys that start with another.
-/

namespace EngineCatalog.KeyValue.Remote

/-! ## Splitting -/

/-- The last place of a mark is found again. -/
theorem append_mark_inj {mark : Char} {p q x y : List Char} (hx : mark ∉ x) (hy : mark ∉ y)
    (h : p ++ mark :: x = q ++ mark :: y) : p = q ∧ x = y := by
  induction p generalizing q with
  | nil =>
    cases q with
    | nil => exact ⟨rfl, (List.cons.inj h).2⟩
    | cons c q =>
      rw [(List.cons.inj h).2] at hx
      exact absurd (List.mem_append_right q List.mem_cons_self) hx
  | cons b p ih =>
    cases q with
    | nil =>
      rw [← (List.cons.inj h).2] at hy
      exact absurd (List.mem_append_right p List.mem_cons_self) hy
    | cons c q =>
      obtain ⟨hhead, htail⟩ := List.cons.inj h
      obtain ⟨hp, hend⟩ := ih htail
      exact ⟨by rw [hhead, hp], hend⟩

/-- A number is read off a text that goes on with something other than a digit. -/
theorem toDigits_append_inj {m n : Nat} {c d : Char} {rest other : List Char}
    (hc : c.isDigit = false) (hd : d.isDigit = false)
    (h : Nat.toDigits 10 m ++ c :: rest = Nat.toDigits 10 n ++ d :: other) :
    m = n ∧ c :: rest = d :: other := by
  have hdigits : ∀ n, ∀ c ∈ Nat.toDigits 10 n, c.isDigit = true := fun n c hc =>
    Nat.isDigit_of_mem_toDigits (by decide) (by decide) hc
  have htake : ∀ {n c rest}, c.isDigit = false →
      (Nat.toDigits 10 n ++ c :: rest).takeWhile Char.isDigit = Nat.toDigits 10 n := by
    intro n c rest hc
    rw [List.takeWhile_append_of_pos (hdigits n), List.takeWhile_cons, hc]
    simp
  have hsame : Nat.toDigits 10 m = Nat.toDigits 10 n := by
    rw [← htake hc, h, htake hd]
  have hnumber := congrArg (Nat.ofDigitChars 10 · 0) hsame
  simp only [Nat.ofDigitChars_toDigits (by decide : 1 < 10) (by decide)] at hnumber
  rw [hsame] at h
  exact ⟨hnumber, List.append_cancel_left h⟩

/-! ## Waits -/

theorem millis_ofMillis (millis : Nat) : (Span.ofMillis millis).millis = millis :=
  Nat.mul_div_cancel _ (by decide)

theorem seconds_ofMillis (millis : Nat) : (Span.ofMillis millis).seconds = millis / 1000 :=
  Nat.mul_div_mul_right millis 1000 (by decide)

theorem toList_waitText (millis : Nat) :
    (Span.ofMillis millis).waitText.toList
      = if millis % 1000 = 0 then Nat.toDigits 10 (millis / 1000) ++ ['s']
        else Nat.toDigits 10 millis ++ ['m', 's'] := by
  have htext : ∀ text : String, toString text = text := fun _ => rfl
  rw [Span.waitText, millis_ofMillis, seconds_ofMillis]
  split <;> simp [htext]

/-- Whole milliseconds are read off both forms of a waiting time. -/
theorem waitText_injective {m n : Nat}
    (h : (Span.ofMillis m).waitText = (Span.ofMillis n).waitText) : m = n := by
  rw [← String.toList_inj, toList_waitText, toList_waitText] at h
  split at h <;> split at h <;> rename_i hm hn <;>
    obtain ⟨hnumber, hunit⟩ := toDigits_append_inj (by decide) (by decide) h
  · omega
  · exact absurd hunit (by decide)
  · exact absurd hunit (by decide)
  · exact hnumber

/-! ## Requests -/

/-- A key as callers give it, with the slash it starts with. -/
abbrev AbsoluteKey : Type := { key : String // startsWith "/" key = true }

/-- What a request for a key can ask for: the key or all keys that start with it, and a wait for
what follows an index, so many milliseconds long. -/
@[ext] structure KeyRequest where
  /-- the key -/
  key : AbsoluteKey
  /-- all keys that start with it -/
  all : Bool
  /-- the index that is known, and the milliseconds to wait -/
  wait : Option (Nat × Nat)
  deriving DecidableEq

namespace KeyRequest

/-- The wait of a request. -/
def span (request : KeyRequest) : Option Wait :=
  request.wait.map fun wait => (wait.1, Span.ofMillis wait.2)

/-- The address of a request. -/
def url (remote : Remote) (request : KeyRequest) : String :=
  remote.keyUrl request.key.val request.all request.span

/-- What stands behind the key in the address of a request. -/
def query (request : KeyRequest) : String :=
  match parameters request.all request.span with
  | [] => ""
  | asked => "?" ++ "&".intercalate asked

/-- A request for a single key has the address of another, as its key goes on with the characters
that the other asks for more with. -/
structure Mimics (request other : KeyRequest) : Prop where
  /-- the key alone is asked for -/
  single : request.all = false
  /-- at once -/
  atOnce : request.wait = none
  /-- the other asks for more -/
  asks : other.all = true ∨ other.wait.isSome
  /-- the key goes on with what the other asks for -/
  key : request.key.val = other.key.val ++ "?" ++ "&".intercalate (parameters other.all other.span)

/-- An address ends with the key and what is asked for. -/
theorem url_eq (remote : Remote) (request : KeyRequest) :
    request.url remote
      = remote.address ++ "/v1/kv/" ++ bareKey request.key.val ++ request.query := by
  unfold url keyUrl query
  cases parameters request.all request.span <;> simp [String.append_assoc]

/-- Requests have one address if what stands behind the base address is the same. -/
theorem url_eq_iff_append {remote : Remote} {a b : KeyRequest} :
    a.url remote = b.url remote ↔
      a.key.val.toList ++ a.query.toList = b.key.val.toList ++ b.query.toList := by
  have hslash : ∀ request : KeyRequest,
      request.key.val.toList = '/' :: (bareKey request.key.val).toList := fun request => by
    conv_lhs => rw [← Step.slash_bareKey request.key.property]
    simp
  rw [url_eq, url_eq, hslash a, hslash b, ← String.toList_inj]
  simp [String.toList_append]

/-- The characters that ask for all keys. -/
def allChars : List Char := ['r', 'e', 'c', 'u', 'r', 's', 'e', '=', 't', 'r', 'u', 'e']

/-- The characters that ask for a wait. -/
def waitChars (since millis : Nat) : List Char :=
  ['i', 'n', 'd', 'e', 'x', '='] ++ (Nat.toDigits 10 since ++
    '&' :: (['w', 'a', 'i', 't', '='] ++ (Span.ofMillis millis).waitText.toList))

theorem toList_query_atOnce (key : AbsoluteKey) (all : Bool) :
    (KeyRequest.mk key all none).query.toList = if all then '?' :: allChars else [] := by
  cases all <;> simp [query, span, parameters, allChars]

theorem toList_query_waiting (key : AbsoluteKey) (all : Bool) (since millis : Nat) :
    (KeyRequest.mk key all (some (since, millis))).query.toList
      = '?' :: ((if all then allChars ++ ['&'] else []) ++ waitChars since millis) := by
  have htext : ∀ text : String, toString text = text := fun _ => rfl
  cases all <;> simp [query, span, parameters, allChars, waitChars, htext]

/-- No question mark is in what asks for a wait. -/
theorem mark_notMem_waitChars (since millis : Nat) : '?' ∉ waitChars since millis := by
  have hdigits : ∀ n, '?' ∉ Nat.toDigits 10 n := fun n hmem =>
    absurd (Nat.isDigit_of_mem_toDigits (by decide) (by decide) hmem) (by decide)
  have hwait : '?' ∉ (Span.ofMillis millis).waitText.toList := by
    rw [toList_waitText]
    split <;> simp [hdigits]
  simp [waitChars, hdigits, hwait]

theorem waitChars_injective {since millis other millis' : Nat}
    (h : waitChars since millis = waitChars other millis') :
    since = other ∧ millis = millis' := by
  obtain ⟨hsince, hwait⟩ := toDigits_append_inj (by decide) (by decide)
    (List.append_cancel_left h)
  have hchars := List.append_cancel_left (List.cons.inj hwait).2
  exact ⟨hsince, waitText_injective (String.toList_inj.mp hchars)⟩

/-- Nothing is asked for beside the key, or what is starts with a question mark and has no other. -/
theorem query_cases (request : KeyRequest) :
    (request.all = false ∧ request.wait = none ∧ request.query.toList = []) ∨
    ((request.all = true ∨ request.wait.isSome) ∧
      ∃ asked, request.query.toList = '?' :: asked ∧ '?' ∉ asked) := by
  obtain ⟨key, all, wait⟩ := request
  cases wait with
  | none =>
    cases all with
    | false => exact .inl ⟨rfl, rfl, rfl⟩
    | true => exact .inr ⟨.inl rfl, _, toList_query_atOnce key true, by decide⟩
  | some wait =>
    refine .inr ⟨.inr rfl, _, toList_query_waiting key all wait.1 wait.2, ?_⟩
    cases all <;> simp [allChars, mark_notMem_waitChars]

/-- That all keys are asked for shows in front of whatever else is asked for. -/
theorem query_all_ne (key other : AbsoluteKey) (wait wait' : Option (Nat × Nat)) :
    (KeyRequest.mk key true wait).query.toList ≠ (KeyRequest.mk other false wait').query.toList := by
  rcases wait with _ | ⟨since, millis⟩ <;> rcases wait' with _ | ⟨since', millis'⟩ <;>
    simp only [toList_query_atOnce, toList_query_waiting] <;>
    simp [allChars, waitChars]

/-- A wait that is asked for shows behind whatever else is asked for. -/
theorem query_atOnce_ne (key other : AbsoluteKey) (all : Bool) (since millis : Nat) :
    (KeyRequest.mk key all none).query.toList
      ≠ (KeyRequest.mk other all (some (since, millis))).query.toList := by
  rw [toList_query_atOnce, toList_query_waiting]
  cases all <;> simp

/-- What is asked for can be read off its text. -/
theorem query_injective {a b : KeyRequest} (h : a.query.toList = b.query.toList) :
    a.all = b.all ∧ a.wait = b.wait := by
  obtain ⟨key, all, wait⟩ := a
  obtain ⟨other, all', wait'⟩ := b
  have hall : all = all' := by
    cases all <;> cases all'
    · rfl
    · exact absurd h.symm (query_all_ne other key wait' wait)
    · exact absurd h (query_all_ne key other wait wait')
    · rfl
  subst hall
  refine ⟨rfl, ?_⟩
  rcases wait with _ | ⟨since, millis⟩ <;> rcases wait' with _ | ⟨since', millis'⟩
  · rfl
  · exact absurd h (query_atOnce_ne key other all since' millis')
  · exact absurd h.symm (query_atOnce_ne other key all since millis)
  · rw [toList_query_waiting, toList_query_waiting] at h
    obtain ⟨rfl, rfl⟩ := waitChars_injective (List.append_cancel_left (List.cons.inj h).2)
    rfl

/-! ## Shared addresses -/

theorem query_eq_empty {request : KeyRequest} (hsingle : request.all = false)
    (hwait : request.wait = none) : request.query = "" := by
  rw [query, span, hsingle, hwait]
  rfl

theorem query_eq_mark {request : KeyRequest} (h : request.all = true ∨ request.wait.isSome) :
    request.query = "?" ++ "&".intercalate (parameters request.all request.span) := by
  obtain ⟨key, all, wait⟩ := request
  cases all <;> cases wait <;> first | rfl | simp at h

theorem Mimics.of_append {a b : KeyRequest} (hsingle : a.all = false) (hwait : a.wait = none)
    (hasks : b.all = true ∨ b.wait.isSome)
    (h : a.key.val.toList ++ a.query.toList = b.key.val.toList ++ b.query.toList) :
    a.Mimics b := by
  refine ⟨hsingle, hwait, hasks, String.toList_inj.mp ?_⟩
  rw [query_eq_empty hsingle hwait, query_eq_mark hasks] at h
  simpa [String.toList_append] using h

/-- Requests of one address are the same, or one of them mimics the other. -/
theorem eq_or_mimics {remote : Remote} {a b : KeyRequest} (h : a.url remote = b.url remote) :
    a = b ∨ a.Mimics b ∨ b.Mimics a := by
  have hkeys := url_eq_iff_append.mp h
  rcases a.query_cases with ⟨hsingle, hwait, ha⟩ | ⟨hasks, asked, ha, hasked⟩ <;>
    rcases b.query_cases with ⟨hsingle', hwait', hb⟩ | ⟨hasks', asked', hb, hasked'⟩
  · rw [ha, hb, List.append_nil, List.append_nil] at hkeys
    exact .inl (KeyRequest.ext (Subtype.ext (String.toList_inj.mp hkeys))
      (hsingle.trans hsingle'.symm) (hwait.trans hwait'.symm))
  · exact .inr (.inl (.of_append hsingle hwait hasks' hkeys))
  · exact .inr (.inr (.of_append hsingle' hwait' hasks hkeys.symm))
  · rw [ha, hb] at hkeys
    -- Both addresses have a question mark behind the key; it is the last one of each.
    obtain ⟨hkey, hsame⟩ := append_mark_inj hasked hasked' hkeys
    have hquery : a.query.toList = b.query.toList := by rw [ha, hb, hsame]
    obtain ⟨hall, hwait⟩ := query_injective hquery
    exact .inl (KeyRequest.ext (Subtype.ext (String.toList_inj.mp hkey)) hall hwait)

theorem Mimics.url_eq {a b : KeyRequest} (h : a.Mimics b) (remote : Remote) :
    a.url remote = b.url remote := by
  rw [url_eq_iff_append, query_eq_empty h.single h.atOnce, query_eq_mark h.asks, h.key]
  simp [String.toList_append]

/-- A request mimics others only if its key has a question mark. -/
theorem Mimics.mark_mem {a b : KeyRequest} (h : a.Mimics b) : '?' ∈ a.key.val.toList := by
  rw [h.key]
  simp

/-- Addresses of keys without question marks tell requests apart. -/
theorem eq_of_url_eq {remote : Remote} {a b : KeyRequest} (ha : '?' ∉ a.key.val.toList)
    (hb : '?' ∉ b.key.val.toList) (h : a.url remote = b.url remote) : a = b := by
  rcases eq_or_mimics h with heq | hmimics | hmimics
  · exact heq
  · exact absurd hmimics.mark_mem ha
  · exact absurd hmimics.mark_mem hb

/-- A request for one key at once mimics one for all keys under a prefix by its last characters. -/
theorem mimics_iff {key start : AbsoluteKey} :
    Mimics ⟨key, false, none⟩ ⟨start, true, none⟩ ↔ key.val = start.val ++ "?recurse=true" := by
  have hquery : start.val ++ "?" ++ "&".intercalate (parameters true none)
      = start.val ++ "?recurse=true" := by
    rw [String.append_assoc]
    rfl
  exact ⟨fun h => h.key.trans hquery, fun h => ⟨rfl, rfl, .inl rfl, h.trans hquery.symm⟩⟩

/-- What one key and all keys under a prefix are asked for with has one address only if the key
goes on with what asks for all. -/
theorem keyUrl_eq_iff {remote : Remote} {key start : AbsoluteKey} :
    remote.keyUrl key.val false none = remote.keyUrl start.val true none ↔
      key.val = start.val ++ "?recurse=true" := by
  rw [← mimics_iff]
  refine ⟨fun h => ?_, fun h => h.url_eq remote⟩
  have hsame : (KeyRequest.mk key false none).url remote
      = (KeyRequest.mk start true none).url remote := h
  rcases eq_or_mimics hsame with heq | hmimics | hmimics
  · cases congrArg KeyRequest.all heq
  · exact hmimics
  · cases hmimics.single

end KeyRequest

/-! ## Requests that are sent -/

/-- A deletion sends one request, whatever is answered. -/
theorem sent_delete (remote : Remote) (path : String) (all : Bool)
    (answers : Nat → Outcome Response) (place : Nat) :
    ((remote.delete path all).run.against answers place).1
      = [⟨.delete, remote.keyUrl path all none, none, remote.timeout⟩] := by
  unfold delete send
  change _ :: (Program.against answers (place + 1) _).1 = _
  congr 1
  cases answers place with
  | error error => rfl
  | ok response =>
    change (Program.against answers (place + 1)
      (ExceptT.run (if response.status = 200 then _ else _))).1 = []
    split <;> rfl

/-- A read that does not wait sends one request, whatever is answered. -/
theorem sent_fetch (remote : Remote) (path : String) (all : Bool)
    (answers : Nat → Outcome Response) (place : Nat) :
    ((remote.fetch path all none).run.against answers place).1
      = [⟨.get, remote.keyUrl path all none, none, remote.timeout⟩] := by
  unfold fetch send
  change _ :: (Program.against answers (place + 1) _).1 = _
  congr 1
  cases answers place with
  | error error => rfl
  | ok response => rfl

/-! ## Which requests share an address -/

/-- **Requests of one address.** They are the same, or one asks for a single key that goes on with
what the other asks for. In particular, one key is deleted or read as if it were all keys under a
prefix only if it is this prefix followed by what asks for all. -/
theorem url_eq_iff (remote : Remote) :
    (∀ a b : KeyRequest, a.url remote = b.url remote ↔ a = b ∨ a.Mimics b ∨ b.Mimics a) ∧
    ∀ (key start : AbsoluteKey) (answers : Nat → Outcome Response),
      (((remote.delete key.val false).run.against answers 0).1
          = ((remote.delete start.val true).run.against answers 0).1 ↔
        key.val = start.val ++ "?recurse=true") ∧
      (((remote.fetch key.val false none).run.against answers 0).1
          = ((remote.fetch start.val true none).run.against answers 0).1 ↔
        key.val = start.val ++ "?recurse=true") := by
  refine ⟨fun a b => ⟨KeyRequest.eq_or_mimics, ?_⟩, fun key start answers => ⟨?_, ?_⟩⟩
  · rintro (rfl | h | h)
    · rfl
    · exact h.url_eq remote
    · exact (h.url_eq remote).symm
  · rw [sent_delete, sent_delete, ← @KeyRequest.keyUrl_eq_iff remote]
    simp
  · rw [sent_fetch, sent_fetch, ← @KeyRequest.keyUrl_eq_iff remote]
    simp

/-- The deletion of one key is sent as that of all keys that start with another. -/
theorem single_deletion_of_all :
    (KeyRequest.mk ⟨"/a?recurse=true", by decide⟩ false none
      ≠ KeyRequest.mk ⟨"/a", by decide⟩ true none) ∧
    (KeyRequest.mk ⟨"/a?recurse=true", by decide⟩ false none).url
        ⟨"http://127.0.0.1:8500", .ofSeconds 5, 64⟩
      = (KeyRequest.mk ⟨"/a", by decide⟩ true none).url
        ⟨"http://127.0.0.1:8500", .ofSeconds 5, 64⟩ :=
  ⟨by decide, by decide⟩

end EngineCatalog.KeyValue.Remote
