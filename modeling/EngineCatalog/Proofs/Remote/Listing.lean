import EngineCatalog.Proofs.Remote.Wait
import EngineCatalog.Proofs.Remote.Wire
import EngineCatalog.Proofs.Text.Numeral

/-!
# Listings are read off the wire

A store that is reached over HTTP lists what it holds: each key without the slash it starts with,
each value as base64, and the index of the query in a header. Main statement: a read and a wait get
back the entries that were listed, in their order and with the index; and whatever is answered with
success is read as a whole, or it violates the protocol (`Remote.readsListings`).

* `Pair.ofEntry`, `writeListing` — a listing as it is sent.
* `Pair.Decodes`, `Response.Lists` — what it is to read a pair, and a response, in full.
* `Program.Takes` — what a program that sends one request makes of the response.
-/

namespace EngineCatalog

open KeyValue (Call Entry Listing Pair Remote Response http)

/-- The program asks, and with the response it is done. -/
def Program.Takes {α : Type} (program : Program http α) (response : Response) (result : α) :
    Prop :=
  ∃ request next, program = .ask (σ := http) request next ∧ next (.ok response) = .done result

namespace KeyValue

open Json (FloatFree ReadsBack Reader Record)
open Text (Bytes)

/-! ## Pairs -/

/-- The entry can be listed: its key starts with a slash, and its index fits into a word. -/
structure Entry.IsListable (entry : Entry) : Prop where
  /-- the slash is left out when the key is listed, and put back when it is read -/
  slash : startsWith "/" entry.key = true
  /-- the index is read as a 64-bit word -/
  fits : entry.modified < Nat.pow 2 64

namespace Pair

/-- The pair that an entry is listed as. -/
def ofEntry (entry : Entry) : Pair :=
  ⟨bareKey entry.key, entry.value.map Text.encodeBase64, entry.modified⟩

/-- A pair as JSON. -/
def toJson (pair : Pair) : Json :=
  .object [("Key", .text pair.key), ("Value", Json.optionalText pair.value),
    ("ModifyIndex", .nat pair.modified)]

theorem floatFree (pair : Pair) : FloatFree pair.toJson := by
  simp [toJson, Json.nat]

/-- A pair is read back. -/
theorem readsBack {pair : Pair} (h : pair.modified < Nat.pow 2 64) (depth : Nat) :
    ReadsBack (record.reader (depth + 1)) (Json.write pair.toJson) pair := by
  obtain ⟨key, value, modified⟩ := pair
  have hkey : ReadsBack (record.readMember depth ([], record.blank) "Key")
      (0x3a :: Json.write (.text key)) (["Key"], ⟨key, none, 0⟩) :=
    Record.readsBack_field rfl rfl ((Json.readsBack_text key depth).map _) rfl
  have hvalue : ReadsBack (record.readMember depth (["Key"], ⟨key, none, 0⟩) "Value")
      (0x3a :: Json.write (Json.optionalText value)) (["Value", "Key"], ⟨key, value, 0⟩) :=
    Record.readsBack_field rfl rfl ((Json.readsBack_optionalText value depth).map _) rfl
  have hmodified : ReadsBack
      (record.readMember depth (["Value", "Key"], ⟨key, value, 0⟩) "ModifyIndex")
      (0x3a :: Json.write (.nat modified))
      (["ModifyIndex", "Value", "Key"], ⟨key, value, modified⟩) :=
    Record.readsBack_field rfl rfl ((Json.readsBack_word "u64" h depth).map _) rfl
  exact Record.readsBack_object (.cons hkey (.cons hvalue (.cons hmodified (.nil _)))) rfl

/-- The pair that an entry is listed as stands for the entry. -/
theorem entry_ofEntry {entry : Entry} (h : startsWith "/" entry.key = true) :
    (ofEntry entry).entry = .ok entry := by
  obtain ⟨key, value, modified⟩ := entry
  have hkey : "/" ++ bareKey key = key := Step.slash_bareKey h
  cases value with
  | none => simp [Pair.entry, ofEntry, hkey]
  | some bytes => simp [Pair.entry, ofEntry, hkey, Text.decodeBase64_encodeBase64]

/-- The entry is what the pair stands for: the key has its slash back, and the value is decoded. -/
structure Decodes (pair : Pair) (entry : Entry) : Prop where
  /-- the key with a slash before it -/
  key : entry.key = "/" ++ pair.key
  /-- the value that the base64 stands for, where there is one -/
  value : pair.value.map Text.decodeBase64 = entry.value.map .ok
  /-- the index as it was listed -/
  modified : entry.modified = pair.modified

/-- A pair is decoded, or it violates the protocol. -/
theorem entry_cases (pair : Pair) :
    (∃ entry, pair.entry = .ok entry ∧ pair.Decodes entry) ∨
      ∃ path reason, pair.entry = .error (.protocolViolation path reason) := by
  obtain ⟨key, value, modified⟩ := pair
  cases value with
  | none => exact .inl ⟨_, rfl, rfl, rfl, rfl⟩
  | some text =>
    cases hbytes : Text.decodeBase64 text with
    | ok bytes => exact .inl ⟨⟨"/" ++ key, some bytes, modified⟩, by simp [Pair.entry, hbytes], rfl,
        by simp [hbytes], rfl⟩
    | error fault => exact .inr ⟨_, _, by simp only [Pair.entry, hbytes]; rfl⟩

end Pair

/-! ## Listings -/

/-- What is stored, as it is listed. -/
def writeListing (entries : List Entry) : Bytes :=
  Json.write (.list (entries.map fun entry => (Pair.ofEntry entry).toJson))

theorem entriesOf_map_ofEntry {entries : List Entry}
    (h : ∀ entry ∈ entries, startsWith "/" entry.key = true) :
    entriesOf (entries.map Pair.ofEntry) = .ok entries := by
  induction entries with
  | nil => rfl
  | cons entry more ih =>
    obtain ⟨hentry, hmore⟩ := List.forall_mem_cons.mp h
    rw [List.map_cons, entriesOf, Pair.entry_ofEntry hentry, ih hmore]
    rfl

/-- A listing is read back. -/
theorem readListing_writeListing {entries : List Entry}
    (h : ∀ entry ∈ entries, entry.IsListable) (path : String) :
    readListing path (writeListing entries) = .ok entries := by
  have hpairs : ∀ pair ∈ entries.map Pair.ofEntry, pair.modified < Nat.pow 2 64 := by
    intro pair hpair
    obtain ⟨entry, hentry, rfl⟩ := List.mem_map.mp hpair
    exact (h entry hentry).fits
  have hread : (Reader.list Pair.record.reader).run (writeListing entries)
      = .ok (entries.map Pair.ofEntry) := by
    have hlist := (Json.readsBack_list (fun pair _ => pair.floatFree)
      fun pair hpair => Pair.readsBack (hpairs pair hpair) 125).run
    rwa [List.map_map] at hlist
  rw [readListing, hread]
  exact entriesOf_map_ofEntry fun entry hentry => (h entry hentry).slash

/-- All listed pairs are decoded in their order, or one of them violates the protocol. -/
theorem entriesOf_cases (pairs : List Pair) :
    (∃ entries, entriesOf pairs = .ok entries ∧ List.Forall₂ Pair.Decodes pairs entries) ∨
      ∃ path reason, entriesOf pairs = .error (.protocolViolation path reason) := by
  induction pairs with
  | nil => exact .inl ⟨[], rfl, .nil⟩
  | cons pair more ih =>
    rcases pair.entry_cases with ⟨entry, hentry, hdecodes⟩ | ⟨path, reason, herror⟩
    · rcases ih with ⟨entries, hmore, hforall⟩ | ⟨path, reason, herror⟩
      · exact .inl ⟨entry :: entries, by rw [entriesOf, hentry, hmore]; rfl, .cons hdecodes hforall⟩
      · exact .inr ⟨path, reason, by rw [entriesOf, hentry, herror]; rfl⟩
    · exact .inr ⟨path, reason, by rw [entriesOf, herror]; rfl⟩

/-! ## Responses -/

/-- The response lists all that is read off it: the index stands in its header, and each pair in its
body is decoded. -/
def Response.Lists (response : Response) (listing : Listing) : Prop :=
  ∃ text pairs, response.headers.find? Remote.indexHeader = some text ∧
    Text.readWord (Text.trim text) = .ok listing.index ∧
    (Reader.list Pair.record.reader).run response.body = .ok pairs ∧
    List.Forall₂ Pair.Decodes pairs listing.entries

namespace Remote

/-- The index is in the header, or the response violates the protocol. -/
theorem indexOf_cases (path : String) (response : Response) :
    (∃ text index, response.headers.find? indexHeader = some text ∧
      Text.readWord (Text.trim text) = .ok index ∧ indexOf path response = .ok index) ∨
      ∃ reason, indexOf path response = .error (.protocolViolation path reason) := by
  rw [indexOf]
  cases response.headers.find? indexHeader with
  | none => exact .inr ⟨_, rfl⟩
  | some text =>
    cases hread : Text.readWord (Text.trim text) with
    | ok index => exact .inl ⟨text, index, rfl, hread, by simp only [hread]⟩
    | error fault => exact .inr ⟨_, by simp only [hread]; rfl⟩

/-- A response with success is read in full, or it violates the protocol. -/
theorem listing_cases (path : String) (waited : Bool) {response : Response}
    (h : response.status = 200) :
    (∃ result, listing path waited response = .ok result ∧ response.Lists result) ∨
      ∃ path' reason, listing path waited response = .error (.protocolViolation path' reason) := by
  rw [listing, if_pos h]
  rcases indexOf_cases path response with ⟨text, index, htext, hread, hindex⟩ | ⟨reason, herror⟩
  · rw [hindex, readListing]
    cases hpairs : (Reader.list Pair.record.reader).run response.body with
    | error fault => exact .inr ⟨_, _, rfl⟩
    | ok pairs =>
      rcases entriesOf_cases pairs with ⟨entries, hentries, hall⟩ | ⟨path', reason, herror⟩
      · refine .inl ⟨⟨index, entries⟩, ?_, text, pairs, htext, hread, hpairs, hall⟩
        simp only [hentries]
        rfl
      · refine .inr ⟨path', reason, ?_⟩
        simp only [herror]
        rfl
  · exact .inr ⟨path, reason, by rw [herror]; rfl⟩

/-- What is listed with an index is read back with it. -/
theorem listing_of_written (path : String) (waited : Bool) {response : Response} {index : Nat}
    {entries : List Entry} (hstatus : response.status = 200)
    (hheader : response.headers.find? indexHeader = some (toString index))
    (hindex : index < Nat.pow 2 64) (hbody : response.body = writeListing entries)
    (hentries : ∀ entry ∈ entries, entry.IsListable) :
    listing path waited response = .ok ⟨index, entries⟩ := by
  have hread : indexOf path response = .ok index := by
    rw [indexOf, hheader]
    simp only [Text.readWord_trim_toString hindex]
  rw [listing, if_pos hstatus, hread, hbody, readListing_writeListing hentries]
  rfl

/-- A fetch that has a timeout asks, and takes the response for what it lists. -/
theorem fetch_takes (remote : Remote) (path : String) (all : Bool) {wait : Option Wait}
    (hspan : (remote.readTimeout wait).isSome = true) (response : Response) :
    Program.Takes (remote.fetch path all wait).run response
      (listing path wait.isSome response) := by
  obtain ⟨timeout, htimeout⟩ := Option.isSome_iff_exists.mp hspan
  rw [fetch, htimeout]
  exact ⟨_, _, rfl, rfl⟩

end Remote

/-- What is listed is read back, and nothing is read in part. -/
structure ReadsListings (program : Program http (Outcome Listing)) : Prop where
  /-- entries that are listed with success, with an index in the header, are what is given back -/
  back : ∀ (response : Response) (index : Nat) (entries : List Entry), response.status = 200 →
    response.headers.find? Remote.indexHeader = some (toString index) → index < Nat.pow 2 64 →
    response.body = writeListing entries → (∀ entry ∈ entries, entry.IsListable) →
    program.Takes response (.ok ⟨index, entries⟩)
  /-- whatever is answered with success is read in full, or it violates the protocol -/
  full : ∀ response : Response, response.status = 200 →
    (∃ result, program.Takes response (.ok result) ∧ response.Lists result) ∨
      ∃ path reason, program.Takes response (.error (.protocolViolation path reason))

namespace Remote

theorem fetch_readsListings (remote : Remote) (path : String) (all : Bool) {wait : Option Wait}
    (hspan : (remote.readTimeout wait).isSome = true) :
    ReadsListings (remote.fetch path all wait).run where
  back response index entries hstatus hheader hindex hbody hentries := by
    rw [← listing_of_written path wait.isSome hstatus hheader hindex hbody hentries]
    exact remote.fetch_takes path all hspan response
  full response hstatus := by
    have htakes := remote.fetch_takes path all hspan response
    rcases listing_cases path wait.isSome hstatus with ⟨result, hresult, hlists⟩ |
      ⟨path', reason, herror⟩
    · exact .inl ⟨result, hresult ▸ htakes, hlists⟩
    · exact .inr ⟨path', reason, herror ▸ htakes⟩

/-- **Keys and values survive the wire.** A read gives back what is listed and nothing in part, and
so does a wait, if a 64-bit count of seconds can hold the wait, a sixteenth of it and the time of a
request together. A wait that is longer asks for nothing. All waits that settings allow are short
enough. -/
theorem readsListings (remote : Remote) (path : String) (all : Bool) (since : Nat) (span : Span) :
    ReadsListings (remote.answer (.read path all)) ∧
      (if span.nanos + span.nanos / 16 + remote.timeout.nanos
          < Nat.pow 2 64 * Span.nanosPerSecond
        then ReadsListings (remote.answer (.await path all since span))
        else remote.answer (.await path all since span) = .overflow) ∧
      ∀ settings : StoreSettings, settings.requestMillis < Nat.pow 2 64 →
        span.nanos ≤ (Span.ofSeconds longestWait).nanos →
          ReadsListings ((Remote.of settings).answer (.await path all since span)) := by
  refine ⟨remote.fetch_readsListings path all rfl, ?_, fun settings hmillis hspan =>
    (Remote.of settings).fetch_readsListings path all (readTimeout_isSome hmillis hspan since)⟩
  by_cases hshort : span.nanos + span.nanos / 16 + remote.timeout.nanos
      < Nat.pow 2 64 * Span.nanosPerSecond
  · rw [if_pos hshort]
    exact remote.fetch_readsListings path all (isSome_readTimeout_iff.mpr hshort)
  · have hnone : remote.readTimeout (some (since, span)) = none :=
      Option.not_isSome_iff_eq_none.mp (mt isSome_readTimeout_iff.mp hshort)
    rw [if_neg hshort]
    change (remote.fetch path all (some (since, span))).run = .overflow
    rw [fetch, hnone]
    rfl

/-- Two entries with the largest index there is are read back, at once and after a wait of a usual
watch. -/
theorem readsListings_largestIndex :
    let settings := (default : Settings).store
    let entries := [⟨"/a", some (Text.encode "1"), 7⟩, ⟨"/a/b", none, Nat.pow 2 64 - 1⟩]
    let response : Response := ⟨200,
      Dict.empty.insert indexHeader (toString (Nat.pow 2 64 - 1)), writeListing entries⟩
    settings.requestMillis < Nat.pow 2 64 ∧
      settings.watchWait.nanos ≤ (Span.ofSeconds longestWait).nanos ∧
      ((Remote.of settings).answer (.read "/a" true)).Takes response
        (.ok ⟨Nat.pow 2 64 - 1, entries⟩) ∧
      ((Remote.of settings).answer (.await "/a" true 7 settings.watchWait)).Takes response
        (.ok ⟨Nat.pow 2 64 - 1, entries⟩) := by
  intro settings entries response
  have hentries : ∀ entry ∈ entries, entry.IsListable :=
    List.forall_mem_cons.mpr ⟨⟨by decide, by decide⟩,
      List.forall_mem_cons.mpr ⟨⟨by decide, by decide⟩, List.forall_mem_nil _⟩⟩
  have hmillis : settings.requestMillis < Nat.pow 2 64 := by decide
  have hwait : settings.watchWait.nanos ≤ (Span.ofSeconds longestWait).nanos :=
    StoreSettings.watchWait_le (by decide)
  have hheader : response.headers.find? indexHeader = some (toString (Nat.pow 2 64 - 1)) :=
    Dict.find?_insert_self _ _ _
  obtain ⟨hread, -, hawait⟩ :=
    readsListings (Remote.of settings) "/a" true 7 settings.watchWait
  exact ⟨hmillis, hwait, hread.back _ _ _ rfl hheader (by decide) rfl hentries,
    (hawait settings hmillis hwait).back _ _ _ rfl hheader (by decide) rfl hentries⟩

end Remote

end KeyValue

end EngineCatalog
