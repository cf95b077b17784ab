import EngineCatalog.Proofs.Store.Scene
import EngineCatalog.Proofs.Store.Transaction

/-!
# Writes that a query does not notice

Every write moves the one index of a store on, and wakes all who wait. Main statement: where a write
neither sets nor takes away a key that a query covers, the query answers with the same entries; and
where the query knows of something and the write reaps no tombstone, its index is the same, too, so
one who waits for a change goes on waiting, in whatever order he is woken and looks
(`query_undisturbed`).

* `Store.Alters` — the write sets the key or takes it away.
* `Store.reapedBy` — the tombstones that a write reaps, those among them that it has made itself.
* `Store.Frames` — what a write leaves as it was at a key, up to what is reaped.
* `Store.query_after_of_sparedBy` — however many such writes there are, the query answers as before.
* `Waiter.IsBlocked` — one who waits, and has nothing to find.
-/

namespace EngineCatalog.KeyValue

open Text (Bytes)

namespace Store

variable {store s t u : Store} {path key : String} {all : Bool} {index : Nat}

/-! ## What a write reaps -/

/-- The tombstones that reaping takes away. -/
def surplus (store : Store) : List (String × Nat) :=
  if store.tombstones.size ≤ store.limit then []
  else store.byAge.take (store.tombstones.size - (store.limit - store.limit / 4))

/-- The tombstones that a deletion of some keys reaps. -/
def reapedByBury (store : Store) (keys : List String) (index : Nat) : List (String × Nat) :=
  (store.entomb keys index).surplus

/-- The tombstones that changes reap, one change after the other. -/
def reapedByChanges (index : Nat) : Store → List Change → List (String × Nat)
  | _, [] => []
  | store, .set path value :: more => reapedByChanges index (store.set path (some value) index) more
  | store, .delete path :: more =>
    let keys := (select store.entries path false).map Prod.fst
    store.reapedByBury keys index ++ reapedByChanges index (store.bury keys index) more

/-- The tombstones that a write reaps. One that is refused or deletes nothing reaps none. -/
def reapedBy (store : Store) : Write → List (String × Nat)
  | .put _ _ => []
  | .putEmpty _ => []
  | .delete path all =>
    let keys := (select store.entries path all).map Prod.fst
    if keys.isEmpty then [] else store.advance.reapedByBury keys (store.index + 1)
  | .transact changes =>
    if ∀ change ∈ changes, isAbsolute change.key = true then
      reapedByChanges (store.index + 1) store.advance changes
    else []

theorem reap_eq (store : Store) :
    store.reap = { store with
      tombstones := store.tombstones.eraseAll (store.surplus.map Prod.fst)
      reaped := (store.surplus.map Prod.snd).foldl max store.reaped } := by
  rw [reap, surplus]
  split
  · have hnone : store.tombstones.eraseAll [] = store.tombstones := Dict.ext_find? fun key => by
      rw [Dict.find?_eraseAll, if_neg List.not_mem_nil]
    rw [List.map_nil, hnone]
    rfl
  · rfl

/-! ## What a write leaves as it was -/

/-- At a key the later store has the entry of the earlier one, and its tombstone if that is not
among those gone, which have left their indexes behind. -/
structure Frames (key : String) (gone : List (String × Nat)) (s t : Store) : Prop where
  /-- the entry is the same -/
  entry : t.entries.find? key = s.entries.find? key
  /-- a tombstone is the same, or gone -/
  tombstone : t.tombstones.find? key
    = if key ∈ gone.map Prod.fst then none else s.tombstones.find? key
  /-- the highest index of those gone counts -/
  reaped : t.reaped = (gone.map Prod.snd).foldl max s.reaped

theorem Frames.trans {gone more : List (String × Nat)} (hst : Frames key gone s t)
    (htu : Frames key more t u) : Frames key (gone ++ more) s u where
  entry := htu.entry.trans hst.entry
  tombstone := by
    rw [htu.tombstone, hst.tombstone]
    by_cases hgone : key ∈ gone.map Prod.fst <;> by_cases hmore : key ∈ more.map Prod.fst <;>
      simp only [List.map_append, List.mem_append, hgone, hmore, or_self, or_true, true_or,
        if_true, if_false]
  reaped := by
    rw [htu.reaped, hst.reaped, List.map_append, List.foldl_append]

theorem Frames.refl (store : Store) (key : String) : Frames key [] store store :=
  ⟨rfl, (if_neg List.not_mem_nil).symm, rfl⟩

theorem frames_advance (store : Store) (key : String) : Frames key [] store store.advance :=
  ⟨rfl, (if_neg List.not_mem_nil).symm, rfl⟩

theorem frames_set (hpath : path ≠ key) (value : Option Bytes) :
    Frames key [] store (store.set path value index) where
  entry := Dict.find?_insert_ne hpath
  tombstone := by
    rw [Store.set, Dict.find?_erase, if_neg hpath, List.map_nil, if_neg List.not_mem_nil]
  reaped := rfl

theorem frames_bury {keys : List String} (hkeys : key ∉ keys) :
    Frames key (store.reapedByBury keys index) store (store.bury keys index) where
  entry := by
    rw [bury_eq, reap_entries, find?_entomb_entries, if_neg hkeys]
  tombstone := by
    rw [bury_eq, reap_eq, Dict.find?_eraseAll, find?_entomb_tombstones, if_neg hkeys]
    rfl
  reaped := by
    rw [bury_eq, reap_eq]
    rfl

/-- A deletion takes away only what it covers and what is there. -/
theorem not_mem_keys_select (h : covers path all key = true → store.entries.find? key = none) :
    key ∉ (select store.entries path all).map Prod.fst := by
  intro hmem
  obtain ⟨⟨_, stored⟩, hselect, rfl⟩ := List.mem_map.mp hmem
  obtain ⟨hcovers, hfind⟩ := mem_select.mp hselect
  rw [h hcovers] at hfind
  cases hfind

/-- Changes that do not set the key, and do not delete it where it is there. -/
theorem frames_changes {changes : List Change} (hset : ∀ value, Change.set key value ∉ changes)
    (hdelete : Change.delete key ∈ changes → store.entries.find? key = none) :
    Frames key (reapedByChanges index store changes) store
      (changes.foldl (Store.change index) store) := by
  induction changes generalizing store with
  | nil => exact .refl store key
  | cons change more ih =>
    have hmore : ∀ value, Change.set key value ∉ more := fun value hmem =>
      hset value (List.mem_cons_of_mem _ hmem)
    have hlater : ∀ {next gone}, Frames key gone store next → Change.delete key ∈ more →
        next.entries.find? key = none := fun hframes hmem =>
      hframes.entry.trans (hdelete (List.mem_cons_of_mem _ hmem))
    rw [List.foldl_cons]
    cases change with
    | set path value =>
      have hpath : path ≠ key := by
        rintro rfl
        exact hset value List.mem_cons_self
      have hfirst : Frames key [] store (store.set path (some value) index) :=
        frames_set hpath (some value)
      exact hfirst.trans (ih hmore (hlater hfirst))
    | delete path =>
      have hkeys : key ∉ (select store.entries path false).map Prod.fst := by
        refine not_mem_keys_select fun hcovers => hdelete ?_
        rw [of_decide_eq_true hcovers]
        exact List.mem_cons_self
      have hfirst : Frames key _ store (store.bury _ index) := frames_bury hkeys
      exact hfirst.trans (ih hmore (hlater hfirst))

end Store

/-- The write sets the key if it is accepted. -/
def Write.Sets : Write → String → Prop
  | .put path _, key => path = key
  | .putEmpty path, key => path = key
  | .delete _ _, _ => False
  | .transact changes, key => ∃ value, Change.set key value ∈ changes

namespace Store

variable {store : Store} {write : Write} {path key : String} {all : Bool}

/-- The write sets the key, or takes it away. -/
def Alters (store : Store) (write : Write) (key : String) : Prop :=
  write.IsAccepted ∧ (write.Sets key ∨ write.Touches key ∧ store.entries.contains key = true)

theorem reapedBy_of_not_isAccepted (h : ¬ write.IsAccepted) : store.reapedBy write = [] := by
  cases write with
  | put path value => rfl
  | putEmpty path => rfl
  | delete path all => exact absurd trivial h
  | transact changes => exact if_neg h

/-- A key that a write neither sets nor takes away is as it was, up to what is reaped. -/
theorem frames_perform (h : ¬ store.Alters write key) :
    Frames key (store.reapedBy write) store (store.perform write).2 := by
  by_cases haccepted : write.IsAccepted
  · have hsets : ¬ write.Sets key := fun hset => h ⟨haccepted, .inl hset⟩
    have hnone : write.Touches key → store.entries.find? key = none := by
      intro htouches
      rw [← Option.not_isSome_iff_eq_none]
      exact fun hsome => h ⟨haccepted, .inr ⟨htouches, hsome⟩⟩
    cases write with
    | put path value =>
      have hkey : isAbsolute path = true := haccepted
      rw [perform, put, Store.write, if_pos hkey]
      exact (store.frames_advance key).trans (frames_set hsets (some value))
    | putEmpty path =>
      have hkey : isAbsolute path = true := haccepted
      rw [perform, putEmpty, Store.write, if_pos hkey]
      exact (store.frames_advance key).trans (frames_set hsets none)
    | delete path all =>
      rw [perform, delete, reapedBy]
      by_cases hempty : ((select store.entries path all).map Prod.fst).isEmpty = true
      · rw [if_pos hempty, if_pos hempty]
        exact .refl store key
      · rw [if_neg hempty, if_neg hempty]
        exact (store.frames_advance key).trans (frames_bury (not_mem_keys_select hnone))
    | transact changes =>
      have hkeys : ∀ change ∈ changes, isAbsolute change.key = true := haccepted
      rw [perform, transact_accepted store fun change hmem => isAbsolute_iff.mp (hkeys change hmem),
        reapedBy, if_pos hkeys]
      cases changes with
      | nil => exact .refl store key
      | cons first more =>
        rw [if_neg (List.cons_ne_nil first more)]
        refine (store.frames_advance key).trans (frames_changes ?_ fun hmem => ?_)
        · exact fun value hmem => hsets ⟨value, hmem⟩
        · exact hnone ⟨.delete key, hmem, rfl⟩
  · obtain ⟨_, hperform⟩ := store.perform_eq_of_not_isAccepted haccepted
    rw [hperform, reapedBy_of_not_isAccepted haccepted]
    exact .refl store key

/-! ## What a query makes of it -/

/-- The query knows of something: it covers a key that is there, or was. -/
def Knows (store : Store) (path : String) (all : Bool) : Prop :=
  ∃ key, covers path all key = true ∧
    (store.entries.contains key = true ∨ store.tombstones.contains key = true)

theorem changeIndexes_ne_nil_iff :
    store.changeIndexes path all ≠ [] ↔ store.Knows path all := by
  constructor
  · intro h
    obtain ⟨_, hindex⟩ := List.exists_mem_of_ne_nil _ h
    obtain ⟨key, hkey, ⟨stored, hfind, -⟩ | hfind⟩ := mem_changeIndexes.mp hindex
    · exact ⟨key, hkey, .inl (Dict.contains_of_find? hfind)⟩
    · exact ⟨key, hkey, .inr (Dict.contains_of_find? hfind)⟩
  · rintro ⟨key, hkey, hentry | htombstone⟩
    · obtain ⟨stored, hfind⟩ := Dict.contains_iff.mp hentry
      exact List.ne_nil_of_mem (mem_changeIndexes.mpr ⟨key, hkey, .inl ⟨stored, hfind, rfl⟩⟩)
    · obtain ⟨index, hfind⟩ := Dict.contains_iff.mp htombstone
      exact List.ne_nil_of_mem (mem_changeIndexes.mpr ⟨key, hkey, .inr hfind⟩)

/-- The write neither sets nor takes away a key that the query covers. -/
def Spares (store : Store) (write : Write) (path : String) (all : Bool) : Prop :=
  ∀ key, covers path all key = true → ¬ store.Alters write key

theorem queryEntries_of_spares (h : store.Spares write path all) :
    (store.perform write).2.queryEntries path all = store.queryEntries path all := by
  rw [queryEntries, queryEntries,
    select_congr fun key hkey => (frames_perform (h key hkey)).entry]

/-- Without a reaping, the indexes that a query counts are those of what it covers alone. -/
theorem changeIndexes_of_spares (h : store.Spares write path all)
    (hreaped : store.reapedBy write = []) :
    (store.perform write).2.changeIndexes path all = store.changeIndexes path all := by
  have hframes : ∀ key, covers path all key = true →
      Frames key [] store (store.perform write).2 := fun key hkey =>
    hreaped ▸ frames_perform (h key hkey)
  rw [changeIndexes, changeIndexes, select_congr fun key hkey => (hframes key hkey).entry,
    select_congr fun key hkey => (hframes key hkey).tombstone.trans (if_neg List.not_mem_nil)]

theorem queryIndex_of_spares (h : store.Spares write path all) (hknows : store.Knows path all)
    (hreaped : store.reapedBy write = []) :
    (store.perform write).2.queryIndex path all = store.queryIndex path all := by
  obtain ⟨top, htop⟩ :=
    Option.isSome_iff_exists.mp (List.isSome_max?_of_ne_nil (changeIndexes_ne_nil_iff.mpr hknows))
  obtain ⟨key, hkey, -⟩ := hknows
  rw [queryIndex, queryIndex, changeIndexes_of_spares h hreaped, htop,
    (frames_perform (h key hkey)).reaped, hreaped]
  rfl

/-- Each write spares the query and reaps no tombstone, in the store that the ones before leave. -/
def SparedBy (path : String) (all : Bool) : Store → List Write → Prop
  | _, [] => True
  | store, write :: more => store.Spares write path all ∧ store.reapedBy write = [] ∧
    SparedBy path all (store.perform write).2 more

/-- However many such writes there are, the query answers as before. -/
theorem query_after_of_sparedBy {writes : List Write} (h : SparedBy path all store writes)
    (hknows : store.Knows path all) :
    (store.after writes).query path all = store.query path all := by
  induction writes generalizing store with
  | nil => rfl
  | cons write more ih =>
    obtain ⟨hspares, hreaped, hmore⟩ := h
    have hstill : (store.perform write).2.Knows path all := by
      rw [← changeIndexes_ne_nil_iff] at hknows ⊢
      rwa [changeIndexes_of_spares hspares hreaped]
    have hquery : (store.perform write).2.query path all = store.query path all := by
      rw [query, query, queryIndex_of_spares hspares hknows hreaped, queryEntries_of_spares hspares]
    exact (ih hmore hstill).trans hquery

end Store

/-! ## What one who waits makes of it -/

namespace Waiter

variable {waiter : Waiter} {schedule : List (Nat × Write)} {scene later : Scene} {count : Nat}

/-- He waits and there is nothing for him to find: he listens, or is to look and will listen. -/
structure IsBlocked (waiter : Waiter) (scene : Scene) : Prop where
  /-- what he waits for has not changed -/
  not_isOver : scene.store.isOver waiter.path waiter.all waiter.since = false
  /-- he has not returned, nor is he to return whatever he finds -/
  stage : ∃ heard, scene.stage = .listening heard ∨ scene.stage = .looking heard

/-- Neither the clock nor the number of writes goes back. -/
theorem Runs.le (h : Runs waiter schedule count scene later) :
    scene.made ≤ later.made ∧ scene.moment ≤ later.moment := by
  induction h with
  | refl scene => exact ⟨Nat.le_refl _, Nat.le_refl _⟩
  | cons hmove hmore ih =>
    obtain ⟨hmade, hmoment⟩ := ih
    cases hmove with
    | write hnext => exact ⟨Nat.le_of_succ_le hmade, hmoment⟩
    | announce hpending => exact ⟨hmade, hmoment⟩
    | step hstep => exact ⟨hmade, hmoment⟩
    | tick hstep hwaits hpending hnext => exact ⟨hmade, Nat.le_of_succ_le hmoment⟩

/-- A step of his before the deadline leads from looking to listening, or back. -/
theorem IsBlocked.step (h : waiter.IsBlocked scene) (htime : scene.moment < waiter.deadline)
    {stage : Stage}
    (hstep : waiter.step scene.store scene.announced scene.moment scene.stage = some stage) :
    waiter.IsBlocked { scene with stage := stage } := by
  refine ⟨h.not_isOver, ?_⟩
  obtain ⟨heard, hstage | hstage⟩ := h.stage <;> rw [hstage, Waiter.step] at hstep
  · split at hstep
    · exact ⟨_, .inr (Option.some.inj hstep).symm⟩
    · rw [if_neg (Nat.not_le.mpr htime)] at hstep
      cases hstep
  · rw [h.not_isOver, if_neg Bool.false_ne_true] at hstep
    exact ⟨_, .inl (Option.some.inj hstep).symm⟩

/-- Until the next write is made and before his deadline, he goes on waiting. -/
theorem IsBlocked.runs (h : waiter.IsBlocked scene)
    (hruns : Runs waiter schedule count scene later) (hmade : later.made = scene.made)
    (htime : later.moment < waiter.deadline) : waiter.IsBlocked later := by
  induction hruns with
  | refl scene => exact h
  | cons hmove hmore ih =>
    obtain ⟨hmadeLe, hmomentLe⟩ := hmore.le
    cases hmove with
    | write hnext =>
      -- a further write would count
      exact absurd (Nat.le_trans hmadeLe (Nat.le_of_eq hmade)) (Nat.not_succ_le_self _)
    | announce hpending => exact ih ⟨h.not_isOver, h.stage⟩ hmade htime
    | step hstep => exact ih (h.step (Nat.lt_of_le_of_lt hmomentLe htime) hstep) hmade htime
    | tick hstep hwaits hpending hnext => exact ih ⟨h.not_isOver, h.stage⟩ hmade htime

/-- An announcement wakes one who has nothing to find; he looks, and listens again. -/
theorem runs_woken {store : Store} {moment made announced : Nat}
    (h : store.isOver waiter.path waiter.all waiter.since = false) :
    Runs waiter schedule 3 ⟨moment, made, store, announced, 1, .listening announced⟩
      ⟨moment, made, store, announced + 1, 0, .listening (announced + 1)⟩ := by
  have hwoken : waiter.step store (announced + 1) moment (.listening announced)
      = some (.looking (announced + 1)) := if_pos (Nat.succ_ne_self announced)
  have hlooks : waiter.step store (announced + 1) moment (.looking (announced + 1))
      = some (.listening (announced + 1)) := by
    rw [Waiter.step, h, if_neg Bool.false_ne_true]
  exact .cons (.announce Nat.one_pos) <| .cons (.step hwoken) <| .cons (.step hlooks) <| .refl _

end Waiter

namespace Store

open Waiter (Scene Runs)

/-- **A query does not notice what it is not about.** A write that neither sets nor takes away a key
that the query covers leaves its entries as they are. If the query knows of something and the write
reaps no tombstone, the index of the query is as it was, too; and one who waits for a change of it
goes on waiting, up to his deadline or the next write, whatever is announced and in whatever order
he looks and listens. -/
theorem query_undisturbed (store : Store) (write : Write) (path : String) (all : Bool)
    (hspares : store.Spares write path all) :
    (store.perform write).2.queryEntries path all = store.queryEntries path all ∧
    (store.Knows path all → store.reapedBy write = [] →
      (store.perform write).2.queryIndex path all = store.queryIndex path all ∧
      ∀ (waiter : Waiter) (schedule : List (Nat × Write)) (count : Nat) (scene later : Scene),
        waiter.path = path → waiter.all = all → scene.store = store → waiter.IsBlocked scene →
        Runs waiter schedule count (scene.write write) later → later.made = scene.made + 1 →
        later.moment < waiter.deadline → waiter.IsBlocked later) := by
  refine ⟨queryEntries_of_spares hspares, fun hknows hreaped => ?_⟩
  have hindex := queryIndex_of_spares hspares hknows hreaped
  refine ⟨hindex, ?_⟩
  rintro waiter schedule count scene later rfl rfl rfl hblocked hruns hmade htime
  have hafter : waiter.IsBlocked (scene.write write) := by
    refine ⟨?_, hblocked.stage⟩
    have hover := hblocked.not_isOver
    rw [isOver] at hover
    rw [Scene.write, isOver, hindex]
    exact hover
  exact hafter.runs hruns hmade htime

/-- One waits for changes below a path. Others set a key beside it that starts alike, and delete one
below it that is not there: he is woken, looks, and listens again. -/
theorem query_undisturbed_besidePath :
    let store := (fresh 4).after
      [.put "/team/a" [49], .put "/team/b" [50], .delete "/team/b" false]
    let write : Write := .transact [.set "/teamwork" [51], .delete "/tea", .delete "/team/c"]
    let after := (store.perform write).2
    let waiter : Waiter := ⟨"/team/", true, 4, 1⟩
    let scene : Scene := ⟨0, 0, store, 0, 0, .listening 0⟩
    let later : Scene := ⟨0, 1, after, 1, 0, .listening 1⟩
    store.Spares write "/team/" true ∧ store.Knows "/team/" true ∧ store.reapedBy write = [] ∧
      after.queryEntries "/team/" true = store.queryEntries "/team/" true ∧
      after.queryIndex "/team/" true = store.queryIndex "/team/" true ∧
      waiter.IsBlocked scene ∧ Runs waiter [(0, write)] 3 (scene.write write) later ∧
      waiter.IsBlocked later := by
  intro store write after waiter scene later
  have hspares : store.Spares write "/team/" true := by
    rintro key hkey ⟨-, ⟨value, hset⟩ | ⟨⟨change, hmem, rfl⟩, hthere⟩⟩
    · obtain ⟨rfl, -⟩ : key = "/teamwork" ∧ value = [51] := by simpa using hset
      exact absurd hkey (by decide)
    · have hnone : ∀ change ∈ [Change.set "/teamwork" [51], .delete "/tea", .delete "/team/c"],
          store.entries.contains change.key = false := by decide
      rw [hnone change hmem] at hthere
      cases hthere
  have hknows : store.Knows "/team/" true := ⟨"/team/a", by decide, .inl (by decide)⟩
  have hreaped : store.reapedBy write = [] := by decide
  have hblocked : waiter.IsBlocked scene := ⟨by decide, 0, .inl rfl⟩
  have hruns : Runs waiter [(0, write)] 3 (scene.write write) later := by
    have hindex : 0 + (after.index - store.index) = 1 := by decide
    rw [Scene.write, hindex]
    exact Waiter.runs_woken (by decide)
  obtain ⟨hentries, hmore⟩ := query_undisturbed store write "/team/" true hspares
  obtain ⟨hindex, hwaits⟩ := hmore hknows hreaped
  exact ⟨hspares, hknows, hreaped, hentries, hindex, hblocked, hruns,
    hwaits waiter _ _ scene later rfl rfl rfl hblocked hruns rfl (by decide)⟩

end Store

end EngineCatalog.KeyValue
