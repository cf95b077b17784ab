import EngineCatalog.Proofs.Store.Scene

/-!
# When a wait ends, and with what

Whatever happens around one who waits, and in whatever order, his wait ends at once, at the moment
of the first write that changes the index, or at the deadline. Main statement: `returns_in_time`.

* `Waiter.Ends` — when a wait may end, and what it gives.
* `Waiter.Sound` — the invariant. What matters in it is that one who listens and has heard of
  everything has also seen everything: no write can slip in between.
-/

namespace EngineCatalog.KeyValue

/-! ## Along a schedule -/

/-- Where the next write is not made now, all that are left are made later. -/
theorem Scheduled.lt_of_next {start deadline moment made : Nat} {schedule : List (Nat × Write)}
    (h : Scheduled start deadline schedule)
    (hfuture : ∀ one ∈ schedule.drop made, moment ≤ one.1)
    (hnext : ∀ write, schedule[made]? ≠ some (moment, write)) :
    ∀ one ∈ schedule.drop made, moment < one.1 := by
  have hordered : (schedule.drop made).Pairwise fun a b => a.1 ≤ b.1 := h.ordered.drop
  have hhead : (schedule.drop made).head? = schedule[made]? := List.head?_drop
  cases hdrop : schedule.drop made with
  | nil => exact fun one hone => absurd hone List.not_mem_nil
  | cons next more =>
    rw [hdrop] at hfuture hordered hhead
    have hlt : moment < next.1 := by
      refine Nat.lt_of_le_of_ne (hfuture next List.mem_cons_self) fun heq => hnext next.2 ?_
      rw [← hhead, heq]
      rfl
    intro one hone
    rcases List.mem_cons.mp hone with rfl | hmore
    · exact hlt
    · exact Nat.lt_of_lt_of_le hlt (List.rel_of_pairwise_cons hordered hmore)

namespace Store

variable {store : Store} {schedule : List (Nat × Write)}

/-- The store after the first so many writes of a schedule. -/
def afterFirst (store : Store) (schedule : List (Nat × Write)) (count : Nat) : Store :=
  store.after ((schedule.take count).map Prod.snd)

theorem afterFirst_succ {count moment : Nat} {write : Write}
    (h : schedule[count]? = some (moment, write)) :
    store.afterFirst schedule (count + 1)
      = ((store.afterFirst schedule count).perform write).2 := by
  rw [afterFirst, List.take_add_one, h, Option.toList_some, List.map_append, after,
    List.foldl_append]
  rfl

/-- What the index of a query was, it is at least after more writes. -/
theorem queryIndex_afterFirst_le (hstore : Numbered store) (path : String) (all : Bool)
    {i j : Nat} (hij : i ≤ j) :
    (store.afterFirst schedule i).queryIndex path all
      ≤ (store.afterFirst schedule j).queryIndex path all := by
  obtain ⟨more, rfl⟩ := Nat.exists_eq_add_of_le hij
  have hsplit : store.afterFirst schedule (i + more)
      = (store.afterFirst schedule i).after (((schedule.drop i).take more).map Prod.snd) := by
    rw [afterFirst, List.take_add, List.map_append, after, List.foldl_append]
    rfl
  have hnum : Numbered (store.afterFirst schedule i) := (after_advances hstore _).1
  rw [hsplit]
  exact ((after_advances hnum _).2.2 path all).index_le

end Store

namespace Waiter

open Store (Numbered)

variable {waiter : Waiter} {store : Store} {schedule : List (Nat × Write)} {start : Nat}

/-! ## When a wait ends -/

/-- What the waiter finds after the first so many writes. -/
def finds (waiter : Waiter) (store : Store) (schedule : List (Nat × Write)) (count : Nat) :
    Listing :=
  (store.afterFirst schedule count).query waiter.path waiter.all

/-- When a wait ends that starts at a moment, and what it gives. Its first look comes after some
writes, which are all made at the moment of the start. -/
inductive Ends (waiter : Waiter) (store : Store) (schedule : List (Nat × Write)) (start : Nat) :
    Nat → Listing → Prop where
  /-- it ends at once, as it knows no index or another one than it finds -/
  | atOnce {first : Nat}
    (hfirst : ∀ one ∈ schedule.take first, one.1 = start)
    (hover : waiter.since = 0 ∨ (waiter.finds store schedule first).index ≠ waiter.since) :
    Ends waiter store schedule start start (waiter.finds store schedule first)
  /-- it ends at the moment of the first write that changes the index, with what is there then -/
  | changed {first i made moment : Nat} {write : Write}
    (hfirst : ∀ one ∈ schedule.take first, one.1 = start)
    (hsince : waiter.since ≠ 0)
    (hfirst_le : first ≤ i)
    (hsame : ∀ j, first ≤ j → j ≤ i → (waiter.finds store schedule j).index = waiter.since)
    (hwrite : schedule[i]? = some (moment, write))
    (hchange : (waiter.finds store schedule (i + 1)).index ≠ waiter.since)
    (hmoment : moment < waiter.deadline)
    (hmade : i < made)
    (hnow : ∀ j one, i ≤ j → j < made → schedule[j]? = some one → one.1 = moment)
    (hindex : (waiter.finds store schedule made).index ≠ waiter.since) :
    Ends waiter store schedule start moment (waiter.finds store schedule made)
  /-- it ends at the deadline, with what is there then, if no write before changes the index -/
  | timedOut {first made : Nat}
    (hfirst : ∀ one ∈ schedule.take first, one.1 = start)
    (hsince : waiter.since ≠ 0)
    (hfirst_le : first ≤ made)
    (hsame : ∀ j, first ≤ j → j ≤ made → (waiter.finds store schedule j).index = waiter.since)
    (hbefore : ∀ one ∈ schedule.take made, one.1 < waiter.deadline)
    (hafter : ∀ one ∈ schedule.drop made, waiter.deadline < one.1) :
    Ends waiter store schedule start waiter.deadline (waiter.finds store schedule made)

theorem finds_index_le (hstore : Numbered store) {i j : Nat} (hij : i ≤ j) :
    (waiter.finds store schedule i).index ≤ (waiter.finds store schedule j).index :=
  Store.queryIndex_afterFirst_le hstore waiter.path waiter.all hij

/-- Where the index is the same at both ends, it is the same in between. -/
theorem finds_index_eq (hstore : Numbered store) {i j k : Nat}
    (hi : (waiter.finds store schedule i).index = waiter.since)
    (hk : (waiter.finds store schedule k).index = waiter.since) (hij : i ≤ j) (hjk : j ≤ k) :
    (waiter.finds store schedule j).index = waiter.since :=
  Nat.le_antisymm (hk ▸ finds_index_le hstore hjk) (hi ▸ finds_index_le hstore hij)

/-- Where the index has changed, there is a first write that changed it. -/
theorem exists_first_change {first made : Nat}
    (hfirst : (waiter.finds store schedule first).index = waiter.since) (hle : first ≤ made)
    (hmade : (waiter.finds store schedule made).index ≠ waiter.since) :
    ∃ i, first ≤ i ∧ i < made ∧ (waiter.finds store schedule i).index = waiter.since ∧
      (waiter.finds store schedule (i + 1)).index ≠ waiter.since := by
  induction hle with
  | refl => exact absurd hfirst hmade
  | @step made hle ih =>
    by_cases hbefore : (waiter.finds store schedule made).index = waiter.since
    · exact ⟨made, hle, Nat.lt_succ_self made, hbefore, hmade⟩
    · obtain ⟨i, hfi, him, hi, hchange⟩ := ih hbefore
      exact ⟨i, hfi, Nat.lt_succ_of_lt him, hi, hchange⟩

/-! ## The invariant -/

/-- The waiter has been waiting: from his first look up to the last the index was the one he knows,
and the writes since then are all made at the present moment. -/
structure Waited (waiter : Waiter) (store : Store) (schedule : List (Nat × Write)) (start : Nat)
    (moment made first seen : Nat) : Prop where
  /-- the writes before the first look were made at the start -/
  first_eq : ∀ one ∈ schedule.take first, one.1 = start
  /-- he knows an index -/
  since_ne : waiter.since ≠ 0
  /-- the first look was not after the last -/
  first_le : first ≤ seen
  /-- the last look was not after the last write -/
  seen_le : seen ≤ made
  /-- he found it at the first look -/
  index_first : (waiter.finds store schedule first).index = waiter.since
  /-- he found it at the last look -/
  index_seen : (waiter.finds store schedule seen).index = waiter.since
  /-- the writes since then are made now -/
  now : ∀ j one, seen ≤ j → j < made → schedule[j]? = some one → one.1 = moment

/-- What holds at each stage. -/
def StageSound (waiter : Waiter) (store : Store) (schedule : List (Nat × Write)) (start : Nat)
    (scene : Scene) : Stage → Prop
  | .called => scene.moment = start
  | .looking heard =>
    heard ≤ scene.announced ∧ (scene.moment = start
      ∨ ∃ first seen, Waited waiter store schedule start scene.moment scene.made first seen)
  | .listening heard =>
    heard ≤ scene.announced ∧
      (∃ first seen, Waited waiter store schedule start scene.moment scene.made first seen) ∧
      -- who has heard of everything has seen everything
      (scene.announced = heard → scene.pending = 0 →
        (waiter.finds store schedule scene.made).index = waiter.since)
  | .leaving =>
    scene.moment = waiter.deadline ∧
      ∃ first seen, Waited waiter store schedule start scene.moment scene.made first seen
  | .returned listing => waiter.Ends store schedule start scene.moment listing

/-- What holds in every scene that a wait comes to. -/
structure Sound (waiter : Waiter) (store : Store) (schedule : List (Nat × Write)) (start : Nat)
    (scene : Scene) : Prop where
  /-- the store is what the writes so far have made of it -/
  store_eq : scene.store = store.afterFirst schedule scene.made
  /-- there are as many writes in the schedule as are made -/
  made_le : scene.made ≤ schedule.length
  /-- the writes so far were not made later than now -/
  past : ∀ one ∈ schedule.take scene.made, one.1 ≤ scene.moment
  /-- the other writes will not be made earlier than now -/
  future : ∀ one ∈ schedule.drop scene.made, scene.moment ≤ one.1
  /-- the wait started before -/
  start_le : start ≤ scene.moment
  /-- the deadline is not past -/
  le_deadline : scene.moment ≤ waiter.deadline
  /-- what holds at the stage of the waiter -/
  stage : StageSound waiter store schedule start scene scene.stage

section Invariant

variable {scene later : Scene} {moment made first seen : Nat}

theorem Waited.index_eq (hstore : Numbered store)
    (h : Waited waiter store schedule start moment made first seen) {j : Nat} (hfirst : first ≤ j)
    (hseen : j ≤ seen) : (waiter.finds store schedule j).index = waiter.since :=
  finds_index_eq hstore h.index_first h.index_seen hfirst hseen

/-- After a look that found nothing new, the waiting goes on from there. -/
theorem Waited.look (h : Waited waiter store schedule start moment made first seen) (later : Nat)
    (hindex : (waiter.finds store schedule made).index = waiter.since) :
    Waited waiter store schedule start later made first made where
  first_eq := h.first_eq
  since_ne := h.since_ne
  first_le := Nat.le_trans h.first_le h.seen_le
  seen_le := Nat.le_refl made
  index_first := h.index_first
  index_seen := hindex
  now := fun _ _ hseen hmade => absurd hmade (Nat.not_lt.mpr hseen)

/-- A write that is made now is one of those since the last look. -/
theorem Waited.write (h : Waited waiter store schedule start moment made first seen)
    {write : Write} (hnext : schedule[made]? = some (moment, write)) :
    Waited waiter store schedule start moment (made + 1) first seen :=
  { h with
    seen_le := Nat.le_succ_of_le h.seen_le
    now := by
      intro j one hseen hj hone
      obtain hj | rfl := Nat.lt_succ_iff_lt_or_eq.mp hj
      · exact h.now j one hseen hj hone
      · obtain rfl := Option.some.inj (hnext.symm.trans hone)
        rfl }

/-- A first look that finds nothing new begins the waiting. -/
theorem Waited.begin (hmade : ∀ one ∈ schedule.take made, one.1 = start)
    (hsince : waiter.since ≠ 0)
    (hindex : (waiter.finds store schedule made).index = waiter.since) :
    Waited waiter store schedule start start made made made where
  first_eq := hmade
  since_ne := hsince
  first_le := Nat.le_refl made
  seen_le := Nat.le_refl made
  index_first := hindex
  index_seen := hindex
  now := fun _ _ hseen hmade => absurd hmade (Nat.not_lt.mpr hseen)

namespace Sound

theorem query_eq (h : Sound waiter store schedule start scene) :
    scene.store.query waiter.path waiter.all = waiter.finds store schedule scene.made := by
  rw [h.store_eq, finds]

/-- The wait is over where the waiter knows no index or another one than he would find. -/
theorem isOver_iff (h : Sound waiter store schedule start scene) :
    scene.store.isOver waiter.path waiter.all waiter.since = true ↔
      waiter.since = 0 ∨ (waiter.finds store schedule scene.made).index ≠ waiter.since := by
  rw [← h.query_eq, Store.isOver, Bool.or_eq_true, decide_eq_true_iff, decide_eq_true_iff]
  rfl

theorem opening (hschedule : Scheduled start waiter.deadline schedule)
    (hdeadline : start ≤ waiter.deadline) (announced pending : Nat) :
    Sound waiter store schedule start (opening start store announced pending) where
  store_eq := rfl
  made_le := Nat.zero_le _
  past := fun _ hone => absurd hone List.not_mem_nil
  future := fun one hone => hschedule.start_le one hone
  start_le := Nat.le_refl start
  le_deadline := hdeadline
  stage := rfl

/-- All writes so far were made at the start if that is now. -/
theorem made_eq (hschedule : Scheduled start waiter.deadline schedule)
    (h : Sound waiter store schedule start scene) (hnow : scene.moment = start) :
    ∀ one ∈ schedule.take scene.made, one.1 = start := fun one hone =>
  Nat.le_antisymm (hnow ▸ h.past one hone) (hschedule.start_le one (List.mem_of_mem_take hone))

end Sound

/-! ## What the invariant gives -/

/-- A look that finds something new ends the wait as it should. -/
theorem Sound.ends_of_look (hstore : Numbered store)
    (hschedule : Scheduled start waiter.deadline schedule)
    (h : Sound waiter store schedule start scene) {heard : Nat}
    (hstage : scene.stage = .looking heard)
    (hover : scene.store.isOver waiter.path waiter.all waiter.since = true) :
    waiter.Ends store schedule start scene.moment
      (scene.store.query waiter.path waiter.all) := by
  have hlook := h.stage
  rw [hstage] at hlook
  rw [h.query_eq]
  obtain ⟨-, hnow | ⟨first, seen, hwaited⟩⟩ := hlook
  · rw [hnow]
    exact .atOnce (h.made_eq hschedule hnow) (h.isOver_iff.mp hover)
  · -- the index has changed since the last look, so by a write that was made now
    have hindex := (h.isOver_iff.mp hover).resolve_left hwaited.since_ne
    obtain ⟨i, hseen, hi, hsame, hchange⟩ :=
      exists_first_change hwaited.index_seen hwaited.seen_le hindex
    have hwrite := List.getElem?_eq_getElem (Nat.lt_of_lt_of_le hi h.made_le)
    have hnow := hwaited.now i _ hseen hi hwrite
    have hmoment : scene.moment < waiter.deadline :=
      Nat.lt_of_le_of_ne h.le_deadline (hnow ▸ hschedule.ne_deadline _ (List.getElem_mem _))
    exact .changed hwaited.first_eq hwaited.since_ne (Nat.le_trans hwaited.first_le hseen)
      (fun j hfirst hj => finds_index_eq hstore hwaited.index_first hsame hfirst hj)
      (hwrite.trans (congrArg some (Prod.ext hnow rfl))) hchange hmoment hi
      (fun j one hj => hwaited.now j one (Nat.le_trans hseen hj)) hindex

/-- A look that finds nothing new is the last one so far. -/
theorem Sound.listens_of_look (hschedule : Scheduled start waiter.deadline schedule)
    (h : Sound waiter store schedule start scene) {heard : Nat}
    (hstage : scene.stage = .looking heard)
    (hover : ¬ scene.store.isOver waiter.path waiter.all waiter.since = true) :
    StageSound waiter store schedule start scene (.listening heard) := by
  have hlook := h.stage
  rw [hstage] at hlook
  rw [h.isOver_iff, not_or, not_not] at hover
  obtain ⟨hsince, hindex⟩ := hover
  obtain ⟨hheard, hnow | ⟨first, seen, hwaited⟩⟩ := hlook
  · refine ⟨hheard, ⟨scene.made, scene.made, ?_⟩, fun _ _ => hindex⟩
    rw [hnow]
    exact Waited.begin (h.made_eq hschedule hnow) hsince hindex
  · exact ⟨hheard, ⟨first, scene.made, hwaited.look _ hindex⟩, fun _ _ => hindex⟩

/-- One who leaves at the deadline takes what is there, and it is nothing new. -/
theorem Sound.ends_of_leave (hstore : Numbered store)
    (hschedule : Scheduled start waiter.deadline schedule)
    (h : Sound waiter store schedule start scene) (hstage : scene.stage = .leaving) :
    waiter.Ends store schedule start scene.moment
      (scene.store.query waiter.path waiter.all) := by
  have hleave := h.stage
  rw [hstage] at hleave
  obtain ⟨hnow, first, seen, hwaited⟩ := hleave
  -- no write is made at the deadline, so none was made since the last look
  have hseen : seen = scene.made := by
    refine Nat.le_antisymm hwaited.seen_le (Nat.not_lt.mp fun hlt => ?_)
    have hwrite := List.getElem?_eq_getElem (Nat.lt_of_lt_of_le hlt h.made_le)
    exact hschedule.ne_deadline _ (List.getElem_mem _)
      ((hwaited.now seen _ (Nat.le_refl seen) hlt hwrite).trans hnow)
  subst hseen
  rw [h.query_eq, hnow]
  refine .timedOut hwaited.first_eq hwaited.since_ne hwaited.first_le
    (fun j => hwaited.index_eq hstore) (fun one hone => ?_) (fun one hone => ?_)
  · exact Nat.lt_of_le_of_ne (hnow ▸ h.past one hone)
      (hschedule.ne_deadline one (List.mem_of_mem_take hone))
  · exact Nat.lt_of_le_of_ne (hnow ▸ h.future one hone)
      (Ne.symm (hschedule.ne_deadline one (List.mem_of_mem_drop hone)))

/-! ## What happens keeps the invariant -/

/-- What others do keeps what holds at the stage of the waiter, if whatever they change is announced
or still to be announced. -/
theorem StageSound.of_others {stage : Stage}
    (h : StageSound waiter store schedule start scene stage)
    (hmoment : later.moment = scene.moment) (hannounced : scene.announced ≤ later.announced)
    (hwaited : ∀ first seen,
      Waited waiter store schedule start scene.moment scene.made first seen →
        Waited waiter store schedule start scene.moment later.made first seen)
    (hseen : later.announced = scene.announced → later.pending = 0 → scene.pending = 0 ∧
      waiter.finds store schedule later.made = waiter.finds store schedule scene.made) :
    StageSound waiter store schedule start later stage := by
  have hwaits : (∃ first seen,
      Waited waiter store schedule start scene.moment scene.made first seen) →
      ∃ first seen, Waited waiter store schedule start later.moment later.made first seen := by
    rintro ⟨first, seen, hwaiting⟩
    exact ⟨first, seen, hmoment ▸ hwaited first seen hwaiting⟩
  cases stage with
  | called => exact hmoment.trans h
  | looking heard =>
    obtain ⟨hheard, hnow | hwaiting⟩ := h
    · exact ⟨Nat.le_trans hheard hannounced, .inl (hmoment.trans hnow)⟩
    · exact ⟨Nat.le_trans hheard hannounced, .inr (hwaits hwaiting)⟩
  | listening heard =>
    obtain ⟨hheard, hwaiting, hindex⟩ := h
    refine ⟨Nat.le_trans hheard hannounced, hwaits hwaiting, fun hall hpending => ?_⟩
    have hsame : later.announced = scene.announced :=
      Nat.le_antisymm (hall ▸ hheard) hannounced
    obtain ⟨hbefore, hfinds⟩ := hseen hsame hpending
    rw [hfinds]
    exact hindex (hsame.symm.trans hall) hbefore
  | leaving => exact ⟨hmoment.trans h.1, hwaits h.2⟩
  | returned listing =>
    rw [StageSound, hmoment]
    exact h

theorem Sound.write (h : Sound waiter store schedule start scene) {write : Write}
    (hnext : schedule[scene.made]? = some (scene.moment, write)) :
    Sound waiter store schedule start (scene.write write) where
  store_eq := by
    rw [Scene.write, Store.afterFirst_succ hnext, h.store_eq]
  made_le := (List.getElem?_eq_some_iff.mp hnext).1
  past := by
    intro one hone
    rw [Scene.write, List.take_add_one, hnext, Option.toList_some, List.mem_append,
      List.mem_singleton] at hone
    obtain hone | rfl := hone
    · exact h.past one hone
    · exact Nat.le_refl _
  future := fun one hone =>
    h.future one (List.drop_subset_drop_left schedule (Nat.le_succ scene.made) hone)
  start_le := h.start_le
  le_deadline := h.le_deadline
  stage := by
    refine h.stage.of_others rfl (Nat.le_refl _) (fun _ _ hwaited => hwaited.write hnext) ?_
    intro _ hpending
    -- a write with nothing to announce leaves the store as it is
    obtain ⟨hbefore, hmoved⟩ := Nat.add_eq_zero_iff.mp hpending
    refine ⟨hbefore, ?_⟩
    obtain hsame | hindex := scene.store.perform_eq_or_index write
    · rw [Scene.write, finds, Store.afterFirst_succ hnext, ← h.store_eq, hsame, h.query_eq]
    · omega

theorem Sound.announce (h : Sound waiter store schedule start scene) :
    Sound waiter store schedule start
      { scene with announced := scene.announced + 1, pending := scene.pending - 1 } :=
  { h with
    stage := h.stage.of_others rfl (Nat.le_succ _) (fun _ _ hwaited => hwaited)
      fun hannounced => absurd hannounced (Nat.succ_ne_self _) }

theorem Sound.step (hstore : Numbered store) (hschedule : Scheduled start waiter.deadline schedule)
    (h : Sound waiter store schedule start scene) {stage : Stage}
    (hstep : waiter.step scene.store scene.announced scene.moment scene.stage = some stage) :
    Sound waiter store schedule start { scene with stage := stage } := by
  suffices hstage : StageSound waiter store schedule start scene stage from
    { h with stage := hstage }
  have hbefore := h.stage
  cases hcase : scene.stage with
  | called =>
    rw [hcase] at hstep hbefore
    obtain rfl := Option.some.inj hstep
    exact ⟨Nat.le_refl _, .inl hbefore⟩
  | looking heard =>
    rw [hcase, Waiter.step] at hstep
    by_cases hover : scene.store.isOver waiter.path waiter.all waiter.since = true
    · rw [if_pos hover] at hstep
      obtain rfl := Option.some.inj hstep
      exact h.ends_of_look hstore hschedule hcase hover
    · rw [if_neg hover] at hstep
      obtain rfl := Option.some.inj hstep
      exact h.listens_of_look hschedule hcase hover
  | listening heard =>
    rw [hcase] at hbefore
    obtain ⟨-, hwaited, -⟩ := hbefore
    rw [hcase, Waiter.step] at hstep
    by_cases hnews : scene.announced ≠ heard
    · rw [if_pos hnews] at hstep
      obtain rfl := Option.some.inj hstep
      exact ⟨Nat.le_refl _, .inr hwaited⟩
    · rw [if_neg hnews] at hstep
      by_cases hlate : waiter.deadline ≤ scene.moment
      · rw [if_pos hlate] at hstep
        obtain rfl := Option.some.inj hstep
        exact ⟨Nat.le_antisymm h.le_deadline hlate, hwaited⟩
      · rw [if_neg hlate] at hstep
        cases hstep
  | leaving =>
    rw [hcase] at hstep
    obtain rfl := Option.some.inj hstep
    exact h.ends_of_leave hstore hschedule hcase
  | returned listing =>
    rw [hcase] at hstep
    cases hstep

/-- Time passes only where the waiter listens and everything is announced, so he has seen all there
is. -/
theorem Sound.tick (hschedule : Scheduled start waiter.deadline schedule)
    (h : Sound waiter store schedule start scene)
    (hstep : waiter.step scene.store scene.announced scene.moment scene.stage = none)
    (hwaits : ∀ listing, scene.stage ≠ .returned listing) (hpending : scene.pending = 0)
    (hnext : ∀ write, schedule[scene.made]? ≠ some (scene.moment, write)) :
    Sound waiter store schedule start { scene with moment := scene.moment + 1 } := by
  obtain ⟨hlistens, htime⟩ | ⟨listing, hreturned⟩ := step_eq_none_iff.mp hstep
  · have hstage := h.stage
    rw [hlistens] at hstage
    obtain ⟨hheard, ⟨first, seen, hwaited⟩, hindex⟩ := hstage
    have hseen := hindex rfl hpending
    refine ⟨h.store_eq, h.made_le, fun one hone => Nat.le_succ_of_le (h.past one hone),
      hschedule.lt_of_next h.future hnext, Nat.le_succ_of_le h.start_le, htime, ?_⟩
    rw [hlistens]
    exact ⟨hheard, ⟨first, scene.made, hwaited.look _ hseen⟩, fun _ _ => hseen⟩
  · exact absurd hreturned (hwaits listing)

theorem Sound.moves (hstore : Numbered store) (hschedule : Scheduled start waiter.deadline schedule)
    (h : Sound waiter store schedule start scene) (hmove : Moves waiter schedule scene later) :
    Sound waiter store schedule start later := by
  cases hmove with
  | write hnext => exact h.write hnext
  | announce _ => exact h.announce
  | step hstep => exact h.step hstore hschedule hstep
  | tick hstep hwaits hpending hnext => exact h.tick hschedule hstep hwaits hpending hnext

theorem Sound.runs (hstore : Numbered store) (hschedule : Scheduled start waiter.deadline schedule)
    (h : Sound waiter store schedule start scene) {count : Nat}
    (hruns : Runs waiter schedule count scene later) :
    Sound waiter store schedule start later := by
  induction hruns with
  | refl _ => exact h
  | cons hmove _ ih => exact ih (h.moves hstore hschedule hmove)

end Invariant

/-! ## The law -/

/-- **Waits end in time.** A wait begins unless its deadline is past the last moment that the clock
can count. From every store that writes have led to, with whatever is still to be announced of them,
and along every schedule of further writes and every order of what happens: the moves are bounded in
number, something can happen until the wait is over, and then it is over as it should be. -/
theorem returns_in_time {last limit start since announced pending : Nat} {path : String}
    {all : Bool} {wait : Span} {before : List Write} {schedule : List (Nat × Write)}
    (hschedule : Scheduled start (start + wait.nanos) schedule) :
    (arrive? last start path all since wait = none ↔ last < start + wait.nanos) ∧
    ∀ waiter, arrive? last start path all since wait = some waiter →
      ∀ count scene, Runs waiter schedule count
          (opening start ((Store.fresh limit).after before) announced pending) scene →
        count ≤ wait.nanos + 4 * schedule.length + 3 * pending + 4 ∧
        ((∀ listing, scene.stage ≠ .returned listing) →
          ∃ later, Moves waiter schedule scene later) ∧
        ∀ listing, scene.stage = .returned listing →
          waiter.Ends ((Store.fresh limit).after before) schedule start scene.moment listing := by
  constructor
  · rw [arrive?]
    split <;> simp [*]
  · intro waiter harrive count scene hruns
    rw [arrive?] at harrive
    split at harrive
    · cases harrive
    obtain rfl := Option.some.inj harrive
    refine ⟨?_, exists_moves _ _ scene, fun listing hreturned => ?_⟩
    · have hcount := hruns.count_le
      simp only [Scene.left, opening, Stage.rank] at hcount
      omega
    · have hsound := (Sound.opening hschedule (Nat.le_add_right _ _) announced pending).runs
        (Store.numbered_after_fresh limit before) hschedule hruns
      have hstage := hsound.stage
      rw [hreturned] at hstage
      exact hstage

/-- A write about another key wakes the waiter for nothing; the one about his own is made when he
has looked again and before he hears anything. -/
theorem returns_in_time_wokenTwice :
    Scheduled 0 5 [(2, .put "/b" []), (2, .put "/a" [])] ∧
    ∃ waiter count scene listing,
      arrive? 5 0 "/a" false 2 ⟨5⟩ = some waiter ∧
      Runs waiter [(2, .put "/b" []), (2, .put "/a" [])] count
        (opening 0 ((Store.fresh 1).after [.put "/a" []]) 0 1) scene ∧
      scene.stage = .returned listing ∧ listing.index = 4 ∧ scene.moment = 2 ∧
      waiter.Ends ((Store.fresh 1).after [.put "/a" []]) [(2, .put "/b" []), (2, .put "/a" [])] 0
        scene.moment listing := by
  let schedule : List (Nat × Write) := [(2, .put "/b" []), (2, .put "/a" [])]
  let store := (Store.fresh 1).after [.put "/a" []]
  let after := store.after [.put "/b" [], .put "/a" []]
  have hschedule : Scheduled 0 5 schedule := ⟨by decide, by decide, by decide⟩
  have hruns : Runs ⟨"/a", false, 2, 5⟩ schedule 15 (opening 0 store 0 1)
      ⟨2, 2, after, 3, 0, .returned (after.query "/a" false)⟩ :=
    -- he looks before and after the old write is announced, and time passes
    .cons (.step rfl) <| .cons (.step rfl) <| .cons (.announce Nat.one_pos) <|
    .cons (.step rfl) <| .cons (.step rfl) <|
    .cons (.tick rfl nofun rfl nofun) <| .cons (.tick rfl nofun rfl nofun) <|
    -- the write about the other key
    .cons (.write rfl) <| .cons (.announce Nat.one_pos) <|
    .cons (.step rfl) <| .cons (.step rfl) <|
    -- the write about his own
    .cons (.write rfl) <| .cons (.announce Nat.one_pos) <|
    .cons (.step rfl) <| .cons (.step rfl) <| .refl _
  have hlaw := (@returns_in_time 5 1 0 2 0 1 "/a" false ⟨5⟩ [.put "/a" []] schedule hschedule).2
  exact ⟨hschedule, _, _, _, _, rfl, hruns, rfl, rfl, rfl, (hlaw _ rfl _ _ hruns).2.2 _ rfl⟩

/-- Not even a wait that is to end at once begins where the clock cannot count up to its deadline.
Here it counts seconds in 63 bits. -/
theorem longest_wait_never_begins :
    arrive? (Nat.pow 2 63 * Span.nanosPerSecond - 1) 0 "/a" false 0
      (Span.ofSeconds (Nat.pow 2 64 - 1)) = none := by
  decide

end Waiter

end EngineCatalog.KeyValue
