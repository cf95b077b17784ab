import EngineCatalog.Proofs.Program.Follows
import EngineCatalog.Retry
import Mathlib.Data.List.Basic
import Mathlib.Data.Nat.Find

/-!
# The course of retrying

What retrying comes to is read off the attempts as they were made, in whatever way each of them
went. Main statement: a run with some exchanges ends with an outcome exactly if the exchanges are
those of attempts with pauses between them, where only the last attempt is final or no more are
allowed, and the outcome is that of the last one; and with whatever attempts there could be, exactly
one number of them is such a course (`run_course`).

* `delay` — the delays between attempts, the first of them being number 0.
* `Round` — an attempt as it was made, and what was added to the delay behind it.
* `IsCourse` — attempts, of which all but the last are followed by another one.
* `Ends` — a program is done with some exchanges, in which what was chosen is within its bounds.
-/

namespace EngineCatalog

/-! ## Exchanges that end a program -/

/-- What is chosen is within its bound. -/
def Exchange.IsFair : Exchange effects → Prop
  | ⟨.choose bound, (chosen : Nat)⟩ => chosen ≤ bound
  | _ => True

/-- The program is done after these exchanges. -/
def Program.Ends {α : Type} (program : Program effects α) (log : List (Exchange effects))
    (result : α) : Prop :=
  program.Follows log (.done result) ∧ ∀ exchange ∈ log, exchange.IsFair

namespace Program

variable {σ : Signature} {α β : Type}

/-- A program that is done goes on with the next one. -/
theorem Follows.bind {program : Program σ α} {f : α → Program σ β} {result : α} {final : β}
    {front back : List (Exchange σ)} (hfront : program.Follows front (.done result))
    (hback : (f result).Follows back (.done final)) :
    (program.bind f).Follows (front ++ back) (.done final) := by
  generalize hlater : Program.done result = later at hfront
  induction hfront with
  | refl program =>
    subst hlater
    exact hback
  | ask request answer _ ih => exact .ask request answer (ih hlater)

variable {program : Program effects α} {log : List (Exchange effects)}

theorem ends_done_iff {result final : α} :
    (done result : Program effects α).Ends log final ↔ log = [] ∧ final = result := by
  constructor
  · rintro ⟨h, -⟩
    obtain ⟨rfl, rfl⟩ := Follows.of_done h
    exact ⟨rfl, rfl⟩
  · rintro ⟨rfl, rfl⟩
    exact ⟨.refl _, nofun⟩

theorem ends_ask_iff {request : Effect} {next : request.Answer → Program effects α} {final : α} :
    (ask (σ := effects) request next).Ends log final ↔
      ∃ answer more, log = ⟨request, answer⟩ :: more ∧
        Exchange.IsFair ⟨request, answer⟩ ∧ (next answer).Ends more final := by
  constructor
  · rintro ⟨h, hfair⟩
    obtain ⟨answer, more, rfl, hmore⟩ := Follows.of_ask h
    obtain ⟨hfirst, hrest⟩ := List.forall_mem_cons.mp hfair
    exact ⟨answer, more, rfl, hfirst, hmore, hrest⟩
  · rintro ⟨answer, more, rfl, hfirst, hmore, hrest⟩
    exact ⟨.ask (σ := effects) request answer hmore, List.forall_mem_cons.mpr ⟨hfirst, hrest⟩⟩

theorem ends_bind_iff {f : α → Program effects β} {final : β} :
    (program.bind f).Ends log final ↔
      ∃ front back result, log = front ++ back ∧ program.Ends front result ∧
        (f result).Ends back final := by
  constructor
  · rintro ⟨h, hfair⟩
    obtain ⟨front, back, result, rfl, hfront, hback⟩ := Follows.of_bind h
    obtain ⟨hfirst, hrest⟩ := List.forall_mem_append.mp hfair
    exact ⟨front, back, result, rfl, ⟨hfront, hfirst⟩, hback, hrest⟩
  · rintro ⟨front, back, result, rfl, ⟨hfront, hfirst⟩, hback, hrest⟩
    exact ⟨hfront.bind hback, List.forall_mem_append.mpr ⟨hfirst, hrest⟩⟩

end Program

namespace Retry

variable {α : Type} {policy : BackoffPolicy} {work : Work α}

/-! ## Attempts -/

/-- The delay behind an attempt, the first one being number 0. -/
def delay (policy : BackoffPolicy) : Nat → Nat
  | 0 => policy.baseMillis
  | k + 1 => min (2 * delay policy k) policy.maxMillis

/-- An attempt as it was made. -/
structure Round (α : Type) where
  /-- the moment at which it began -/
  moment : Nat
  /-- what was asked for in it -/
  asked : List (Exchange effects)
  /-- its outcome, or none if it took too long -/
  tried : Option (Outcome α)
  /-- what was added to the delay behind it, if another one followed -/
  added : Nat

/-- The attempt can go like that. -/
def Round.IsMade (policy : BackoffPolicy) (work : Work α) (round : Round α) : Prop :=
  (Work.within (round.moment + policy.timeoutMillis) false work.run).Ends round.asked round.tried

/-- The exchanges of the attempt. -/
def Round.log (round : Round α) : List (Exchange effects) :=
  ⟨Effect.now, round.moment⟩ :: round.asked

/-- The exchanges between an attempt and the next one. -/
def pauseLog (millis added : Nat) : List (Exchange effects) :=
  [⟨Effect.choose (millis / 10), added⟩, ⟨Effect.sleep (millis + added), ()⟩]

/-- No attempt is made after this outcome of one: it is a success, or an error that is neither
retryable nor one that something is not there. -/
def IsFinal : Option (Outcome α) → Prop
  | some (.ok _) => True
  | some (.error error) => error.isRetryable = false ∧ error.isNotFound = false
  | none => False

/-- What is returned where this is the outcome of the last attempt. -/
def returned (policy : BackoffPolicy) : Option (Outcome α) → Outcome α
  | some outcome => outcome
  | none => .error (.retryTimeout policy.timeout)

theorem judge_of_isFinal {tried : Option (Outcome α)} (h : IsFinal tried) :
    judge policy tried = .ok (returned policy tried) := by
  match tried, h with
  | some (.ok result), _ => rfl
  | some (.error error), ⟨hretryable, hnotFound⟩ =>
    have hmay : mayHelp error = false := by simp [mayHelp, hretryable, hnotFound]
    simp [judge, hmay, returned]

theorem judge_of_not_isFinal (policy : BackoffPolicy) {tried : Option (Outcome α)}
    (h : ¬ IsFinal tried) :
    ∃ error, judge policy tried = .error error ∧ returned policy tried = .error error := by
  match tried, h with
  | some (.ok result), h => exact absurd trivial h
  | some (.error error), h =>
    have hmay : mayHelp error = true := by
      rw [mayHelp, Bool.or_eq_true]
      by_contra hno
      rw [not_or, Bool.not_eq_true, Bool.not_eq_true] at hno
      exact h hno
    exact ⟨error, by simp [judge, hmay], rfl⟩
  | none, _ => exact ⟨.retryTimeout policy.timeout, rfl, rfl⟩

/-- What an attempt asks for, and what it comes to. -/
theorem ends_attemptOnce_iff {log : List (Exchange effects)}
    {verdict : Except Error (Outcome α)} :
    (attemptOnce policy work.run).Ends log verdict ↔
      ∃ round : Round α, round.IsMade policy work ∧ log = round.log ∧
        verdict = judge policy round.tried := by
  rw [attemptOnce, Program.ends_ask_iff]
  simp only [Program.ends_bind_iff, Program.ends_done_iff]
  constructor
  · rintro ⟨moment, more, rfl, -, front, back, tried, rfl, hfront, rfl, rfl⟩
    exact ⟨⟨moment, front, tried, 0⟩, hfront, by rw [List.append_nil]; rfl, rfl⟩
  · rintro ⟨round, hmade, rfl, rfl⟩
    exact ⟨round.moment, round.asked, rfl, trivial, round.asked, [], round.tried,
      (List.append_nil _).symm, hmade, rfl, rfl⟩

theorem ends_pause_iff {millis : Nat} {log : List (Exchange effects)} {result : Unit} :
    (pause millis).Ends log result ↔
      ∃ added, added ≤ millis / 10 ∧ log = pauseLog millis added := by
  rw [pause, Program.ends_ask_iff]
  simp only [Program.ends_ask_iff, Program.ends_done_iff]
  constructor
  · rintro ⟨added, more, rfl, hadded, ⟨⟩, rest, rfl, -, rfl, -⟩
    exact ⟨added, hadded, rfl⟩
  · rintro ⟨added, hadded, rfl⟩
    exact ⟨added, _, rfl, hadded, (), [], rfl, trivial, rfl, trivial⟩

/-! ## Courses of attempts -/

/-- Attempts as they can be made one after the other, the first of them being number `first`, where
`left` of them are allowed. -/
structure IsCourse (policy : BackoffPolicy) (work : Work α) (first left : Nat)
    (rounds : List (Round α)) : Prop where
  /-- each attempt can go like that -/
  made : ∀ round ∈ rounds, round.IsMade policy work
  /-- there are no more than are allowed -/
  length_le : rounds.length ≤ left
  /-- one that is followed by another is not final, and the delay between them is a little longer
  at most than it has to be -/
  again : ∀ k round, k + 1 < rounds.length → rounds[k]? = some round →
    ¬ IsFinal round.tried ∧ round.added ≤ delay policy (first + k) / 10
  /-- there are as many as are allowed, or the last one is final -/
  ended : rounds.length = left ∨ ∃ round, rounds.getLast? = some round ∧ IsFinal round.tried

/-- The exchanges of attempts with the pauses between them. -/
def joined (policy : BackoffPolicy) (first : Nat) : List (Round α) → List (Exchange effects)
  | [] => []
  | [round] => round.log
  | round :: next :: more =>
    round.log ++ pauseLog (delay policy first) round.added
      ++ joined policy (first + 1) (next :: more)

/-- What is returned after some attempts; the error is for the case that there was none. -/
def conclusion (policy : BackoffPolicy) (last : Error) (rounds : List (Round α)) : Outcome α :=
  match rounds.getLast? with
  | some round => returned policy round.tried
  | none => .error last

section Course

variable {first left : Nat} {round : Round α} {rounds : List (Round α)}

theorem isCourse_zero : IsCourse policy work first 0 rounds ↔ rounds = [] := by
  constructor
  · intro h
    exact List.length_eq_zero_iff.mp (Nat.le_zero.mp h.length_le)
  · rintro rfl
    exact ⟨nofun, Nat.le_refl 0, nofun, .inl rfl⟩

theorem not_isCourse_nil : ¬ IsCourse policy work first (left + 1) [] := by
  intro h
  rcases h.ended with hlength | ⟨round, hlast, -⟩
  · cases hlength
  · cases hlast

/-- One attempt is a course if it is final, or no more are allowed. -/
theorem isCourse_single :
    IsCourse policy work first (left + 1) [round] ↔
      round.IsMade policy work ∧ (IsFinal round.tried ∨ left = 0) := by
  constructor
  · intro h
    refine ⟨h.made round List.mem_cons_self, ?_⟩
    rcases h.ended with hlength | ⟨last, hlast, hfinal⟩
    · simp only [List.length_singleton] at hlength
      omega
    · obtain rfl := Option.some.inj hlast
      exact .inl hfinal
  · rintro ⟨hmade, hend⟩
    refine ⟨List.forall_mem_singleton.mpr hmade, by simp, ?_, ?_⟩
    · intro k _ hk
      simp at hk
    · rcases hend with hfinal | rfl
      · exact .inr ⟨round, rfl, hfinal⟩
      · exact .inl rfl

/-- Of more attempts, the first is not final, and the others are a course of their own. -/
theorem isCourse_cons_cons {next : Round α} :
    IsCourse policy work first (left + 1) (round :: next :: rounds) ↔
      round.IsMade policy work ∧ ¬ IsFinal round.tried ∧
        round.added ≤ delay policy first / 10 ∧
        IsCourse policy work (first + 1) left (next :: rounds) := by
  constructor
  · intro h
    obtain ⟨hfirst, hrest⟩ := List.forall_mem_cons.mp h.made
    obtain ⟨hgoes, hadded⟩ := h.again 0 round (by simp) rfl
    refine ⟨hfirst, hgoes, hadded, hrest, ?_, ?_, ?_⟩
    · simpa using h.length_le
    · intro k other hk hother
      have hagain := h.again (k + 1) other (by simpa using hk) hother
      rwa [Nat.add_assoc, Nat.add_comm 1 k]
    · rcases h.ended with hlength | hlast
      · exact .inl (by simpa using hlength)
      · exact .inr hlast
  · rintro ⟨hmade, hgoes, hadded, h⟩
    refine ⟨List.forall_mem_cons.mpr ⟨hmade, h.made⟩, by simpa using h.length_le, ?_, ?_⟩
    · intro k other hk hother
      cases k with
      | zero =>
        obtain rfl := Option.some.inj hother
        exact ⟨hgoes, hadded⟩
      | succ k =>
        have hagain := h.again k other (by simpa using hk) hother
        rwa [Nat.add_assoc, Nat.add_comm 1 k] at hagain
    · rcases h.ended with hlength | hlast
      · exact .inl (by simpa using hlength)
      · exact .inr hlast

/-- One step of retrying: an attempt, and nothing more if it is final or the last one; else a pause
and the rest. -/
theorem ends_loop_succ_iff {last : Error} {log : List (Exchange effects)} {outcome : Outcome α} :
    (loop policy work.run (left + 1) (delay policy first) last).Ends log outcome ↔
      ∃ round : Round α, round.IsMade policy work ∧
        ((IsFinal round.tried ∨ left = 0) ∧ log = round.log ∧
            outcome = returned policy round.tried ∨
          ¬ IsFinal round.tried ∧ left ≠ 0 ∧ round.added ≤ delay policy first / 10 ∧
            ∃ rest error, log = round.log ++ pauseLog (delay policy first) round.added ++ rest ∧
              (loop policy work.run left (delay policy (first + 1)) error).Ends rest outcome) := by
  have hnext : nextDelay policy (delay policy first) = delay policy (first + 1) := by
    rw [nextDelay, delay, Nat.mul_comm]
  rw [loop, Program.ends_bind_iff]
  constructor
  · rintro ⟨front, back, verdict, rfl, hfront, hback⟩
    obtain ⟨round, hmade, rfl, rfl⟩ := ends_attemptOnce_iff.mp hfront
    by_cases hfinal : IsFinal round.tried
    · rw [judge_of_isFinal hfinal] at hback
      obtain ⟨rfl, rfl⟩ := Program.ends_done_iff.mp hback
      exact ⟨round, hmade, .inl ⟨.inl hfinal, List.append_nil _, rfl⟩⟩
    · obtain ⟨error, hjudge, hreturned⟩ := judge_of_not_isFinal policy hfinal
      rw [hjudge] at hback
      change Program.Ends (if left = 0 then _ else _) _ _ at hback
      by_cases hleft : left = 0
      · rw [if_pos hleft] at hback
        obtain ⟨rfl, rfl⟩ := Program.ends_done_iff.mp hback
        exact ⟨round, hmade, .inl ⟨.inr hleft, List.append_nil _, hreturned.symm⟩⟩
      · rw [if_neg hleft, hnext, Program.ends_bind_iff] at hback
        obtain ⟨paused, rest, ⟨⟩, rfl, hpause, hrest⟩ := hback
        obtain ⟨added, hadded, rfl⟩ := ends_pause_iff.mp hpause
        exact ⟨{ round with added := added }, hmade, .inr ⟨hfinal, hleft, hadded, rest, error,
          (List.append_assoc _ _ _).symm, hrest⟩⟩
  · rintro ⟨round, hmade, ⟨hend, rfl, rfl⟩ | ⟨hgoes, hleft, hadded, rest, error, rfl, hrest⟩⟩
    · refine ⟨round.log, [], _, (List.append_nil _).symm,
        ends_attemptOnce_iff.mpr ⟨round, hmade, rfl, rfl⟩, ?_⟩
      by_cases hfinal : IsFinal round.tried
      · rw [judge_of_isFinal hfinal]
        exact Program.ends_done_iff.mpr ⟨rfl, rfl⟩
      · obtain ⟨error, hjudge, hreturned⟩ := judge_of_not_isFinal policy hfinal
        rw [hjudge]
        change Program.Ends (if left = 0 then _ else _) _ _
        rw [if_pos (hend.resolve_left hfinal)]
        exact Program.ends_done_iff.mpr ⟨rfl, hreturned⟩
    · obtain ⟨failure, hjudge, -⟩ := judge_of_not_isFinal policy hgoes
      refine ⟨round.log, _, _, List.append_assoc _ _ _,
        ends_attemptOnce_iff.mpr ⟨round, hmade, rfl, rfl⟩, ?_⟩
      rw [hjudge]
      change Program.Ends (if left = 0 then _ else _) _ _
      rw [if_neg hleft, hnext, Program.ends_bind_iff]
      -- the error of this attempt is forgotten, as another one follows
      refine ⟨_, rest, (), rfl, ends_pause_iff.mpr ⟨round.added, hadded, rfl⟩, ?_⟩
      obtain ⟨left, rfl⟩ := Nat.exists_eq_succ_of_ne_zero hleft
      exact hrest

/-- The rest of a retrying ends with some exchanges exactly if they are those of a course, and with
the outcome of its last attempt. -/
theorem ends_loop_iff {last : Error} {log : List (Exchange effects)} {outcome : Outcome α} :
    (loop policy work.run left (delay policy first) last).Ends log outcome ↔
      ∃ rounds, IsCourse policy work first left rounds ∧ log = joined policy first rounds ∧
        outcome = conclusion policy last rounds := by
  induction left generalizing first last log with
  | zero =>
    simp only [loop, Program.ends_done_iff, isCourse_zero]
    constructor
    · rintro ⟨rfl, rfl⟩
      exact ⟨[], rfl, rfl, rfl⟩
    · rintro ⟨rounds, rfl, rfl, rfl⟩
      exact ⟨rfl, rfl⟩
  | succ left ih =>
    rw [ends_loop_succ_iff]
    constructor
    · rintro ⟨round, hmade, ⟨hend, rfl, rfl⟩ | ⟨hgoes, hleft, hadded, rest, error, rfl, hrest⟩⟩
      · exact ⟨[round], isCourse_single.mpr ⟨hmade, hend⟩, rfl, rfl⟩
      · obtain ⟨rounds, hcourse, rfl, rfl⟩ := ih.mp hrest
        obtain ⟨left, rfl⟩ := Nat.exists_eq_succ_of_ne_zero hleft
        cases rounds with
        | nil => exact absurd hcourse not_isCourse_nil
        | cons next more =>
          exact ⟨round :: next :: more, isCourse_cons_cons.mpr ⟨hmade, hgoes, hadded, hcourse⟩,
            rfl, rfl⟩
    · rintro ⟨rounds, hcourse, rfl, rfl⟩
      match rounds, hcourse with
      | [], hcourse => exact absurd hcourse not_isCourse_nil
      | [round], hcourse =>
        obtain ⟨hmade, hend⟩ := isCourse_single.mp hcourse
        exact ⟨round, hmade, .inl ⟨hend, rfl, rfl⟩⟩
      | round :: next :: more, hcourse =>
        obtain ⟨hmade, hgoes, hadded, hrest⟩ := isCourse_cons_cons.mp hcourse
        have hleft : left ≠ 0 := by
          rintro rfl
          exact absurd (isCourse_zero.mp hrest) (List.cons_ne_nil _ _)
        exact ⟨round, hmade, .inr ⟨hgoes, hleft, hadded, _, last, rfl,
          ih.mpr ⟨next :: more, hrest, rfl, rfl⟩⟩⟩

/-- Of all the attempts that there could be, exactly one number of them is a course. -/
theorem existsUnique_isCourse (rounds : Nat → Round α) (left : Nat)
    (hmade : ∀ k, (rounds k).IsMade policy work)
    (hadded : ∀ k, (rounds k).added ≤ delay policy k / 10) :
    ∃! n, IsCourse policy work 0 left ((List.range n).map rounds) := by
  have hlast : ∀ n, ((List.range (n + 1)).map rounds).getLast? = some (rounds n) := by
    intro n
    simp [List.range_succ]
  have hget : ∀ {n k : Nat} {round : Round α}, k < n →
      ((List.range n).map rounds)[k]? = some round → rounds k = round := by
    intro n k round hk h
    simpa [hk] using h
  -- the last attempt is the first one after which no other is made
  have hstop : ∃ n, n = left ∨ ∃ k, n = k + 1 ∧ IsFinal (rounds k).tried := ⟨left, .inl rfl⟩
  classical
  refine ⟨Nat.find hstop, ⟨?_, ?_, ?_, ?_⟩, ?_⟩
  · intro round hround
    obtain ⟨k, -, rfl⟩ := List.mem_map.mp hround
    exact hmade k
  · rw [List.length_map, List.length_range]
    exact Nat.find_min' hstop (.inl rfl)
  · intro k round hk hround
    rw [List.length_map, List.length_range] at hk
    obtain rfl := hget (by omega) hround
    rw [Nat.zero_add]
    refine ⟨fun hfinal => ?_, hadded k⟩
    exact Nat.find_min hstop hk (.inr ⟨k, rfl, hfinal⟩)
  · rcases Nat.find_spec hstop with hleft | ⟨k, hk, hfinal⟩
    · rw [List.length_map, List.length_range]
      exact .inl hleft
    · rw [hk, hlast]
      exact .inr ⟨rounds k, rfl, hfinal⟩
  · intro n hcourse
    have hle := hcourse.length_le
    rw [List.length_map, List.length_range] at hle
    have hends : n = left ∨ ∃ k, n = k + 1 ∧ IsFinal (rounds k).tried := by
      rcases hcourse.ended with hlength | ⟨round, hround, hfinal⟩
      · exact .inl (by simpa using hlength)
      · cases n with
        | zero => cases hround
        | succ k =>
          rw [hlast] at hround
          obtain rfl := Option.some.inj hround
          exact .inr ⟨k, rfl, hfinal⟩
    refine Eq.symm ((Nat.find_eq_iff hstop).mpr ⟨hends, fun m hm => ?_⟩)
    rintro (rfl | ⟨k, rfl, hfinal⟩)
    · omega
    · have hk : ((List.range n).map rounds)[k]? = some (rounds k) := by
        rw [List.getElem?_map, List.getElem?_range (by omega)]
        rfl
      exact (hcourse.again k (rounds k) (by simpa using hm) hk).1 hfinal

end Course

/-! ## Words -/

/-- The numbers of the policy are 64-bit words. -/
structure IsWords (policy : BackoffPolicy) : Prop where
  /-- so is the time that an attempt may take -/
  timeout : policy.timeoutMillis < Nat.pow 2 64
  /-- the first delay -/
  base : policy.baseMillis < Nat.pow 2 64
  /-- and the longest one -/
  longest : policy.maxMillis < Nat.pow 2 64

/-- The delays are 64-bit words, too. -/
theorem IsWords.delay_lt (h : IsWords policy) (k : Nat) : delay policy k < Nat.pow 2 64 := by
  cases k with
  | zero => exact h.base
  | succ k => exact Nat.lt_of_le_of_lt (Nat.min_le_right _ _) h.longest

/-- A span of few enough milliseconds exists: there are a thousand of them in a second. -/
theorem fits_ofMillis {millis : Nat} (h : millis < 1000 * Nat.pow 2 64) :
    (Span.ofMillis millis).fits = true := by
  have h64 : Nat.pow 2 64 = 18446744073709551616 := rfl
  refine Span.fits_iff.mpr ?_
  change millis * 1000000 < Nat.pow 2 64 * 1000000000
  omega

theorem add?_ofMillis {millis more : Nat} (h : millis + more < 1000 * Nat.pow 2 64) :
    (Span.ofMillis millis).add? (.ofMillis more) = some (.ofMillis (millis + more)) := by
  refine Span.add?_eq_some_iff.mpr ⟨?_, fits_ofMillis h⟩
  simp only [Span.ofMillis, Nat.add_mul]

/-- **The law of retrying.** Retrying ends with some exchanges exactly if they are those of attempts
with pauses between them, of which the last one is final or there are as many as are allowed, and
the outcome is that of the last attempt, or an error of its own where no attempt is allowed. With
whatever attempts there could be, exactly one number of them makes a course. And with 64-bit words
for its numbers, all spans of time that are added up exist. -/
theorem run_course (policy : BackoffPolicy) (work : Work α) (h : IsWords policy) :
    (∀ log outcome, (run policy work).run.Ends log outcome ↔
      ∃ rounds, IsCourse policy work 0 policy.attempts rounds ∧ log = joined policy 0 rounds ∧
        outcome = conclusion policy noAttempt rounds) ∧
    (∀ rounds : Nat → Round α, (∀ k, (rounds k).IsMade policy work) →
      (∀ k, (rounds k).added ≤ delay policy k / 10) →
        ∃! n, IsCourse policy work 0 policy.attempts ((List.range n).map rounds)) ∧
    policy.timeout.fits = true ∧ ∀ k added, added ≤ delay policy k / 10 →
      delay policy k < Nat.pow 2 64 ∧
      (Span.ofMillis (delay policy k)).add? (.ofMillis (delay policy k))
        = some (.ofMillis (2 * delay policy k)) ∧
      (Span.ofMillis (delay policy k)).add? (.ofMillis added)
        = some (.ofMillis (delay policy k + added)) := by
  have hrun : ∀ log outcome, (run policy work).run.Ends log outcome ↔
      (loop policy work.run policy.attempts (delay policy 0) noAttempt).Ends log outcome :=
    fun _ _ => Iff.rfl
  refine ⟨fun log outcome => (hrun log outcome).trans ends_loop_iff,
    fun rounds => existsUnique_isCourse rounds _,
    fits_ofMillis (Nat.lt_of_lt_of_le h.timeout (by decide)), fun k added hadded => ?_⟩
  have h64 : Nat.pow 2 64 = 18446744073709551616 := rfl
  have hdelay := h.delay_lt k
  refine ⟨hdelay, ?_, add?_ofMillis (by omega)⟩
  rw [Nat.two_mul]
  exact add?_ofMillis (by omega)

/-- An attempt to tell the moment takes too long, or it does not. -/
theorem ends_within_now_iff {moment : Nat} {log : List (Exchange effects)}
    {tried : Option (Outcome Nat)} :
    (Work.within moment false Work.now.run).Ends log tried ↔
      ∃ answer : Option Nat, log = [⟨Effect.until moment .now, answer⟩] ∧
        tried = answer.map .ok := by
  let next : Option Nat → Program effects (Option (Outcome Nat)) := fun answer =>
    .done (answer.map .ok)
  have hwithin : Work.within moment false Work.now.run
      = .ask (σ := effects) (Effect.until moment .now) next := by
    rw [Work.within.eq_def]
    refine congrArg (Program.ask (σ := effects) (Effect.until moment .now)) (funext ?_)
    rintro (_ | answer)
    · rfl
    · change Work.within moment false (.done (Except.ok answer)) = _
      rw [Work.within.eq_def]
      rfl
  rw [hwithin, Program.ends_ask_iff]
  simp only [next, Program.ends_done_iff]
  constructor
  · rintro ⟨answer, more, rfl, -, rfl, rfl⟩
    exact ⟨answer, rfl, rfl⟩
  · rintro ⟨answer, rfl, rfl⟩
    exact ⟨answer, [], rfl, trivial, rfl, rfl⟩

/-- A policy with the longest delays that there are. -/
def longest : BackoffPolicy := ⟨2, 100, Nat.pow 2 64 - 1, Nat.pow 2 64 - 1⟩

/-- An attempt that takes too long, and one that succeeds. -/
def late : List (Round Nat) := [
  ⟨5, [⟨Effect.until 105 .now, (none : Option Nat)⟩], none, 7⟩,
  ⟨9, [⟨Effect.until 109 .now, some (10 : Nat)⟩], some (.ok 10), 0⟩]

/-- They are a course, between them is the longest delay, and the success is returned. -/
theorem run_course_late :
    IsWords longest ∧ (run longest Work.now).run.Ends (joined longest 0 late) (.ok 10) ∧
      joined longest 0 late = [
        ⟨Effect.now, (5 : Nat)⟩, ⟨Effect.until 105 .now, (none : Option Nat)⟩,
        ⟨Effect.choose ((Nat.pow 2 64 - 1) / 10), (7 : Nat)⟩, ⟨Effect.sleep (Nat.pow 2 64 + 6), ()⟩,
        ⟨Effect.now, (9 : Nat)⟩, ⟨Effect.until 109 .now, some (10 : Nat)⟩] := by
  have hwords : IsWords longest := ⟨by decide, by decide, by decide⟩
  have hcourse : IsCourse longest Work.now 0 longest.attempts late := by
    refine isCourse_cons_cons.mpr ⟨?_, id, by decide, isCourse_single.mpr ⟨?_, .inl trivial⟩⟩
    · exact ends_within_now_iff.mpr ⟨none, rfl, rfl⟩
    · exact ends_within_now_iff.mpr ⟨some 10, rfl, rfl⟩
  exact ⟨hwords, ((run_course longest Work.now hwords).1 _ _).mpr ⟨late, hcourse, rfl, rfl⟩, rfl⟩

end Retry

end EngineCatalog
