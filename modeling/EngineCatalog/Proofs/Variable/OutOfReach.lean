import EngineCatalog.Proofs.Variable.Conceal

/-!
# Foreign secrets

Secrets that do not carry the label of the catalog are not listed, but a call by name takes a secret
as it comes. So they are out of reach just as long as nobody is given their names
(`Coordinator.hidden_iff`); whoever is, reads and changes them like any other
(`Coordinator.foreign_read_and_changed`).

* `Coordinator.doing` — jobs with their deeds, over what they share.
* `Nears` — by itself, a program comes to a call of a secret by its name.
-/

namespace EngineCatalog

open KeyValue (Store)
open Secret (Data Label Removal Stored Vault)

/-! ## Secrets of others -/

/-- The label of another owner. -/
def Secret.Label.other (label : Label) : Label := ⟨label.key ++ "+", label.value⟩

theorem Secret.Label.other_ne (label : Label) : label.other ≠ label := by
  intro heq
  have hlength := congrArg (fun label => label.key.length) heq
  simp [other] at hlength

namespace Shared

/-- One secret is there, and nobody holds the lock. -/
def only (name : String) (stored : Stored) : Shared :=
  ⟨Store.fresh Store.usualLimit, ⟨Dict.empty.insert name stored⟩, none, [], []⟩

theorem find?_only (name : String) (stored : Stored) :
    (only name stored).vault.secrets.find? name = some stored :=
  Dict.find?_insert_self _ _ _

theorem foreign_only {label : Label} {stored : Stored} (h : stored.label ≠ label)
    (name : String) : Foreign label name (only name stored) :=
  ⟨⟨stored, find?_only name stored, h⟩, nofun⟩

end Shared

/-! ## Calls by name -/

/-- The call reads or changes a secret by its name. -/
def Secret.Call.Names (name : String) : Secret.Call → Prop
  | .read other | .add other _ _ | .update other _ | .remove other _ => other = name
  | _ => False

/-- The effect reads or changes a secret by its name. -/
def Effect.Names (name : String) : Effect → Prop
  | .secrets call => call.Names name
  | .until _ effect => effect.Names name
  | _ => False

namespace Secret.Vault

variable {vault : Vault} {name : String} {label : Label}

/-- What a secret holds at first, to see what becomes of it. -/
def probe : Data := Dict.ofList [("first", "")]

/-- What it is to hold instead. -/
def decoy : Data := Dict.ofList [("second", "")]

theorem decoy_ne : decoy ≠ probe := by decide

theorem union_decoy_ne (values : Data) : decoy.union values ≠ probe := by
  intro heq
  have hsecond : (decoy.union values).contains "second" = true :=
    Dict.contains_union.mpr (.inr (by decide))
  rw [heq] at hsecond
  revert hsecond
  decide

theorem filter_decoy_ne (keep : String → String → Bool) : decoy.filter keep ≠ probe := by
  intro heq
  have hfirst : (decoy.filter keep).find? "first" = none := by
    rw [Dict.find?_filter]
    rfl
  rw [heq] at hfirst
  revert hfirst
  decide

/-- A change either shows in the secret, or its answer tells what the secret holds. -/
theorem modify_tells (h : vault.secrets.find? name = some ⟨label, probe⟩) (change : Data → Data)
    (hchange : change decoy ≠ probe) :
    (vault.modify name change).2.secrets.find? name ≠ vault.secrets.find? name ∨
      ∃ data, (vault.modify name change).1 = .ok data ∧
        ((vault.conceal name decoy).modify name change).1 ≠ .ok data := by
  by_cases hsame : change probe = probe
  · refine .inr ⟨probe, ?_, ?_⟩
    · rw [modify, h]
      exact congrArg Except.ok hsame
    · rw [modify, find?_conceal_self h]
      exact fun heq => hchange (Except.ok.inj heq)
  · refine .inl ?_
    rw [modify, h, Dict.find?_insert_self]
    exact fun heq => hsame (congrArg Stored.data (Option.some.inj heq))

/-- A call by name either shows in the secret, or its answer tells what the secret holds. -/
theorem answer_tells {call : Call} (hnames : call.Names name)
    (h : vault.secrets.find? name = some ⟨label, probe⟩) :
    (vault.answer call).2.secrets.find? name ≠ vault.secrets.find? name ∨
      ((vault.conceal name decoy).answer call).1 ≠ (vault.answer call).1 ∧
        ∀ error, call.failure error ≠ (vault.answer call).1 := by
  -- the calls that change secrets are one and the same here
  have hmodify : ∀ change : Data → Data, change decoy ≠ probe →
      (vault.modify name change).2.secrets.find? name ≠ vault.secrets.find? name ∨
        ((vault.conceal name decoy).modify name change).1 ≠ (vault.modify name change).1 ∧
          ∀ error, (.error error : Outcome Data) ≠ (vault.modify name change).1 := by
    intro change hchange
    refine (modify_tells h change hchange).imp id ?_
    rintro ⟨data, hanswer, hother⟩
    refine ⟨hanswer ▸ hother, fun error heq => ?_⟩
    rw [hanswer] at heq
    cases heq
  cases call with
  | read other =>
    obtain rfl : other = name := hnames
    refine .inr ⟨?_, fun error heq => ?_⟩
    · rw [answer, answer, read, read, find?_conceal_self h, h]
      exact fun heq => decoy_ne (Option.some.inj (Except.ok.inj heq))
    · cases heq
  | add other values initial =>
    obtain rfl : other = name := hnames
    exact hmodify _ (union_decoy_ne values)
  | update other values =>
    obtain rfl : other = name := hnames
    exact hmodify _ (union_decoy_ne values)
  | remove other keys =>
    obtain rfl : other = name := hnames
    exact hmodify _ (filter_decoy_ne _)
  | list other => cases hnames
  | create other label contents => cases hnames

end Secret.Vault

/-- An effect by name can be answered so that it shows in the secret, or that the answer tells what
the secret holds. -/
theorem Answers.tells (faulty : Bool) (job : Nat) {effect : Effect} {name : String} {label : Label}
    {before : Shared} (hnames : effect.Names name)
    (h : before.vault.secrets.find? name = some ⟨label, Vault.probe⟩) :
    ∃ answer after, Answers faulty job effect before answer after ∧
      (after.vault.secrets.find? name ≠ before.vault.secrets.find? name ∨
        ∀ later, ¬ Answers faulty job effect (before.conceal name Vault.decoy) answer later) := by
  induction effect with
  | secrets call =>
    refine ⟨(before.vault.answer call).1, _, .inl ⟨rfl, rfl⟩, ?_⟩
    refine (Vault.answer_tells hnames h).imp id ?_
    rintro ⟨hother, hfailure⟩ later (⟨heq, -⟩ | ⟨-, -, error, heq⟩)
    · exact hother heq.symm
    · exact hfailure error heq.symm
  | «until» moment effect ih =>
    obtain ⟨answer, after, hanswers, htells⟩ := ih hnames
    exact ⟨some answer, after, hanswers, htells⟩
  | _ => cases hnames

/-! ## Coming to a call by name -/

/-- By itself, the program comes to a call of a secret by its name before it changes any secret. -/
def Nears (faulty : Bool) (job : Nat) (name : String) {α : Type} (before : Shared)
    (program : Program effects α) : Prop :=
  ∃ (effect : Effect) (next : effect.Answer → Program effects α) (after : Shared),
    Runs faulty job program before (.ask (σ := effects) effect next) after ∧
      effect.Names name ∧ after.vault = before.vault

namespace Nears

variable {faulty : Bool} {job : Nat} {name : String} {α β : Type} {s t : Shared}

theorem ask {effect : Effect} {next : effect.Answer → Program effects α}
    (h : effect.Names name) : Nears faulty job name s (.ask (σ := effects) effect next) :=
  ⟨effect, next, s, .refl _ _, h, rfl⟩

theorem step {effect : Effect} {next : effect.Answer → Program effects α} (answer : effect.Answer)
    (hanswers : Answers faulty job effect s answer t) (hvault : t.vault = s.vault)
    (h : Nears faulty job name t (next answer)) :
    Nears faulty job name s (.ask (σ := effects) effect next) := by
  obtain ⟨last, rest, after, hruns, hnames, hsame⟩ := h
  exact ⟨last, rest, after, .step effect answer hanswers hruns, hnames, hsame.trans hvault⟩

theorem bind {program : Program effects α} {f : α → Program effects β}
    (h : Nears faulty job name s program) : Nears faulty job name s (program.bind f) := by
  obtain ⟨effect, next, after, hruns, hnames, hsame⟩ := h
  exact ⟨effect, fun answer => (next answer).bind f, after, hruns.bind f, hnames, hsame⟩

theorem locked {work : Work α} (hfree : s.holder = none)
    (h : Nears faulty job name { s with holder := some job } work.run) :
    Nears faulty job name s (Work.locked work).run := by
  have hanswers : Answers faulty job .lock s () { s with holder := some job } := ⟨hfree, rfl⟩
  exact Nears.step () hanswers rfl h.bind

/-- The first effect of a program can be one by name, also if it is given up at a moment. -/
theorem within {program : Program effects α} {effect : Effect}
    {next : effect.Answer → Program effects α}
    (hprogram : program = .ask (σ := effects) effect next) (h : effect.Names name) (moment : Nat)
    (held : Bool) :
    Nears faulty job name s (Work.within moment held program) := by
  rw [hprogram, Runs.within_ask]
  exact Nears.ask h

theorem of_ok {result : β} {f : β → Work α} (h : Nears faulty job name s (f result).run) :
    Nears faulty job name s (Operation.ofOutcome (.ok result) >>= f).run := h

/-! ### Operations -/

variable {coordinator : Coordinator} {secret : String}

theorem data (strict : Bool) : Nears faulty job name s (Keeper.data name strict).run :=
  Nears.bind (Nears.ask rfl)

theorem names (hfree : s.holder = none) (hsecret : coordinator.keeper.resolve secret = name)
    (strict : Bool) : Nears faulty job name s (coordinator.names secret strict).run := by
  subst hsecret
  exact Nears.locked hfree (Nears.bind (Nears.data strict))

theorem defaultNames (hfree : s.holder = none) (strict : Bool) :
    Nears faulty job coordinator.keeper.defaultName s (coordinator.defaultNames strict).run :=
  Nears.names hfree (coordinator.keeper.resolve_defaultName) strict

theorem addVariables (hfree : s.holder = none)
    (hsecret : coordinator.keeper.resolve secret = name) {values : Dict String}
    (hsome : values.isEmpty = false) (imported : Bool) :
    Nears faulty job name s (coordinator.addVariables secret values imported).run := by
  subst hsecret
  rw [Coordinator.addVariables, if_neg (Bool.eq_false_iff.mp hsome)]
  exact Nears.bind (Nears.locked hfree (Nears.bind (Nears.data true)))

theorem updateVariables (hfree : s.holder = none)
    (hsecret : coordinator.keeper.resolve secret = name) (values : Dict (Option String)) :
    Nears faulty job name s (coordinator.updateVariables secret values).run := by
  subst hsecret
  exact Nears.bind (Nears.locked hfree (Nears.bind (Nears.data true)))

theorem deleteVariables (hfree : s.holder = none)
    (hsecret : coordinator.keeper.resolve secret = name) {names : Names}
    (hsome : names.isEmpty = false) (logged : Bool) :
    Nears faulty job name s (coordinator.deleteVariables secret names logged).run := by
  subst hsecret
  rw [Coordinator.deleteVariables, if_neg (Bool.eq_false_iff.mp hsome)]
  exact Nears.bind (Nears.locked hfree (Nears.bind (Nears.data true)))

theorem addCommon (hfree : s.holder = none) {one value : String}
    (hformed : Variable.isWellFormed one = true) :
    Nears faulty job coordinator.keeper.defaultName s (coordinator.addCommon one value).run := by
  rw [Coordinator.addCommon, Variable.checkWellFormed, if_pos hformed]
  exact Nears.of_ok (Nears.bind (Nears.defaultNames hfree false))

theorem addCommons (hfree : s.holder = none) {values : Dict String}
    (hsome : values.isEmpty = false) (imported : Bool) :
    Nears faulty job coordinator.keeper.defaultName s
      (coordinator.addCommons values imported).run := by
  rw [Coordinator.addCommons, if_neg (Bool.eq_false_iff.mp hsome)]
  exact Nears.bind (Nears.defaultNames hfree false)

/-- An attempt begins with a look at the default secret. -/
theorem restoreDefaults (hattempts : 0 < coordinator.restorePolicy.attempts)
    (values : Dict String) :
    Nears faulty job coordinator.keeper.defaultName s (coordinator.restoreDefaults values).run := by
  rw [Coordinator.restoreDefaults, Retry.run]
  obtain ⟨more, hmore⟩ := Nat.exists_eq_succ_of_ne_zero (Nat.ne_of_gt hattempts)
  rw [hmore]
  have hnow : Answers faulty job .now s (0 : Nat) s := rfl
  have hfirst : (coordinator.restoreOnce values).run
      = .ask (σ := effects) (.secrets (.read coordinator.keeper.defaultName)) _ := rfl
  exact Nears.step (0 : Nat) hnow rfl (Nears.bind (Nears.bind (Nears.within hfirst rfl _ _)))

end Nears

/-- Where nobody holds the lock, a task comes to a call of each secret within its reach. -/
theorem Task.nears {coordinator : Coordinator} {faulty : Bool} {job : Nat} {name : String}
    {s : Shared} {task : Task} (hfree : s.holder = none) (h : name ∈ task.reach coordinator) :
    Nears faulty job name s (task.program coordinator) := by
  have hdefault := coordinator.keeper.resolve_defaultName
  cases task with
  | names secret strict =>
    obtain rfl : name = coordinator.keeper.resolve secret := h
    exact Nears.bind (Nears.names hfree rfl strict)
  | defaultNames strict =>
    obtain rfl : name = coordinator.keeper.defaultName := h
    exact Nears.bind (Nears.defaultNames hfree strict)
  | add secret values imported =>
    obtain ⟨hsome, rfl⟩ := h
    exact Nears.bind (Nears.addVariables hfree rfl hsome imported)
  | addDefaults values =>
    obtain ⟨hsome, rfl⟩ := h
    exact Nears.bind (Nears.addVariables hfree hdefault hsome false)
  | importVariables values =>
    obtain ⟨hsome, rfl⟩ := h
    exact Nears.bind (Nears.addVariables hfree hdefault hsome true)
  | update secret values =>
    obtain rfl : name = coordinator.keeper.resolve secret := h
    exact Nears.bind (Nears.updateVariables hfree rfl values)
  | updateDefault one value =>
    obtain rfl : name = coordinator.keeper.defaultName := h
    exact Nears.bind (Nears.bind (Nears.updateVariables hfree hdefault _))
  | delete secret keys logged =>
    obtain ⟨hsome, rfl⟩ := h
    exact Nears.bind (Nears.deleteVariables hfree rfl hsome logged)
  | deleteDefaults keys =>
    obtain ⟨hsome, rfl⟩ := h
    exact Nears.bind (Nears.deleteVariables hfree hdefault hsome true)
  | addCommon one value =>
    obtain ⟨hformed, rfl⟩ := h
    exact Nears.bind (Nears.addCommon hfree hformed)
  | addCommons values imported =>
    obtain ⟨hsome, rfl⟩ := h
    exact Nears.bind (Nears.addCommons hfree hsome imported)
  | restore values =>
    obtain ⟨hattempts, rfl⟩ := h
    exact Nears.bind (Nears.restoreDefaults hattempts values)
  | _ => cases h

/-! ## What is not hidden -/

/-- Where a secret is hidden, each of the moves can be made whatever the secret holds. -/
theorem Hidden.moves_of_mem {faulty : Bool} {owners : List Nat} {system later : System}
    {name : String} {moves : List Move} (h : Hidden faulty owners system name moves later)
    (move : Move) (hmem : move ∈ moves) (data : Data) :
    ∃ owners before after, System.Moves faulty owners before (move.conceal name data) after :=
  (h.blind data).moves_of_mem _ (List.mem_map_of_mem hmem)

/-- A job that comes to a call by name need not keep the secret hidden. -/
theorem Nears.not_hidden {faulty : Bool} {job : Nat} {name : String} {label : Label}
    {system : System} {program : Program effects Unit} (owners : List Nat)
    (h : Nears faulty job name system.shared program) (hjob : system.jobs[job]? = some program)
    (hstored : system.shared.vault.secrets.find? name = some ⟨label, Vault.probe⟩) :
    ∃ moves later, Trace faulty owners system moves later ∧
      ¬ Hidden faulty owners system name moves later := by
  obtain ⟨effect, next, between, hruns, hnames, hvault⟩ := h
  rw [← hvault] at hstored
  obtain ⟨answer, after, hanswers, htells⟩ := Answers.tells faulty job hnames hstored
  -- the job comes to the call, and is answered
  rw [← program.bind_pure] at hjob
  obtain ⟨moves, htrace, -, -⟩ := hruns.trace .done hjob owners
  let last : Move := ⟨job, some ⟨effect, answer⟩, between, after⟩
  have hlt : job < system.jobs.length := (List.getElem?_eq_some_iff.mp hjob).1
  have hlast := @System.Moves.answered faulty (moves.foldl Move.owners owners) ⟨between, _⟩ job
    effect (fun answer => (next answer).bind .done) answer after (List.getElem?_set_self hlt)
    hanswers
  refine ⟨moves ++ [last], _, htrace.append (.cons hlast (.nil _ _)), fun hhidden => ?_⟩
  rcases htells with hchanged | hblind
  · exact hchanged (hhidden.same.trans (by rw [hvault]))
  · obtain ⟨_, _, _, hmove⟩ := hhidden.moves_of_mem last
      (List.mem_append_right _ List.mem_cons_self) Vault.decoy
    exact hblind _ (hmove.answers rfl)

/-- What comes of a removal is what its secret holds then. -/
theorem System.Moves.comes {faulty : Bool} {owners : List Nat} {system later : System}
    {move : Move} (h : System.Moves faulty owners system move later)
    (hnone : move.exchange = none) :
    ∃ ticket started removal vault, move.before.started[ticket]? = some started ∧
      Comes faulty started move.before.vault removal vault ∧
      move.after = move.before.settle ticket started removal vault := by
  cases h with
  | answered _ _ => cases hnone
  | removed _ hstarted _ hcomes => exact ⟨_, _, _, _, hstarted, hcomes, rfl⟩

theorem Secret.Vault.finish_eq_done {vault : Vault} {name : String} {keys : Names} {rest : Data} :
    (vault.finish name keys).1 = .done rest ↔ (vault.remove name keys).1 = .ok rest := by
  rw [finish]
  generalize vault.remove name keys = removed
  obtain ⟨outcome, after⟩ := removed
  cases outcome with
  | ok other => exact ⟨fun h => congrArg Except.ok (Removal.done.inj h),
      fun h => congrArg Removal.done (Except.ok.inj h)⟩
  | error error =>
    constructor
    · intro h
      cases h
    · intro h
      cases h

/-- A removal that is started from a secret tells what is left in it, if it does not show there. -/
theorem not_hidden_startRemoval {faulty : Bool} {job : Nat} {name : String} {label : Label}
    {keys : Names} {system : System} {next : Outcome Nat → Program effects Unit}
    (hjob : system.jobs[job]? = some (.ask (σ := effects) (.startRemoval name keys) next))
    (hnone : system.shared.started = [])
    (hstored : system.shared.vault.secrets.find? name = some ⟨label, Vault.probe⟩) :
    ∃ moves later, Trace faulty [] system moves later ∧
      ¬ Hidden faulty [] system name moves later := by
  let one : Started := ⟨name, keys, none⟩
  let issued : Shared := { system.shared with started := [one] }
  let first : Move := ⟨job, some ⟨.startRemoval name keys, .ok 0⟩, system.shared, issued⟩
  have hfirst : System.Moves faulty [] system first
      ⟨issued, system.jobs.set job (next (.ok 0))⟩ := by
    refine @System.Moves.answered faulty [] system job (.startRemoval name keys) next (.ok 0) issued
      hjob (.inl ⟨?_, ?_⟩)
    · rw [hnone]
      rfl
    · rw [hnone]
      rfl
  let come := issued.vault.finish name keys
  let last : Move := ⟨job, none, issued, issued.settle 0 one come.1 come.2⟩
  have hlast : System.Moves faulty [job] ⟨issued, system.jobs.set job (next (.ok 0))⟩ last
      ⟨issued.settle 0 one come.1 come.2, system.jobs.set job (next (.ok 0))⟩ :=
    @System.Moves.removed faulty [job] ⟨issued, _⟩ job 0 one come.1 come.2 rfl rfl rfl (.inl rfl)
  refine ⟨[first, last], _, .cons hfirst (.cons hlast (.nil _ _)), fun hhidden => ?_⟩
  rcases Vault.modify_tells hstored (fun current => current.filter fun key _ => !keys.contains key)
    (Vault.filter_decoy_ne _) with hchanged | ⟨rest, hrest, hother⟩
  · refine hchanged (Eq.trans ?_ hhidden.same)
    change _ = come.2.secrets.find? name
    rw [Vault.finish_snd]
    rfl
  · obtain ⟨_, _, _, hmove⟩ := hhidden.moves_of_mem last
      (List.mem_cons_of_mem _ List.mem_cons_self) Vault.decoy
    obtain ⟨ticket, started, removal, vault, hticket, hcomes, hafter⟩ := hmove.comes rfl
    obtain ⟨rfl, rfl⟩ : ticket = 0 ∧ one = started := by
      cases ticket with
      | zero => exact ⟨rfl, Option.some.inj hticket⟩
      | succ more => cases hticket
    -- the removal is known to have left what it left of the first contents
    obtain rfl : come.1 = removal := Option.some.inj
      (congrArg Started.removal (List.singleton_inj.mp (congrArg Shared.started hafter)))
    have hdone : come.1 = .done rest := Vault.finish_eq_done.mpr hrest
    rcases hcomes with hcomes | ⟨-, -, hfailed⟩
    · exact hother (Vault.finish_eq_done.mp ((congrArg Prod.fst hcomes).symm.trans hdone))
    · exact hfailed rest hdone

/-! ## Foreign secrets -/

namespace Coordinator

variable {coordinator : Coordinator} {faulty : Bool} {name : String} {deeds : List Deed}

/-- Jobs with their deeds, over what they share. -/
def doing (coordinator : Coordinator) (shared : Shared) (deeds : List Deed) : System :=
  ⟨shared, deeds.map (Deed.program coordinator)⟩

/-- What nobody has within reach is out of reach of all jobs together. -/
theorem outOfReach_doing {shared : Shared} (h : ∀ deed ∈ deeds, name ∉ deed.reach coordinator)
    (hforeign : Foreign coordinator.keeper.label name shared) :
    (coordinator.doing shared deeds).OutOfReach coordinator.keeper.label name := by
  refine ⟨hforeign, fun program hprogram => ?_⟩
  obtain ⟨deed, hdeed, rfl⟩ := List.mem_map.mp hprogram
  exact ⟨deed.reach coordinator, h deed hdeed, deed.inReach⟩

/-- One secret is there, of another owner. -/
def beside (coordinator : Coordinator) (name : String) : Shared :=
  .only name ⟨coordinator.keeper.label.other, Vault.probe⟩

/-- A secret that is within reach of somebody need not be hidden. -/
theorem exists_not_hidden (faulty : Bool) {deed : Deed} (hmem : deed ∈ deeds)
    (hreach : name ∈ deed.reach coordinator) :
    ∃ moves later, Trace faulty [] (coordinator.doing (coordinator.beside name) deeds) moves later ∧
      ¬ Hidden faulty [] (coordinator.doing (coordinator.beside name) deeds) name moves later := by
  obtain ⟨job, hdeed⟩ := List.mem_iff_getElem?.mp hmem
  let system := coordinator.doing (coordinator.beside name) deeds
  have hjob : system.jobs[job]? = some (deed.program coordinator) := by
    change (deeds.map _)[job]? = _
    rw [List.getElem?_map, hdeed]
    rfl
  have hnot : Nears faulty job name system.shared (deed.program coordinator) →
      ∃ moves later, Trace faulty [] system moves later ∧
        ¬ Hidden faulty [] system name moves later :=
    fun hnears => hnears.not_hidden [] hjob (Shared.find?_only _ _)
  cases deed with
  | duty one =>
    cases one with
    | task one => exact hnot (Task.nears rfl hreach)
    | addUnlogged values => cases hreach
  | all => cases hreach
  | data secret strict =>
    obtain rfl : name = secret := hreach
    exact hnot (Nears.bind (Nears.data strict))
  | create secret =>
    obtain rfl : name = secret := hreach
    exact hnot (Nears.bind (Nears.bind (Nears.ask rfl)))
  | add secret values initial =>
    obtain rfl : name = secret := hreach
    exact hnot (Nears.bind (Nears.ask rfl))
  | update secret values =>
    obtain rfl : name = secret := hreach
    exact hnot (Nears.bind (Nears.ask rfl))
  | remove secret keys =>
    obtain rfl : name = secret := hreach
    exact hnot (Nears.bind (Nears.ask rfl))
  | startRemoval secret keys =>
    obtain rfl : name = secret := hreach
    exact not_hidden_startRemoval hjob rfl (Shared.find?_only _ _)

/-- **A foreign secret is hidden exactly if nobody is given its name.** Whatever is done side by
side, in whatever order the steps come and whichever calls fail: a secret that does not carry the
label of the catalog keeps its contents and its label, and all that happens is the same whatever it
holds, if and only if none of the deeds is given its name. The default secret is given to all that
use it. Deeds that come to nothing count, too, if they ask for the secret by its name on their way:
the creation of a secret whose name is taken, and an addition that fails. -/
theorem hidden_iff (coordinator : Coordinator) (faulty : Bool) (deeds : List Deed)
    (name : String) :
    (∀ shared owners moves later, Foreign coordinator.keeper.label name shared →
        Trace faulty owners (coordinator.doing shared deeds) moves later →
        Hidden faulty owners (coordinator.doing shared deeds) name moves later) ↔
      ∀ deed ∈ deeds, name ∉ deed.reach coordinator := by
  refine ⟨fun h deed hmem hreach => ?_, fun h shared owners moves later hforeign htrace => ?_⟩
  · obtain ⟨moves, later, htrace, hseen⟩ := exists_not_hidden faulty hmem hreach
    exact hseen (h _ _ _ _ (Shared.foreign_only (Label.other_ne _) name) htrace)
  · exact (outOfReach_doing h hforeign).hidden htrace

/-- The usual coordinator gives away the names in a secret of another owner, and overwrites what it
holds, if it is given its name. -/
theorem foreign_read_and_changed :
    Foreign (Coordinator.of default).keeper.label "foreign"
        (Shared.only "foreign" ⟨⟨"app", "other"⟩, Dict.ofList [("token", "t")]⟩) ∧
      Does false 0 (Shared.only "foreign" ⟨⟨"app", "other"⟩, Dict.ofList [("token", "t")]⟩)
        ((Coordinator.of default).names "foreign" true) (Names.ofList ["token"])
        (Shared.only "foreign" ⟨⟨"app", "other"⟩, Dict.ofList [("token", "t")]⟩) ∧
      ∃ names later,
        Does false 0 (Shared.only "foreign" ⟨⟨"app", "other"⟩, Dict.ofList [("token", "t")]⟩)
          ((Coordinator.of default).addVariables "foreign" (Dict.ofList [("token", "x")]) false)
          names later ∧
        later.vault.value? "foreign" "token" = some "x" := by
  let start := Shared.only "foreign" ⟨⟨"app", "other"⟩, Dict.ofList [("token", "t")]⟩
  have hresolve : (Coordinator.of default).keeper.resolve "foreign" = "foreign" := by decide
  have hread : start.vault.read ((Coordinator.of default).keeper.resolve "foreign")
      = some (Dict.ofList [("token", "t")]) := by
    rw [hresolve, Vault.read, Shared.find?_only]
    rfl
  have hblank : ∀ name, (Dict.ofList [("token", "x")]).contains name = true →
      Text.isBlank name = false := by
    intro name hname
    obtain rfl : name = "token" := List.mem_singleton.mp (Dict.contains_ofList.mp hname)
    decide
  refine ⟨Shared.foreign_only (by decide) _, Does.names (s := start) rfl hread true, ?_⟩
  obtain ⟨vault, records, hadds, hafter⟩ := Does.addVariables (s := start) false rfl hread
    (fun hdefault => absurd hdefault (by decide)) hblank (by decide)
  refine ⟨_, _, hadds, ?_⟩
  rw [hresolve] at hafter
  rw [Vault.value?, hafter, Option.bind_some, Dict.find?_union]
  rfl

end Coordinator

end EngineCatalog
