import EngineCatalog.Proofs.Secret.Holds
import EngineCatalog.Proofs.Variable.Reach

/-!
# Secrets out of reach

A secret that carries another label and is within the reach of no job is out of reach: it stays as
it is, and nothing that happens depends on what it holds. To say so, its contents are concealed:
whatever is put in their place, the same moves lead on, with the same answers
(`System.OutOfReach.hidden`).

* `Secret.Vault.conceal`, `Shared.conceal`, `System.conceal`, `Move.conceal` — the same with other
  contents in one secret.
* `Foreign` — a secret carries another label, and nothing is about to be removed from it.
* `Hidden` — along some moves a secret stays the same, and nothing depends on what it holds.
* `System.OutOfReach` — a secret is foreign, and no job has it within its reach.
-/

namespace EngineCatalog

open Secret (Data Label Removal Vault)

/-! ## Vaults -/

namespace Secret.Vault

variable {vault : Vault} {label : Label} {reach : Set String} {name other : String} {data : Data}

/-- The same secrets, with other contents in one of them. -/
def conceal (vault : Vault) (name : String) (data : Data) : Vault :=
  ⟨vault.secrets.map fun other stored =>
    if other = name then { stored with data := data } else stored⟩

theorem find?_conceal_ne (h : other ≠ name) :
    (vault.conceal name data).secrets.find? other = vault.secrets.find? other := by
  rw [conceal, Dict.find?_map]
  simp only [if_neg h, Option.map_id']

theorem find?_conceal_self {stored : Stored} (h : vault.secrets.find? name = some stored) :
    (vault.conceal name data).secrets.find? name = some { stored with data := data } := by
  rw [conceal, Dict.find?_map, h, Option.map_some, if_pos rfl]

@[simp] theorem contains_conceal :
    (vault.conceal name data).secrets.contains other = vault.secrets.contains other :=
  Dict.contains_map _ _ _

/-- Another secret is put beside one that is concealed. -/
theorem conceal_insert (h : other ≠ name) (stored : Stored) :
    (⟨vault.secrets.insert other stored⟩ : Vault).conceal name data
      = ⟨(vault.conceal name data).secrets.insert other stored⟩ := by
  refine congrArg Vault.mk (Dict.ext_find? fun key => ?_)
  rw [Dict.find?_map, Dict.find?_insert, Dict.find?_insert, conceal, Dict.find?_map]
  by_cases hkey : other = key
  · rw [if_pos hkey, if_pos hkey, Option.map_some, if_neg (hkey ▸ h)]
  · rw [if_neg hkey, if_neg hkey]

/-- A secret carries another label. -/
def HasForeign (vault : Vault) (label : Label) (name : String) : Prop :=
  ∃ stored, vault.secrets.find? name = some stored ∧ stored.label ≠ label

theorem HasForeign.of_find? {after : Vault} (h : vault.HasForeign label name)
    (hsame : after.secrets.find? name = vault.secrets.find? name) :
    after.HasForeign label name := by
  obtain ⟨stored, hfind, hlabel⟩ := h
  exact ⟨stored, hsame.trans hfind, hlabel⟩

/-- A secret with another label is not listed, whatever it holds. -/
theorem not_contains_list (h : vault.HasForeign label name) :
    ¬ (vault.list label).contains name = true := by
  obtain ⟨stored, hfind, hlabel⟩ := h
  rw [list, Dict.contains_map, Dict.contains, Dict.find?_filter, hfind, Option.filter_some,
    if_neg (by simpa using hlabel)]
  exact Bool.false_ne_true

theorem list_conceal (h : vault.HasForeign label name) :
    (vault.conceal name data).list label = vault.list label := by
  obtain ⟨stored, hfind, hlabel⟩ := h
  refine Dict.ext_find? fun key => ?_
  rw [list, list, Dict.find?_map, Dict.find?_map, Dict.find?_filter, Dict.find?_filter]
  by_cases hkey : key = name
  · subst hkey
    rw [find?_conceal_self hfind, hfind, Option.filter_some, Option.filter_some,
      if_neg (by simpa using hlabel), if_neg (by simpa using hlabel)]
  · rw [find?_conceal_ne hkey]

theorem read_conceal (h : other ≠ name) :
    (vault.conceal name data).read other = vault.read other := by
  rw [read, find?_conceal_ne h, read]

theorem create_conceal (h : other ≠ name) (label : Label) (contents : Data) :
    (vault.conceal name data).create other label contents
      = ((vault.create other label contents).1,
        (vault.create other label contents).2.conceal name data) := by
  rw [create, create, contains_conceal]
  split
  · rfl
  · rw [conceal_insert h]

theorem modify_conceal (h : other ≠ name) (change : Data → Data) :
    (vault.conceal name data).modify other change
      = ((vault.modify other change).1, (vault.modify other change).2.conceal name data) := by
  rw [modify, modify, find?_conceal_ne h]
  cases vault.secrets.find? other with
  | none => rfl
  | some stored => exact congrArg (Prod.mk _) (conceal_insert h _).symm

/-- Calls within a reach are answered whatever is beyond it. -/
theorem answer_conceal {call : Call} (hcall : call.IsWithin label reach) (hname : name ∉ reach)
    (h : vault.HasForeign label name) :
    (vault.conceal name data).answer call
      = ((vault.answer call).1, (vault.answer call).2.conceal name data) := by
  have hne : ∀ {other : String}, other ∈ reach → other ≠ name :=
    fun hother heq => hname (heq ▸ hother)
  cases call with
  | list other =>
    obtain rfl : other = label := hcall
    rw [answer, answer, list_conceal h]
  | read other => rw [answer, answer, read_conceal (hne hcall)]
  | create other label contents => exact create_conceal (hne hcall) label contents
  | add other values initial => rw [answer, answer, merge, merge, modify_conceal (hne hcall)]
  | update other values => rw [answer, answer, merge, merge, modify_conceal (hne hcall)]
  | remove other keys => rw [answer, answer, remove, remove, modify_conceal (hne hcall)]

theorem finish_conceal (h : other ≠ name) (keys : Names) :
    (vault.conceal name data).finish other keys
      = ((vault.finish other keys).1, (vault.finish other keys).2.conceal name data) := by
  rw [finish, finish, remove, remove, modify_conceal h]
  cases vault.modify other fun current => current.filter fun key _ => !keys.contains key with
  | mk outcome after => cases outcome <;> rfl

theorem find?_create (h : other ≠ name) (label : Label) (contents : Data) :
    (vault.create other label contents).2.secrets.find? name = vault.secrets.find? name := by
  rw [create]
  split
  · rfl
  · exact Dict.find?_insert_ne h

/-- Calls within a reach change nothing beyond it. -/
theorem find?_answer {call : Call} (hcall : call.IsWithin label reach) (hname : name ∉ reach) :
    (vault.answer call).2.secrets.find? name = vault.secrets.find? name := by
  have hne : ∀ {other : String}, other ∈ reach → other ≠ name :=
    fun hother heq => hname (heq ▸ hother)
  cases call with
  | list other => rfl
  | read other => rfl
  | create other label contents => exact find?_create (hne hcall) label contents
  | add other values initial => exact find?_modify (hne hcall) _
  | update other values => exact find?_modify (hne hcall) _
  | remove other keys => exact find?_modify (hne hcall) _

end Secret.Vault

/-! ## What is shared -/

/-- The same is shared, but for the contents of a secret. -/
def Shared.conceal (shared : Shared) (name : String) (data : Data) : Shared :=
  { shared with vault := shared.vault.conceal name data }

/-- A secret carries another label, and nothing was started to be removed from it. -/
structure Foreign (label : Label) (name : String) (shared : Shared) : Prop where
  /-- it carries another label -/
  stored : shared.vault.HasForeign label name
  /-- what was started is removed from others -/
  spared : ∀ started ∈ shared.started, started.secret ≠ name

section

variable {label : Label} {reach : Set String} {name : String} {faulty : Bool} {job : Nat}
variable {effect : Effect} {answer : effect.Answer} {before after : Shared}

/-- Within a reach, effects are answered whatever is beyond it. -/
theorem Answers.conceal (h : Answers faulty job effect before answer after)
    (hallows : Reach.Allows label reach effect) (hname : name ∉ reach)
    (hforeign : before.vault.HasForeign label name) (data : Data) :
    Answers faulty job effect (before.conceal name data) answer (after.conceal name data) := by
  induction effect with
  | store call =>
    obtain ⟨hanswer, rfl⟩ | ⟨hfaulty, rfl, hfails⟩ := h
    · exact .inl ⟨hanswer, rfl⟩
    · exact .inr ⟨hfaulty, rfl, hfails⟩
  | secrets call =>
    obtain ⟨rfl, rfl⟩ | ⟨hfaulty, rfl, hfails⟩ := h
    · refine .inl ?_
      rw [Shared.conceal, Secret.Vault.answer_conceal hallows hname hforeign]
      exact ⟨rfl, rfl⟩
    · exact .inr ⟨hfaulty, rfl, hfails⟩
  | startRemoval secret keys =>
    obtain ⟨hanswer, rfl⟩ | ⟨hfaulty, rfl, hfails⟩ := h
    · exact .inl ⟨hanswer, rfl⟩
    · exact .inr ⟨hfaulty, rfl, hfails⟩
  | awaitRemovals tickets moment =>
    obtain ⟨rfl, hanswer⟩ := h
    exact ⟨rfl, hanswer⟩
  | lock =>
    obtain ⟨hfree, rfl⟩ := h
    exact ⟨hfree, rfl⟩
  | choose bound =>
    obtain ⟨rfl, hbound⟩ := h
    exact ⟨rfl, hbound⟩
  | «until» moment effect ih =>
    cases answer with
    | some answer => exact ih h hallows
    | none => exact congrArg (fun shared => shared.conceal name data) h
  | _ => exact congrArg (fun shared => shared.conceal name data) h

/-- Within a reach, nothing beyond it is changed, and no removal from it is started. -/
theorem Alters.beyond (h : Alters job before effect after)
    (hallows : Reach.Allows label reach effect) (hname : name ∉ reach)
    (hspared : ∀ started ∈ before.started, started.secret ≠ name) :
    after.vault.secrets.find? name = before.vault.secrets.find? name ∧
      ∀ started ∈ after.started, started.secret ≠ name := by
  induction h with
  | secrets call => exact ⟨Secret.Vault.find?_answer hallows hname, hspared⟩
  | startRemoval secret keys =>
    refine ⟨rfl, fun started hstarted => ?_⟩
    rcases List.mem_append.mp hstarted with hstarted | hstarted
    · exact hspared started hstarted
    · obtain rfl := List.mem_singleton.mp hstarted
      exact fun heq => hname (heq ▸ hallows)
  | «until» moment _ ih => exact ih hallows
  | _ => exact ⟨rfl, hspared⟩

/-- A foreign secret does not come into reach by what is listed. -/
theorem Answers.not_mem_next (h : Answers faulty job effect before answer after)
    (hallows : Reach.Allows label reach effect) (hname : name ∉ reach)
    (hforeign : before.vault.HasForeign label name) : name ∉ Reach.next reach effect answer := by
  induction effect with
  | secrets call =>
    cases call with
    | list other =>
      obtain rfl : other = label := hallows
      cases answer with
      | error error => exact hname
      | ok all =>
        obtain ⟨hall, -⟩ | ⟨-, -, error, herror⟩ := h
        · obtain rfl : all = before.vault.list other := Except.ok.inj hall
          rintro (hmem | hlisted)
          · exact hname hmem
          · exact Secret.Vault.not_contains_list hforeign hlisted
        · cases herror
    | _ => exact hname
  | «until» moment effect ih =>
    cases answer with
    | some answer => exact ih h hallows
    | none => exact hname
  | _ => exact hname

end

/-- What comes of a removal from another secret. -/
theorem Comes.conceal {faulty : Bool} {started : Started} {before after : Vault}
    {removal : Removal} {name : String} (h : Comes faulty started before removal after)
    (hname : started.secret ≠ name) (data : Data) :
    Comes faulty started (before.conceal name data) removal (after.conceal name data) := by
  obtain hfinish | ⟨hfaulty, rfl, hdone⟩ := h
  · refine .inl ?_
    rw [Secret.Vault.finish_conceal hname, ← hfinish]
  · exact .inr ⟨hfaulty, rfl, hdone⟩

theorem Comes.beyond {faulty : Bool} {started : Started} {before after : Vault}
    {removal : Removal} {name : String} (h : Comes faulty started before removal after)
    (hname : started.secret ≠ name) : after.secrets.find? name = before.secrets.find? name := by
  obtain hfinish | ⟨-, rfl, -⟩ := h
  · obtain rfl : after = (before.finish started.secret started.keys).2 := congrArg Prod.snd hfinish
    exact Secret.Vault.find?_finish hname _
  · rfl

/-! ## Systems -/

/-- The same system, but for the contents of a secret. -/
def System.conceal (system : System) (name : String) (data : Data) : System :=
  ⟨system.shared.conceal name data, system.jobs⟩

/-- The same move of the same job, but for the contents of a secret. -/
def Move.conceal (name : String) (data : Data) (move : Move) : Move :=
  ⟨move.job, move.exchange, move.before.conceal name data, move.after.conceal name data⟩

/-- Along some moves a secret is hidden: its contents and its label stay as they are, and nothing
depends on its contents. -/
structure Hidden (faulty : Bool) (owners : List Nat) (system : System) (name : String)
    (moves : List Move) (later : System) : Prop where
  /-- it is the same after the moves -/
  same : later.shared.vault.secrets.find? name = system.shared.vault.secrets.find? name
  /-- whatever it holds, the same happens, move by move and with the same answers -/
  blind : ∀ data, Trace faulty owners (system.conceal name data)
    (moves.map (Move.conceal name data)) (later.conceal name data)

/-- A secret is foreign, and no job has it within its reach. -/
structure System.OutOfReach (label : Label) (name : String) (system : System) : Prop where
  /-- it is foreign -/
  foreign : Foreign label name system.shared
  /-- each job stays within a reach without it -/
  jobs : ∀ program ∈ system.jobs, ∃ reach : Set String, name ∉ reach ∧
    program.Obeys (Reach.discipline label) reach fun _ _ => True

namespace System.OutOfReach

variable {label : Label} {name : String} {faulty : Bool} {owners : List Nat}
variable {system later : System} {move : Move} {moves : List Move}

/-- A secret that is out of reach stays so, and as it is. -/
theorem stays (h : system.OutOfReach label name) (hmove : Moves faulty owners system move later) :
    later.OutOfReach label name ∧
      later.shared.vault.secrets.find? name = system.shared.vault.secrets.find? name := by
  cases hmove with
  | answered hjob hanswers =>
    obtain ⟨reach, hname, hallows, hnext⟩ := h.jobs _ (List.mem_of_getElem? hjob)
    obtain ⟨hsame, hspared⟩ := hanswers.alters.beyond hallows hname h.foreign.spared
    refine ⟨⟨⟨h.foreign.stored.of_find? hsame, hspared⟩, fun program hprogram => ?_⟩, hsame⟩
    rcases List.mem_or_eq_of_mem_set hprogram with hprogram | rfl
    · exact h.jobs program hprogram
    · exact ⟨_, hanswers.not_mem_next hallows hname h.foreign.stored, hnext _⟩
  | removed _ hstarted _ hcomes =>
    have hother := h.foreign.spared _ (List.mem_of_getElem? hstarted)
    have hsame := hcomes.beyond hother
    refine ⟨⟨⟨h.foreign.stored.of_find? hsame, fun started hmem => ?_⟩, h.jobs⟩, hsame⟩
    rcases List.mem_or_eq_of_mem_set hmem with hmem | rfl
    · exact h.foreign.spared started hmem
    · exact hother

/-- A move is the same, whatever a secret holds that is out of reach. -/
theorem conceal_move (h : system.OutOfReach label name)
    (hmove : Moves faulty owners system move later) (data : Data) :
    Moves faulty owners (system.conceal name data) (move.conceal name data)
      (later.conceal name data) := by
  cases hmove with
  | answered hjob hanswers =>
    obtain ⟨reach, hname, hallows, -⟩ := h.jobs _ (List.mem_of_getElem? hjob)
    exact .answered hjob (hanswers.conceal hallows hname h.foreign.stored data)
  | removed howner hstarted hpending hcomes =>
    have hother := h.foreign.spared _ (List.mem_of_getElem? hstarted)
    exact .removed howner hstarted hpending (hcomes.conceal hother data)

/-- Whatever happens, a secret that is out of reach stays hidden. -/
theorem hidden (h : system.OutOfReach label name)
    (htrace : Trace faulty owners system moves later) :
    Hidden faulty owners system name moves later := by
  induction htrace with
  | nil => exact ⟨rfl, fun data => .nil _ _⟩
  | cons hmove _ ih =>
    obtain ⟨hstays, hsame⟩ := h.stays hmove
    obtain ⟨hrest, hblind⟩ := ih hstays
    exact ⟨hrest.trans hsame, fun data => .cons (h.conceal_move hmove data) (hblind data)⟩

end System.OutOfReach

end EngineCatalog
