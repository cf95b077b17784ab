import EngineCatalog.Proofs.Dict.Lookup
import EngineCatalog.Secret.Vault
import Mathlib.Data.List.Basic

/-!
# What secrets hold

A call brings into a secret the names that it puts there, and no others (`holds_answer`). A removal
takes names away, and it matters little when it is carried out: no name comes in by it. Where a
secret exists, only some of the calls can change what it holds (`read_answer`).
-/

namespace EngineCatalog.Secret

/-- The names that a call puts into a secret, if it is accepted. -/
def Call.puts (secret : String) : Call → String → Prop
  | .create other _ data, name => other = secret ∧ data.contains name = true
  | .add other data _, name => other = secret ∧ data.contains name = true
  | .update other data, name => other = secret ∧ data.contains name = true
  | _, _ => False

/-- The call may change what a secret that exists holds. -/
def Call.changes : Call → Bool
  | .add _ _ _ => true
  | .update _ _ => true
  | .remove _ _ => true
  | _ => false

namespace Vault

variable {vault : Vault} {secret name : String}

/-- A secret has a name. -/
def holds (vault : Vault) (secret name : String) : Bool :=
  ((vault.read secret).getD Dict.empty).contains name

theorem holds_iff :
    vault.holds secret name = true
      ↔ ∃ stored, vault.secrets.find? secret = some stored ∧ stored.data.contains name = true := by
  rw [holds, read]
  cases vault.secrets.find? secret <;> simp

/-- A secret that is there is changed. -/
theorem modify_of_read {data : Data} (h : vault.read secret = some data) (change : Data → Data) :
    ∃ after, vault.modify secret change = (.ok (change data), after) ∧
      after.read secret = some (change data) := by
  rw [read, Option.map_eq_some_iff] at h
  obtain ⟨stored, hfind, rfl⟩ := h
  refine ⟨⟨vault.secrets.insert secret { stored with data := change stored.data }⟩, ?_, ?_⟩
  · rw [modify, hfind]
  · rw [read, Dict.find?_insert_self]
    rfl

/-- A change gives back what the secret holds then, or nothing is changed. -/
theorem modify_cases (vault : Vault) (secret : String) (change : Data → Data) :
    (∃ data, (vault.modify secret change).1 = .ok data) ∨
      ∃ error, (vault.modify secret change).1 = .error error ∧
        (vault.modify secret change).2 = vault := by
  rw [modify]
  cases vault.secrets.find? secret with
  | none => exact .inr ⟨_, rfl, rfl⟩
  | some stored => exact .inl ⟨_, rfl⟩

/-- A change of another secret leaves a secret as it is, with its label. -/
theorem find?_modify {other : String} (h : other ≠ secret) (change : Data → Data) :
    (vault.modify other change).2.secrets.find? secret = vault.secrets.find? secret := by
  rw [modify]
  cases vault.secrets.find? other with
  | none => rfl
  | some stored => exact Dict.find?_insert_ne h

/-- A secret that is there is changed, and no other one is. -/
theorem read_modify (vault : Vault) (other secret : String) (change : Data → Data) :
    (vault.modify other change).2.read secret
      = if other = secret then (vault.read secret).map change else vault.read secret := by
  rw [modify]
  cases hfind : vault.secrets.find? other with
  | none =>
    change vault.read secret = _
    split
    · rename_i hsecret
      rw [read, ← hsecret, hfind]
      rfl
    · rfl
  | some stored =>
    rw [read, read, Dict.find?_insert]
    split
    · rename_i hsecret
      rw [← hsecret, hfind]
      rfl
    · rfl

/-- A change of one secret shows in that one only. -/
theorem holds_modify {other : String} {change : Data → Data}
    (h : (vault.modify other change).2.holds secret name = true) :
    vault.holds secret name = true ∧ other ≠ secret ∨ other = secret ∧
      ((∃ stored, vault.secrets.find? secret = some stored ∧
          (change stored.data).contains name = true)) := by
  rw [modify] at h
  cases hfind : vault.secrets.find? other with
  | none =>
    -- nothing is changed, and a secret that is not there holds nothing
    rw [hfind] at h
    refine .inl ⟨h, ?_⟩
    rintro rfl
    obtain ⟨stored, hsome, -⟩ := holds_iff.mp h
    rw [hfind] at hsome
    cases hsome
  | some stored =>
    rw [hfind] at h
    obtain ⟨found, hsome, hname⟩ := holds_iff.mp h
    by_cases hother : other = secret
    · subst hother
      rw [Dict.find?_insert_self] at hsome
      obtain rfl := Option.some.inj hsome
      exact .inr ⟨rfl, stored, hfind, hname⟩
    · rw [Dict.find?_insert_ne hother] at hsome
      exact .inl ⟨holds_iff.mpr ⟨found, hsome, hname⟩, hother⟩

theorem holds_merge {other : String} {data : Data}
    (h : (vault.merge other data).2.holds secret name = true) :
    vault.holds secret name = true ∨ (other = secret ∧ data.contains name = true) := by
  rcases holds_modify h with ⟨hbefore, -⟩ | ⟨rfl, stored, hfind, hname⟩
  · exact .inl hbefore
  · rcases Dict.contains_union.mp hname with hnew | hold
    · exact .inr ⟨rfl, hnew⟩
    · exact .inl (holds_iff.mpr ⟨stored, hfind, hold⟩)

/-- A removal takes names away and brings in none. -/
theorem holds_remove {other : String} {keys : Names}
    (h : (vault.remove other keys).2.holds secret name = true) :
    vault.holds secret name = true ∧ (other = secret → keys.contains name = false) := by
  rcases holds_modify h with ⟨hbefore, hne⟩ | ⟨rfl, stored, hfind, hname⟩
  · exact ⟨hbefore, fun heq => absurd heq hne⟩
  · obtain ⟨value, hvalue⟩ := Dict.contains_iff.mp hname
    rw [Dict.find?_filter, Option.filter_eq_some_iff] at hvalue
    obtain ⟨hvalue, hkeep⟩ := hvalue
    refine ⟨holds_iff.mpr ⟨stored, hfind, Dict.contains_of_find? hvalue⟩, fun _ => ?_⟩
    simpa using hkeep

/-- A removal that was started does what a removal does. -/
theorem finish_snd (vault : Vault) (name : String) (keys : Names) :
    (vault.finish name keys).2 = (vault.remove name keys).2 := by
  rw [finish]
  split <;> rename_i hremove <;> rw [hremove]

/-- A removal from another secret leaves a secret as it is, with its label. -/
theorem find?_finish {other : String} (h : other ≠ secret) (keys : Names) :
    (vault.finish other keys).2.secrets.find? secret = vault.secrets.find? secret := by
  rw [finish_snd]
  exact find?_modify h _

theorem holds_finish {other : String} {keys : Names}
    (h : (vault.finish other keys).2.holds secret name = true) :
    vault.holds secret name = true := by
  rw [finish_snd] at h
  exact (holds_remove h).1

/-- The removal of no names changes nothing. -/
theorem read_remove_of_isEmpty {keys : Names} (h : keys.isEmpty = true) (other : String) :
    (vault.remove other keys).2.read secret = vault.read secret := by
  have hsame : ∀ data : Data, (data.filter fun key _ => !keys.contains key) = data := by
    intro data
    refine Dict.ext_entries (List.filter_eq_self.mpr fun entry _ => ?_)
    change (!keys.contains entry.1) = true
    rw [Dict.isEmpty_iff.mp h entry.1]
    rfl
  rw [remove, read_modify]
  split
  · simp only [hsame, Option.map_id']
  · rfl

/-- What a secret holds is changed by some of the calls only. -/
theorem read_answer {call : Call} (hchanges : call.changes = false) {data : Data}
    (h : vault.read secret = some data) : (vault.answer call).2.read secret = some data := by
  cases call with
  | create other label created =>
    rw [answer, create]
    split
    · exact h
    · rename_i hfree
      have hne : other ≠ secret := by
        rintro rfl
        obtain ⟨stored, hfind, -⟩ := Option.map_eq_some_iff.mp h
        exact hfree (Dict.contains_of_find? hfind)
      rw [read, Dict.find?_insert_ne hne]
      exact h
  | add other added initial => cases hchanges
  | update other added => cases hchanges
  | remove other keys => cases hchanges
  | _ => exact h

/-- A call brings in only the names that it puts. -/
theorem holds_answer {call : Call} (h : (vault.answer call).2.holds secret name = true) :
    vault.holds secret name = true ∨ call.puts secret name := by
  cases call with
  | list label => exact .inl h
  | read other => exact .inl h
  | create other label data =>
    rw [answer, create] at h
    split at h
    · exact .inl h
    · obtain ⟨found, hfind, hname⟩ := holds_iff.mp h
      by_cases hother : other = secret
      · subst hother
        rw [Dict.find?_insert_self] at hfind
        obtain rfl := Option.some.inj hfind
        exact .inr ⟨rfl, hname⟩
      · rw [Dict.find?_insert_ne hother] at hfind
        exact .inl (holds_iff.mpr ⟨found, hfind, hname⟩)
  | add other data initial => exact holds_merge h
  | update other data => exact holds_merge h
  | remove other keys => exact .inl (holds_remove h).1

end Vault

end EngineCatalog.Secret
