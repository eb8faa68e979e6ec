import ScriptHost.Registry.Basic
import ScriptHost.Proofs.Association

/-!
# Records by identifier

What each operation of a registry does to the record of an identifier, and that
it leaves the records of all others alone.
-/

set_option autoImplicit false

namespace ScriptHost.Registry
open ScriptHost.Association

variable {X W : Type}

theorem lookup_placed (id other : ModuleId) (record : Record X W)
    (records : List (ModuleId × Record X W)) :
    (placed id record records).lookup other =
      if other = id then some record else records.lookup other := by
  induction records with
  | nil => by_cases h : other = id <;> simp [placed, h]
  | cons pair rest ih =>
    obtain ⟨key, old⟩ := pair
    by_cases hk : key = id
    · subst hk
      by_cases ho : other = key <;> simp [placed, lookup_cons, ho]
    · by_cases ho : other = key
      · simp [placed, hk, ho]
      · simp [placed, lookup_cons, hk, ho, ih]

theorem placed_keys (id : ModuleId) (record : Record X W)
    (records : List (ModuleId × Record X W)) :
    (placed id record records).map (·.1) =
      if id ∈ records.map (·.1) then records.map (·.1) else records.map (·.1) ++ [id] := by
  induction records with
  | nil => rfl
  | cons pair rest ih =>
    obtain ⟨key, old⟩ := pair
    by_cases hk : key = id
    · simp [placed, hk]
    · have hn : id ≠ key := fun h => hk h.symm
      by_cases hm : id ∈ rest.map (·.1) <;> simp_all [placed]

theorem find_put (r : Registry X W) (id other : ModuleId) (record : Record X W) :
    (r.put id record).find? other = if other = id then some record else r.find? other :=
  lookup_placed id other record r.records

theorem find_same (r : Registry X W) (id other : ModuleId) :
    r.find? other = if other = id then r.find? id else r.find? other := by
  by_cases h : other = id <;> simp [h]

theorem put_ids (r : Registry X W) (id : ModuleId) (record : Record X W) :
    (r.put id record).ids = if id ∈ r.ids then r.ids else r.ids ++ [id] :=
  placed_keys id record r.records

theorem put_nodup (r : Registry X W) (id : ModuleId) (record : Record X W) (h : r.ids.Nodup) :
    (r.put id record).ids.Nodup := by
  rw [put_ids]
  split
  · exact h
  · next hm => exact List.nodup_append.mpr ⟨h, by simp, by simp; exact fun a ha he => hm (he ▸ ha)⟩

theorem find_none_iff (r : Registry X W) (id : ModuleId) : r.find? id = none ↔ id ∉ r.ids := by
  simp only [find?, ids, List.lookup_eq_none_iff, List.mem_map, not_exists, not_and]
  constructor
  · intro h pair hp he
    simpa [he] using h pair hp
  · intro h pair hp
    simpa using fun he => h pair hp he.symm

theorem mem_ids_iff (r : Registry X W) (id : ModuleId) :
    id ∈ r.ids ↔ ∃ record, r.find? id = some record := by
  have h := find_none_iff r id
  cases hf : r.find? id with
  | none => simpa [hf] using h
  | some record => simpa [hf] using h

theorem find_remove (r : Registry X W) (id other : ModuleId) :
    (r.remove id).find? other = if other = id then none else r.find? other :=
  lookup_removed id other r.records

theorem remove_ids (r : Registry X W) (id : ModuleId) :
    (r.remove id).ids = r.ids.filter (· ≠ id) := by
  simp [remove, ids, List.filter_map, Function.comp_def]

theorem invalidate_settled {r : Registry X W} {id : ModuleId} {record : Record X W}
    {outcome : LoadResult X} (h : r.find? id = some record) (ho : record.outcome? = some outcome) :
    r.invalidate id = (r.remove id, true) := by
  simp [invalidate, h, Record.isSettled, ho]

theorem invalidate_kept {r : Registry X W} {id : ModuleId}
    (h : (r.find? id).bind Record.outcome? = none) : r.invalidate id = (r, false) := by
  cases hf : r.find? id with
  | none => simp [invalidate, hf]
  | some record =>
    have ho : record.outcome? = none := by simpa [hf] using h
    simp [invalidate, hf, Record.isSettled, ho]

theorem outcome_ofOutcome (outcome : LoadResult X) :
    (Record.ofOutcome outcome : Record X W).outcome? = some outcome := by
  cases outcome <;> rfl

theorem eq_ofOutcome {record : Record X W} {outcome : LoadResult X}
    (h : record.outcome? = some outcome) : record = .ofOutcome outcome := by
  cases record <;> simp [Record.outcome?] at h <;> subst h <;> rfl

end ScriptHost.Registry
