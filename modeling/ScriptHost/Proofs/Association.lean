/-!
# Looking up pairs

Tables are lists of pairs whose keys differ. A key finds its pair after other
pairs were taken out, and after the values were changed in place.
-/

set_option autoImplicit false

namespace ScriptHost.Association

variable {K V : Type} [DecidableEq K]

theorem lookup_cons (k key : K) (v : V) (rest : List (K × V)) :
    ((key, v) :: rest).lookup k = if k = key then some v else rest.lookup k := by
  by_cases h : k = key
  · simp [h]
  · simp [List.lookup_cons, h, beq_false_of_ne h]

theorem lookup_filter (keep : K → Bool) (k : K) (pairs : List (K × V)) :
    (pairs.filter (keep ·.1)).lookup k = if keep k then pairs.lookup k else none := by
  induction pairs with
  | nil => simp
  | cons pair rest ih =>
    obtain ⟨key, v⟩ := pair
    by_cases hk : k = key
    · subst hk
      cases hb : keep k <;> simp [hb, ih, -List.lookup_eq_none_iff]
    · cases hb : keep key <;> simp [hb, hk, ih, lookup_cons, -List.lookup_eq_none_iff]

theorem lookup_removed (k other : K) (pairs : List (K × V)) :
    (pairs.filter (·.1 ≠ k)).lookup other = if other = k then none else pairs.lookup other := by
  rw [lookup_filter (fun key => decide (key ≠ k))]
  by_cases ho : other = k <;> simp [ho]

theorem lookup_changed (change : K → V → V) (k : K) (pairs : List (K × V)) :
    (pairs.map fun (key, v) => (key, change key v)).lookup k = (pairs.lookup k).map (change k) := by
  induction pairs with
  | nil => rfl
  | cons pair rest ih =>
    obtain ⟨key, v⟩ := pair
    by_cases hk : k = key <;> simp [lookup_cons, hk, ih]

theorem mem_of_lookup {k : K} {v : V} {pairs : List (K × V)} (h : pairs.lookup k = some v) :
    (k, v) ∈ pairs := by
  obtain ⟨before, after, hp, -⟩ := List.lookup_eq_some_iff.mp h
  simp [hp]

theorem lookup_of_mem {k : K} {v : V} {pairs : List (K × V)}
    (hn : (pairs.map (·.1)).Nodup) (h : (k, v) ∈ pairs) : pairs.lookup k = some v := by
  induction pairs with
  | nil => simp at h
  | cons pair rest ih =>
    obtain ⟨key, w⟩ := pair
    obtain ⟨hfresh, hrest⟩ := List.nodup_cons.mp hn
    rcases List.mem_cons.mp h with he | hm
    · cases he
      simp
    · have hk : k ≠ key := fun he => hfresh (List.mem_map.mpr ⟨(k, v), hm, he⟩)
      simpa [lookup_cons, hk] using ih hrest hm

end ScriptHost.Association
