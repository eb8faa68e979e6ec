import ScriptHost.Text.LowerCase

/-!
# Lower case once and again

No run covers what a run gives, so the lower case form of a character has no
other lower case form than itself. The runs are compared as intervals.
-/

set_option autoImplicit false

namespace ScriptHost.LowerCase

variable {r q : Run} {n : Nat}

def Run.shifted (r : Run) (n : Nat) : Char := Char.ofNat (n + r.shift).toNat

def Run.values (r : Run) : List Nat :=
  (List.range ((r.last - r.first) / r.stride + 1)).map fun i => r.first + i * r.stride

theorem Run.mem_values (h : r.covers n = true) : n ∈ r.values := by
  simp only [Run.covers, Bool.and_eq_true, decide_eq_true_eq] at h
  obtain ⟨⟨hfirst, hlast⟩, hmod⟩ := h
  have hdiv := Nat.div_add_mod (n - r.first) r.stride
  rw [hmod, Nat.add_zero, Nat.mul_comm] at hdiv
  have hle : (n - r.first) / r.stride ≤ (r.last - r.first) / r.stride :=
    Nat.div_le_div_right (Nat.sub_le_sub_right hlast _)
  refine List.mem_map.mpr ⟨(n - r.first) / r.stride, List.mem_range.mpr (Nat.lt_succ_of_le hle), ?_⟩
  rw [hdiv]
  exact Nat.add_sub_cancel' hfirst

def Run.misses (r q : Run) : Bool :=
  r.last + r.shift < q.first || q.last < r.first + r.shift ||
    ((r.stride = 2 || r.first = r.last) && q.stride = 2 && (r.first + r.shift - q.first) % 2 = 1)

theorem Run.not_covers (h : r.misses q = true) (hc : r.covers n = true) {m : Nat}
    (hm : (m : Int) = n + r.shift) : q.covers m = false := by
  rw [Bool.eq_false_iff]
  intro hq
  simp only [Run.covers, Bool.and_eq_true, decide_eq_true_eq] at hc hq
  obtain ⟨⟨hfirst, hlast⟩, hmod⟩ := hc
  obtain ⟨⟨qfirst, qlast⟩, qmod⟩ := hq
  simp only [Run.misses, Bool.or_eq_true, Bool.and_eq_true, decide_eq_true_eq] at h
  rcases h with (h | h) | ⟨⟨hs | hs, qs⟩, odd⟩
  · omega
  · omega
  · rw [hs] at hmod
    rw [qs] at qmod
    omega
  · rw [qs] at qmod
    omega

theorem runs_miss : ∀ r ∈ runs, ∀ q ∈ runs, r.misses q = true := by
  have all : (runs.all fun r => runs.all r.misses) = true := by decide +kernel
  exact fun r hr => List.all_eq_true.mp (List.all_eq_true.mp all r hr)

theorem shifted_toNat (hr : r ∈ runs) (h : r.covers n = true) :
    ((r.shifted n).toNat : Int) = n + r.shift := by
  have all : (runs.all fun r => r.values.all fun n =>
      ((r.shifted n).toNat : Int) = n + r.shift) = true := by decide +kernel
  exact of_decide_eq_true (List.all_eq_true.mp (List.all_eq_true.mp all r hr) n (Run.mem_values h))

theorem lower_cases (c : Char) :
    lower c = c ∨ ∃ r ∈ runs, r.covers c.toNat = true ∧ lower c = r.shifted c.toNat := by
  unfold lower
  split
  · rename_i r hr
    have covered := List.find?_some (p := fun q : Run => q.covers c.toNat) hr
    exact Or.inr ⟨r, List.mem_of_find?_eq_some hr, covered, rfl⟩
  · exact Or.inl rfl

theorem lower_lower (c : Char) : lower (lower c) = lower c := by
  rcases lower_cases c with h | ⟨r, hr, hc, h⟩
  · rw [h, h]
  · have free : runs.find? (·.covers (lower c).toNat) = none := by
      rw [List.find?_eq_none]
      intro q hq
      rw [h, Run.not_covers (runs_miss r hr q hq) hc (shifted_toNat hr hc)]
      exact Bool.false_ne_true
    rw [lower.eq_def (lower c), free]

end ScriptHost.LowerCase
