import Mathlib.Data.Nat.Digits.Defs

/-!
# Digits of a number

Reading the digits of a number from the left gives the number back, in any base
and for any reader that knows the single digits.
-/

set_option autoImplicit false

namespace ScriptHost

variable {base : Nat}

theorem mem_toDigits (hb : 1 < base) {c : Char} (n : Nat) (h : c ∈ Nat.toDigits base n) :
    ∃ d < base, c = Nat.digitChar d := by
  induction n using Nat.strongRecOn with
  | _ n ih =>
    rw [Nat.toDigits_eq_if hb] at h
    split at h
    · rename_i hn
      exact ⟨n, hn, List.mem_singleton.mp h⟩
    · rename_i hn
      rcases List.mem_append.mp h with h | h
      · exact ih (n / base) (Nat.div_lt_self (by omega) hb) h
      · exact ⟨n % base, Nat.mod_lt _ (by omega), List.mem_singleton.mp h⟩

theorem foldl_toDigits (hb : 1 < base) {value : Char → Nat}
    (hv : ∀ d < base, value (Nat.digitChar d) = d) (n : Nat) :
    (Nat.toDigits base n).foldl (fun m c => m * base + value c) 0 = n := by
  induction n using Nat.strongRecOn with
  | _ n ih =>
    rw [Nat.toDigits_eq_if hb]
    split
    · rename_i hn
      simp [hv n hn]
    · rename_i hn
      have hmod := hv (n % base) (Nat.mod_lt _ (by omega))
      have hdiv := Nat.div_add_mod n base
      rw [List.foldl_append, ih (n / base) (Nat.div_lt_self (by omega) hb)]
      simp only [List.foldl_cons, List.foldl_nil, hmod]
      rw [Nat.mul_comm]
      exact hdiv

end ScriptHost
