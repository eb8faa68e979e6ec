import ScriptHost.Proofs.Url.Domain
import ScriptHost.Url.Basic
import ScriptHost.Url.Ipv4

/-!
# Reading back an IPv4 address

However an address was given, it is less than two to the thirty-second, and
it is written as its four bytes in decimal. That text is a domain whose labels
are numbers, and reading it puts the bytes together again.
-/

set_option autoImplicit false

namespace ScriptHost.Url.Ipv4

variable {domain : List Char} {address : Nat}

theorem combine_lt (k : Nat) {leading : List Nat} {last : Nat} (hl : leading.length ≤ k)
    (hb : ∀ n ∈ leading, n ≤ 255) (hlast : last < 256 ^ (k + 1 - leading.length)) :
    combine leading (256 ^ k) last < 256 ^ (k + 1) := by
  induction leading generalizing k with
  | nil => exact hlast
  | cons n rest ih =>
    cases k with
    | zero => cases hl
    | succ k =>
      rw [List.length_cons, Nat.succ_sub_succ] at hlast
      have hn : n * 256 ^ (k + 1) ≤ 255 * 256 ^ (k + 1) :=
        Nat.mul_le_mul_right _ (hb n List.mem_cons_self)
      have hr := ih k (Nat.le_of_succ_le_succ hl)
        (fun m hm => hb m (List.mem_cons_of_mem n hm)) hlast
      have weight : 256 ^ (k + 1) / 256 = 256 ^ k := by
        rw [Nat.pow_succ, Nat.mul_div_cancel _ (by decide)]
      rw [combine, weight, Nat.pow_succ 256 (k + 1)]
      omega

theorem address_lt (h : address? domain = .ok address) : address < 2 ^ 32 := by
  unfold address? at h
  split at h
  · cases h
  · rename_i numbers _
    simp only at h
    split at h
    · cases h
    · rename_i small
      cases h
      simp only [Bool.or_eq_true, decide_eq_true_eq, List.any_eq_true, not_or, not_exists, not_and,
        Nat.not_lt, ge_iff_le, Nat.not_le] at small
      refine combine_lt 3 ?_ small.2 small.1.2
      rw [List.length_dropLast]
      omega

def bytesOf (address : Nat) : List Nat :=
  [address / 0x1000000 % 256, address / 0x10000 % 256, address / 0x100 % 256, address % 256]

theorem ipv4Text_eq (address : Nat) :
    ipv4Text address = Domain.joinDots ((bytesOf address).map decimal) := by
  simp [ipv4Text, bytesOf, Domain.joinDots]

theorem byte_lt : ∀ n ∈ bytesOf address, n < 256 := by
  intro n hn
  simp only [bytesOf, List.mem_cons, List.not_mem_nil, or_false] at hn
  omega

theorem decimal_byte : ∀ n < 256, number? (decimal n) = some n ∧
    Domain.labelText? (decimal n) = some (decimal n) ∧ isNumberLabel (decimal n) = true ∧
      (decimal n).all Ascii.isDigit = true ∧ decimal n ≠ [] := by
  decide +kernel

theorem writtenLabel_decimal {n : Nat} (h : n < 256) : Domain.IsWrittenLabel (decimal n) := by
  obtain ⟨-, read, -, digits, -⟩ := decimal_byte n h
  have chars : ∀ c ∈ decimal n, Domain.IsDomainChar c ∧ c ≠ '.' := fun c hc =>
    Domain.domainChar_digitChar (by
      rw [Punycode.isDigitChar, List.all_eq_true.mp digits c hc, Bool.or_true])
  exact ⟨read, fun c hc => (chars c hc).1, fun hd => (chars '.' hd).2 rfl⟩

theorem written_ipv4Text (address : Nat) : Domain.IsWritten (ipv4Text address) := by
  refine ⟨(bytesOf address).map decimal, by simp [bytesOf], fun label hl => ?_, ipv4Text_eq address⟩
  obtain ⟨n, hn, rfl⟩ := List.mem_map.mp hl
  exact writtenLabel_decimal (byte_lt n hn)

theorem labels_ipv4Text (address : Nat) :
    labels (ipv4Text address) = (bytesOf address).map decimal := by
  have split : (ipv4Text address).splitOn '.' = (bytesOf address).map decimal := by
    rw [ipv4Text_eq]
    refine Domain.splitOn_joinDots (by simp [bytesOf]) fun label hl => ?_
    obtain ⟨n, hn, rfl⟩ := List.mem_map.mp hl
    exact (writtenLabel_decimal (byte_lt n hn)).whole
  have last : decimal (address % 256) ≠ [] :=
    (decimal_byte _ (Nat.mod_lt _ (by decide))).2.2.2.2
  unfold labels
  rw [split]
  simp [bytesOf, last]

theorem endsInNumber_ipv4Text (address : Nat) : endsInNumber (ipv4Text address) = true := by
  have last := decimal_byte (address % 256) (Nat.mod_lt _ (by decide))
  unfold endsInNumber
  rw [labels_ipv4Text]
  exact last.2.2.1

theorem address_ipv4Text (h : address < 2 ^ 32) : address? (ipv4Text address) = .ok address := by
  have bytes : ∀ n ∈ bytesOf address, n < 256 := byte_lt
  have whole : combine [address / 0x1000000 % 256, address / 0x10000 % 256, address / 0x100 % 256]
      0x1000000 (address % 256) = address := by
    simp only [combine]
    omega
  have small : ∀ n ∈ [address / 0x1000000 % 256, address / 0x10000 % 256, address / 0x100 % 256],
      ¬ 255 < n := by
    intro n hn
    have hlt := bytes n (List.dropLast_subset _ hn)
    omega
  have last : ¬ 256 ≤ address % 256 := by omega
  have read := mapM_written fun n hn => (decimal_byte n (bytes n hn)).1
  rw [address?, labels_ipv4Text, read]
  simp only [bytesOf, List.dropLast_cons_cons, List.dropLast_singleton, List.getLast?_cons_cons,
    List.getLast?_singleton, Option.getD_some, whole]
  rw [if_neg]
  simp only [Bool.or_eq_true, decide_eq_true_eq, List.any_eq_true, not_or, not_exists, not_and]
  exact ⟨⟨by simp, by simpa using last⟩, small⟩

end ScriptHost.Url.Ipv4
