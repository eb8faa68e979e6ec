import ScriptHost.Proofs.Text.Encoded
import ScriptHost.Proofs.Url.Ipv4
import ScriptHost.Proofs.Url.Ipv6
import ScriptHost.Proofs.Url.Reference

/-!
# Reading back a host

Every host that is read has a written form of one of four kinds. In its text no
character ends the server part, and a colon only stands between brackets. The
text is read as the same host.
-/

set_option autoImplicit false

namespace ScriptHost.Url.Host

open Domain (IsDomainChar)

structure IsPlain (name : List Char) : Prop where
  ne_nil : name ≠ []
  kept : ∀ c ∈ name, Percent.Place.keeps .control c = true
  allowed : ∀ c ∈ name, c ∉ forbidden

inductive IsWritten : Bool → Host → Prop
  | ipv6 {special : Bool} {pieces : List Nat} (h : Ipv6.IsAddress pieces) :
      IsWritten special (.ipv6 pieces)
  | ipv4 {address : Nat} (h : address < 2 ^ 32) : IsWritten true (.ipv4 address)
  | domain {name : List Char} (h : Domain.IsWritten name) (hne : name ≠ [])
      (hn : Ipv4.endsInNumber name = false) : IsWritten true (.domain name)
  | plain {name : List Char} (h : IsPlain name) : IsWritten false (.domain name)

section Reading

variable {text inner name : List Char} {host : Host} {special : Bool}

theorem written_of_bracketed (h : bracketed inner = .ok host) : IsWritten special host := by
  unfold bracketed at h
  split at h
  · obtain ⟨pieces, ha, rfl⟩ := ok_of_map h
    exact .ipv6 (Ipv6.address_isAddress ha)
  · cases h

theorem written_of_domainText (h : ofDomainText text = .ok host) : IsWritten true host := by
  unfold ofDomainText at h
  split at h
  · exact written_of_bracketed h
  · obtain ⟨name, hd, h⟩ := ok_of_bind h
    split at h
    · cases h
    rename_i nonempty
    split at h
    · obtain ⟨address, ha, rfl⟩ := ok_of_map h
      exact .ipv4 (Ipv4.address_lt ha)
    · rename_i other
      cases h
      exact .domain (Domain.written_of_bytes hd) (by simpa using nonempty)
        (Bool.eq_false_iff.mpr other)

theorem isPlain_encode (hne : text ≠ []) (h : ∀ c ∈ text, c ∉ forbidden) :
    IsPlain (Percent.encode .control text) :=
  ⟨Percent.encode_ne_nil hne, Percent.keeps_encode (by decide),
    Percent.forall_mem_encode (by decide) h⟩

theorem written_of_plainText (h : ofPlainText text = .ok (some host)) : IsWritten false host := by
  unfold ofPlainText at h
  split at h
  · cases h
  · obtain ⟨read, hb, he⟩ := ok_of_map h
    cases he
    exact written_of_bracketed hb
  · rename_i nonempty _
    split at h
    · cases h
    · rename_i allowed
      cases h
      refine .plain (isPlain_encode nonempty fun c hc hf => allowed ?_)
      exact List.any_eq_true.mpr ⟨c, hc, List.contains_iff_mem.mpr hf⟩

end Reading

section Characters

variable {host : Host} {special : Bool} {c : Char}

structure IsServerChar (c : Char) : Prop where
  literal : IsLiteral c
  slash : isSlash c = false
  sign : c ≠ '@'
  bar : c ≠ '|'

instance (c : Char) : Decidable (IsServerChar c) :=
  decidable_of_iff (IsLiteral c ∧ isSlash c = false ∧ c ≠ '@' ∧ c ≠ '|')
    ⟨fun ⟨literal, slash, sign, bar⟩ => ⟨literal, slash, sign, bar⟩,
      fun h => ⟨h.literal, h.slash, h.sign, h.bar⟩⟩

/-- Only between brackets does a colon stand. -/
def IsClosed (text : List Char) : Prop :=
  (∃ inner, text = '[' :: inner ++ [']'] ∧ ∀ c ∈ inner, c ≠ '[' ∧ c ≠ ']') ∨
    ∀ c ∈ text, c ≠ ':' ∧ c ≠ '['

def serverMarks : List Char := " #?/\\@|:[".toList

theorem serverChar_of (control : 0x20 ≤ c.toNat) (h : ∀ d ∈ serverMarks, c ≠ d) :
    IsServerChar c ∧ c ≠ ':' ∧ c ≠ '[' := by
  have space : c.toNat ≠ 0x20 := fun he => h ' ' (by decide) (Char.toNat_inj.mp he)
  have slash : isSlash c = false := by simp [isSlash, h '/' (by decide), h '\\' (by decide)]
  exact ⟨⟨⟨by omega, h '#' (by decide), h '?' (by decide)⟩, slash, h '@' (by decide),
    h '|' (by decide)⟩, h ':' (by decide), h '[' (by decide)⟩

theorem serverChar_domain (h : IsDomainChar c) : IsServerChar c ∧ c ≠ ':' ∧ c ≠ '[' := by
  have allowed := h.allowed
  apply serverChar_of
  · by_contra hc
    simp [Domain.isDenied, Nat.lt_of_not_le hc] at allowed
  · rintro d hd rfl
    have denied : serverMarks.all (Domain.isDenied ·) := by decide
    rw [List.all_eq_true.mp denied c hd] at allowed
    cases allowed

theorem serverChar_plain (hk : Percent.Place.keeps .control c = true) (hf : c ∉ forbidden) :
    IsServerChar c ∧ c ≠ ':' ∧ c ≠ '[' := by
  refine serverChar_of (Percent.keeps_bounds hk).1 ?_
  rintro d hd rfl
  have excluded : serverMarks.all (· ∈ forbidden) := by decide
  exact hf (List.all_iff_forall_prop.mp excluded c hd)

theorem isHex_small (h : Ascii.isHex c = true) : c.toNat < 128 := by
  by_contra large
  have none : Ascii.hexValue? c = none := by
    rw [Ascii.hexValue?, Ascii.isDigit, if_neg, if_neg, if_neg]
    all_goals
      simp only [Bool.and_eq_true, decide_eq_true_eq]
      omega
  rw [Ascii.isHex, none] at h
  cases h

theorem serverChar_address (h : Ascii.isHex c = true ∨ c = ':') :
    IsServerChar c ∧ c ≠ '[' ∧ c ≠ ']' := by
  have small : c.toNat < 128 := by
    rcases h with h | rfl
    · exact isHex_small h
    · decide
  have all : ∀ c : Char, c.toNat < 128 → (Ascii.isHex c = true ∨ c = ':') →
      IsServerChar c ∧ c ≠ '[' ∧ c ≠ ']' := Utf8.forall_ascii (by decide +kernel)
  exact all c small h

theorem IsWritten.chars (h : IsWritten special host) : ∀ c ∈ host.text, IsServerChar c := by
  intro c hc
  cases h with
  | ipv6 h =>
    rw [Host.text, List.cons_append, List.mem_cons, List.mem_append, List.mem_singleton] at hc
    rcases hc with rfl | hc | rfl
    · decide
    · exact (serverChar_address (Ipv6.mem_ipv6Text hc)).1
    · decide
  | ipv4 h => exact (serverChar_domain ((Ipv4.written_ipv4Text _).chars c hc)).1
  | domain h _ _ => exact (serverChar_domain (h.chars c hc)).1
  | plain h => exact (serverChar_plain (h.kept c hc) (h.allowed c hc)).1

theorem IsWritten.closed (h : IsWritten special host) : IsClosed host.text := by
  cases h with
  | ipv6 h => exact Or.inl ⟨_, rfl, fun c hc => (serverChar_address (Ipv6.mem_ipv6Text hc)).2⟩
  | ipv4 h => exact Or.inr fun c hc => (serverChar_domain ((Ipv4.written_ipv4Text _).chars c hc)).2
  | domain h _ _ => exact Or.inr fun c hc => (serverChar_domain (h.chars c hc)).2
  | plain h => exact Or.inr fun c hc => (serverChar_plain (h.kept c hc) (h.allowed c hc)).2

theorem IsWritten.ne_nil (h : IsWritten special host) : host.text ≠ [] := by
  cases h with
  | ipv6 h => exact List.cons_ne_nil _ _
  | ipv4 h =>
    intro he
    have hl := congrArg List.length he
    simp [Host.text, ipv4Text] at hl
  | domain h hne _ => exact hne
  | plain h => exact h.ne_nil

theorem IsWritten.not_drive (h : IsWritten special host) : isDriveLetter host.text = false := by
  rw [Bool.eq_false_iff]
  intro hd
  unfold isDriveLetter at hd
  split at hd
  · rename_i a b ht
    have hmark : b = ':' ∨ b = '|' := by
      rw [Bool.and_eq_true] at hd
      simpa [isDriveMark] using hd.2
    have hb : b ∈ host.text := by rw [ht]; simp
    rcases hmark with rfl | rfl
    · rcases h.closed with ⟨inner, he, -⟩ | hc
      · rw [ht] at he
        rw [(List.cons.inj he).1] at hd
        cases hd
      · exact (hc ':' hb).1 rfl
    · exact (h.chars '|' hb).bar rfl
  · cases hd

end Characters

section Rereading

variable {host : Host} {special : Bool} {pieces : List Nat} {name : List Char}

theorem bracketed_ipv6Text (h : Ipv6.IsAddress pieces) :
    bracketed (ipv6Text pieces ++ [']']) = .ok (.ipv6 pieces) := by
  rw [bracketed, List.getLast?_concat, List.dropLast_concat, if_pos rfl, Ipv6.address_ipv6Text h]
  rfl

theorem ofDomainText_written (h : Domain.IsWritten name) (hne : name ≠ []) :
    ofDomainText name = if Ipv4.endsInNumber name then (Ipv4.address? name).map .ipv4
      else .ok (.domain name) := by
  have read := h.read
  cases name with
  | nil => exact absurd rfl hne
  | cons c rest =>
    have hc : c ≠ '[' := (serverChar_domain (h.chars c List.mem_cons_self)).2.2
    simp only [ofDomainText, read]
    split
    · rename_i he
      exact absurd (List.cons.inj he).1 hc
    · rfl

/-- The text of a host is read as that host. -/
theorem IsWritten.read_domainText (h : IsWritten true host) :
    ofDomainText host.text = .ok host := by
  have hne := h.ne_nil
  cases h with
  | ipv6 h => exact bracketed_ipv6Text h
  | ipv4 h =>
    rw [Host.text, ofDomainText_written (Ipv4.written_ipv4Text _) hne,
      Ipv4.endsInNumber_ipv4Text, Ipv4.address_ipv4Text h]
    rfl
  | domain h hne hn =>
    rw [Host.text, ofDomainText_written h hne, hn]
    rfl

theorem IsWritten.read_plainText (h : IsWritten false host) :
    ofPlainText host.text = .ok (some host) := by
  cases h with
  | ipv6 h =>
    show (bracketed (ipv6Text _ ++ [']'])).map some = _
    rw [bracketed_ipv6Text h]
    rfl
  | @plain name h =>
    have allowed : name.any forbidden.contains = false := by
      rw [List.any_eq_false]
      exact fun c hc hf => h.allowed c hc (List.contains_iff_mem.mp hf)
    have same := Percent.encode_kept h.kept
    cases name with
    | nil => exact absurd rfl h.ne_nil
    | cons c rest =>
      have hc : c ≠ '[' := by
        rintro rfl
        exact h.allowed '[' List.mem_cons_self (by decide)
      simp only [Host.text, ofPlainText, allowed, same]
      split
      · rename_i he
        cases he
      · rename_i he
        exact absurd (List.cons.inj he).1 hc
      · rfl

end Rereading

end ScriptHost.Url.Host
