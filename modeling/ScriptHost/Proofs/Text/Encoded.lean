import Mathlib.Data.Bool.AllAny
import ScriptHost.Proofs.Text.Ascii
import ScriptHost.Proofs.Text.Percent

/-!
# Encoding twice

What a place writes are the characters that it keeps, and the percent signs and
hexadecimal digits of escapes. Most places keep these too, so text that they
have written is written again as it stands.
-/

set_option autoImplicit false

namespace ScriptHost.Percent

variable {place : Place} {text : List Char} {c : Char}

theorem encode_append (place : Place) (front back : List Char) :
    encode place (front ++ back) = encode place front ++ encode place back := by
  simp [encode, encodeBytes, Utf8.encode_append]

theorem encode_cons (place : Place) (c : Char) (text : List Char) :
    encode place (c :: text) = encode place [c] ++ encode place text :=
  encode_append place [c] text

def escapeChars : List Char := "%0123456789ABCDEF".toList

theorem mem_escape (b : UInt8) : ∀ c ∈ escape b, c ∈ escapeChars := by
  have all : ∀ b, (escape b).all (· ∈ escapeChars) := Utf8.forall_byte (by decide +kernel)
  exact List.all_iff_forall_prop.mp (all b)

theorem escapes_wide {b : UInt8} (h : 0x80 ≤ b.toNat) : place.escapes b = true := by
  have hb : (0x7F : UInt8) ≤ b := UInt8.le_iff_toNat_le.mpr (Nat.le_of_succ_le h)
  simp [Place.escapes, hb]

theorem encode_escaped (h : place.keeps c = false) :
    ∃ b rest, place.escapes b = true ∧ encode place [c] = escape b ++ rest := by
  rcases Nat.lt_or_ge c.toNat 0x80 with small | large
  · have he : place.escapes (UInt8.ofNat c.toNat) = true := by simpa [Place.keeps, small] using h
    refine ⟨UInt8.ofNat c.toNat, [], he, ?_⟩
    simp [encode, encodeBytes, Utf8.encode, utf8EncodeChar_ascii small, encodeByte, he]
  · obtain ⟨lead, tail, hc, -⟩ := Utf8.leading_char c []
    have hl : lead ∈ String.utf8EncodeChar c := hc ▸ List.mem_cons_self
    have he : place.escapes lead = true := escapes_wide (Utf8.char_bytes large lead hl)
    refine ⟨lead, encodeBytes place tail, he, ?_⟩
    simp [encode, encodeBytes, Utf8.encode, hc, encodeByte, he]

theorem mem_encode_char (h : c ∈ encode place text) :
    c ∈ text ∧ place.keeps c = true ∨ c ∈ escapeChars := by
  obtain ⟨b, hb, hc⟩ := List.mem_flatMap.mp h
  unfold encodeByte at hc
  split at hc
  · exact Or.inr (mem_escape b c hc)
  · rename_i kept
    obtain ⟨d, hd, hm⟩ := List.mem_flatMap.mp hb
    rcases Nat.lt_or_ge d.toNat 0x80 with small | large
    · rw [utf8EncodeChar_ascii small, List.mem_singleton] at hm
      have hn : b.toNat = d.toNat := by rw [hm, Utf8.toNat_byte (by omega)]
      rw [List.mem_singleton, hn, Char.ofNat_toNat] at hc
      rw [hm] at kept
      rw [hc]
      exact Or.inl ⟨hd, by simpa [Place.keeps, small] using kept⟩
    · exact absurd (escapes_wide (Utf8.char_bytes large b hm)) kept

theorem forall_mem_encode {P : Char → Prop} [DecidablePred P] (escapes : escapeChars.all (P ·))
    (h : ∀ c ∈ text, P c) : ∀ c ∈ encode place text, P c := fun c hc =>
  (mem_encode_char hc).elim (fun hm => h c hm.1) (List.all_iff_forall_prop.mp escapes c)

theorem keeps_escapeChar (hp : place.escapes 0x25 = false) :
    ∀ c ∈ escapeChars, place.keeps c = true := by
  apply List.all_eq_true.mp
  cases place with
  | pathSegment => revert hp; decide
  | control | path | userinfo | query | specialQuery => decide

theorem keeps_encode (hp : place.escapes 0x25 = false) :
    ∀ c ∈ encode place text, place.keeps c = true := fun c hc =>
  (mem_encode_char hc).elim And.right (keeps_escapeChar hp c)

theorem encode_encode (hp : place.escapes 0x25 = false) (text : List Char) :
    encode place (encode place text) = encode place text := encode_kept (keeps_encode hp)

theorem encode_char_cases (place : Place) (c : Char) :
    place.keeps c = true ∧ encode place [c] = [c] ∨
      ∃ b rest, place.escapes b = true ∧ encode place [c] = escape b ++ rest := by
  cases h : place.keeps c with
  | false => exact Or.inr (encode_escaped h)
  | true => exact Or.inl ⟨rfl, encode_kept (by simpa using h)⟩

theorem encode_ne_nil (h : text ≠ []) : encode place text ≠ [] := by
  cases text with
  | nil => exact absurd rfl h
  | cons c text =>
    rw [encode_cons]
    rcases encode_char_cases place c with ⟨-, he⟩ | ⟨b, rest, -, he⟩ <;> simp [he, escape]

theorem encode_head (h : c ∈ (encode place text).head?) : c ∈ text.head? ∨ c = '%' := by
  cases text with
  | nil => cases h
  | cons d text =>
    rw [encode_cons] at h
    rcases encode_char_cases place d with ⟨-, he⟩ | ⟨b, rest, -, he⟩
    · rw [he] at h
      exact Or.inl h
    · rw [he] at h
      exact Or.inr (Option.some.inj h).symm

theorem escape_infix (h : encode place text ≠ text) :
    ∃ b, place.escapes b = true ∧ escape b <:+: encode place text := by
  induction text with
  | nil => exact absurd rfl h
  | cons c text ih =>
    rw [encode_cons] at h ⊢
    rcases encode_char_cases place c with ⟨-, he⟩ | ⟨b, rest, hb, he⟩
    · rw [he] at h ⊢
      obtain ⟨b, hb, hi⟩ := ih fun ht => h (by rw [ht]; rfl)
      exact ⟨b, hb, hi.trans (List.suffix_append _ _).isInfix⟩
    · rw [he, List.append_assoc]
      exact ⟨b, hb, (List.prefix_append _ _).isInfix⟩

end ScriptHost.Percent
