import ScriptHost.Proofs.Text.Utf8
import ScriptHost.Text.Percent

/-!
# What percent coding keeps

A place writes the characters that it keeps as they are and every other byte
as an escape. Decoding gives back any bytes that were written by a place that
escapes the percent sign.
-/

set_option autoImplicit false

namespace ScriptHost.Percent

open ScriptHost.Utf8

section Text

variable {place : Place} {c : Char} {text : List Char}

def Place.keeps (place : Place) (c : Char) : Bool :=
  c.toNat < 0x80 && !place.escapes (UInt8.ofNat c.toNat)

theorem keeps_bounds (h : place.keeps c = true) : 0x20 ≤ c.toNat ∧ c.toNat < 0x80 := by
  simp only [Place.keeps, Bool.and_eq_true, decide_eq_true_eq, Bool.not_eq_true'] at h
  obtain ⟨ascii, escapes⟩ := h
  simp only [Place.escapes, Bool.or_eq_false_iff, decide_eq_false_iff_not,
    UInt8.lt_iff_toNat_lt, toNat_byte (Nat.lt_trans ascii (by decide)),
    UInt8.reduceToNat] at escapes
  exact ⟨by omega, ascii⟩

theorem utf8EncodeChar_ascii (h : c.toNat < 0x80) :
    String.utf8EncodeChar c = [UInt8.ofNat c.toNat] := by
  have hv : c.val.toNat ≤ 0x7F := Nat.le_of_lt_succ h
  unfold String.utf8EncodeChar
  simp only [hv, if_true, Char.toNat]

theorem encode_kept (h : ∀ c ∈ text, place.keeps c = true) : encode place text = text := by
  induction text with
  | nil => rfl
  | cons c text ih =>
    have hc := h c List.mem_cons_self
    simp only [Place.keeps, Bool.and_eq_true, decide_eq_true_eq, Bool.not_eq_true'] at hc
    have hb : (UInt8.ofNat c.toNat).toNat = c.toNat := toNat_byte (by omega)
    have ht := ih fun d hd => h d (List.mem_cons_of_mem c hd)
    unfold encode at ht ⊢
    rw [Utf8.encode, List.flatMap_cons, utf8EncodeChar_ascii hc.1]
    simp only [encodeBytes, List.singleton_append, List.flatMap_cons, encodeByte, hc.2, hb,
      Bool.false_eq_true, if_false, Char.ofNat_toNat]
    exact congrArg (c :: ·) ht

end Text

section Decoding

variable {place : Place} {b : UInt8}

theorem hexDigitUpper_ascii : ∀ n < 16, (Ascii.hexDigitUpper n).toNat < 0x80 := by decide

theorem hexValue_hexDigitUpper :
    ∀ n < 16, hexByte? (UInt8.ofNat (Ascii.hexDigitUpper n).toNat) = some n := by decide

theorem decodeBytes_escape (b : UInt8) (rest : Bytes) :
    decodeBytes (Utf8.encode (escape b) ++ rest) = b :: decodeBytes rest := by
  have hb : b.toNat < 256 := b.toNat_lt
  have high := hexDigitUpper_ascii (b.toNat / 16) (by omega)
  have low := hexDigitUpper_ascii (b.toNat % 16) (by omega)
  have he : Utf8.encode (escape b) = [0x25, UInt8.ofNat (Ascii.hexDigitUpper (b.toNat / 16)).toNat,
      UInt8.ofNat (Ascii.hexDigitUpper (b.toNat % 16)).toNat] := by
    simp only [Utf8.encode, escape, List.flatMap_cons, List.flatMap_nil, utf8EncodeChar_ascii high,
      utf8EncodeChar_ascii low]
    rfl
  have hn : b.toNat / 16 * 16 + b.toNat % 16 = b.toNat := by omega
  rw [he]
  simp only [List.cons_append, List.nil_append, decodeBytes, if_true,
    hexValue_hexDigitUpper _ (show b.toNat / 16 < 16 by omega),
    hexValue_hexDigitUpper _ (show b.toNat % 16 < 16 by omega), hn, UInt8.ofNat_toNat]

theorem decodeBytes_kept (hb : b ≠ 0x25) (rest : Bytes) :
    decodeBytes (b :: rest) = b :: decodeBytes rest := by
  rw [decodeBytes.eq_def]
  simp only [hb, if_false]

theorem decodeBytes_encodeByte (hp : place.escapes 0x25 = true) (b : UInt8) (rest : Bytes) :
    decodeBytes (Utf8.encode (encodeByte place b) ++ rest) = b :: decodeBytes rest := by
  unfold encodeByte
  split
  · exact decodeBytes_escape b rest
  · rename_i hkept
    have hne : b ≠ 0x25 := fun h => hkept (h ▸ hp)
    have hb : b.toNat < 0x80 := by
      simp only [Place.escapes, Bool.or_eq_true, not_or, decide_eq_true_eq, UInt8.le_iff_toNat_le,
        UInt8.reduceToNat] at hkept
      omega
    have hv : b.toNat.isValidChar := Or.inl (by omega)
    have hc : (Char.ofNat b.toNat).toNat = b.toNat := by
      rw [Char.ofNat, dif_pos hv]
      rfl
    have he : Utf8.encode [Char.ofNat b.toNat] = [b] := by
      simp [Utf8.encode, utf8EncodeChar_ascii (hc ▸ hb), hc]
    rw [he]
    exact decodeBytes_kept hne rest

theorem decode_encodeBytes (hp : place.escapes 0x25 = true) (bytes : Bytes) :
    decode (encodeBytes place bytes) = bytes := by
  induction bytes with
  | nil => rfl
  | cons b bytes ih =>
    have he : Utf8.encode (encodeBytes place (b :: bytes)) =
        Utf8.encode (encodeByte place b) ++ Utf8.encode (encodeBytes place bytes) := by
      simp [Utf8.encode, encodeBytes]
    rw [decode, he, decodeBytes_encodeByte hp]
    exact congrArg (b :: ·) ih

end Decoding

section Segments

def isSegmentChar (c : Char) : Bool := Place.path.keeps c && c ≠ '/' && c ≠ '\\'

theorem segmentChar_of_byte : ∀ n < 256,
    (encodeByte .pathSegment (UInt8.ofNat n)).all isSegmentChar = true := by decide +kernel

theorem segmentChar_encodeBytes (bytes : Bytes) :
    ∀ c ∈ encodeBytes .pathSegment bytes, isSegmentChar c = true := by
  intro c hc
  obtain ⟨b, -, hb⟩ := List.mem_flatMap.mp hc
  have h := segmentChar_of_byte b.toNat b.toNat_lt
  rw [UInt8.ofNat_toNat] at h
  exact List.all_eq_true.mp h c hb

end Segments

end ScriptHost.Percent
