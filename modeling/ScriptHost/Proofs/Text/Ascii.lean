import ScriptHost.Proofs.Text.Pieces
import ScriptHost.Proofs.Text.Utf8

/-!
# ASCII in encoded text

An ASCII character is one byte, and no byte of another character is ASCII. So
encoded text can be searched and cut at an ASCII byte as the text can at its
character. Text that was encoded is read back whole.
-/

set_option autoImplicit false

namespace ScriptHost.Utf8

variable {a c : Char} {text : List Char}

theorem pieces_encode (text : List Char) : pieces (encode text) = text.map Piece.char := by
  have h := pieces_encode_append text []
  rw [List.append_nil] at h
  exact h.trans (List.append_nil _)

theorem collect_chars (text : List Char) (index : Nat) :
    collect (text.map Piece.char) index = .ok text := by
  induction text generalizing index with
  | nil => rfl
  | cons c text ih =>
    rw [List.map_cons, collect, ih]
    rfl

theorem decodeLossy_encode (text : List Char) : decodeLossy (encode text) = text := by
  have h := decodeLossy_encode_append text []
  rw [List.append_nil] at h
  exact h.trans (List.append_nil _)

theorem encode_injective {other : List Char} (h : encode text = encode other) : text = other := by
  rw [← decodeLossy_encode text, h, decodeLossy_encode]

theorem textLossy_encode (text : List Char) : textLossy (encode text) = String.ofList text := by
  rw [textLossy, decodeLossy_encode]

theorem text?_encode (text : List Char) : text? (encode text) = some (String.ofList text) := by
  rw [text?, decode, pieces_encode, collect_chars]

theorem text?_encodeString (text : String) : text? (encodeString text) = some text := by
  rw [encodeString, text?_encode, String.ofList_toList]

theorem text?_eq_some_iff {bytes : Bytes} {text : String} :
    text? bytes = some text ↔ bytes = encodeString text := by
  constructor
  · intro h
    unfold text? at h
    split at h
    · rename_i chars hd
      cases h
      rw [encodeString, String.toList_ofList]
      exact (encode_collect hd).symm
    · cases h
  · rintro rfl
    exact text?_encodeString text

theorem encode_cons (c : Char) (text : List Char) :
    encode (c :: text) = String.utf8EncodeChar c ++ encode text := List.flatMap_cons

theorem encode_append (before after : List Char) :
    encode (before ++ after) = encode before ++ encode after := List.flatMap_append

def byte (a : Char) : UInt8 := UInt8.ofNat a.toNat

theorem byte_toNat (ha : a.toNat < 0x80) : (byte a).toNat = a.toNat :=
  toNat_byte (Nat.lt_trans ha (by decide))

theorem char_of_ascii (ha : a.toNat < 0x80) : String.utf8EncodeChar a = [byte a] := by
  have hv : a.val.toNat ≤ 0x7F := Nat.le_of_lt_succ ha
  unfold String.utf8EncodeChar
  simp only [hv, if_true]
  rfl

theorem char_bytes (hc : 0x80 ≤ c.toNat) : ∀ b ∈ String.utf8EncodeChar c, 0x80 ≤ b.toNat := by
  have hv : ¬ c.val.toNat ≤ 0x7F := Nat.not_le.mpr hc
  unfold String.utf8EncodeChar
  simp only [hv, if_false]
  split
  · simp only [List.mem_cons, List.not_mem_nil, or_false]
    rintro b (rfl | rfl)
    · rw [toNat_byte (by omega)]
      omega
    · rw [toNat_byte (by omega)]
      omega
  split
  · simp only [List.mem_cons, List.not_mem_nil, or_false]
    rintro b (rfl | rfl | rfl) <;> rw [toNat_byte (by omega)] <;> omega
  · simp only [List.mem_cons, List.not_mem_nil, or_false]
    rintro b (rfl | rfl | rfl | rfl) <;> rw [toNat_byte (by omega)] <;> omega

theorem mem_char (ha : a.toNat < 0x80) (c : Char) : byte a ∈ String.utf8EncodeChar c ↔ c = a := by
  constructor
  · intro hm
    rcases Nat.lt_or_ge c.toNat 0x80 with hc | hc
    · rw [char_of_ascii hc, List.mem_singleton] at hm
      have hn := congrArg UInt8.toNat hm
      rw [byte_toNat ha, byte_toNat hc] at hn
      exact Char.toNat_inj.mp hn.symm
    · have hb := char_bytes hc _ hm
      rw [byte_toNat ha] at hb
      omega
  · rintro rfl
    rw [char_of_ascii ha]
    exact List.mem_singleton.mpr rfl

theorem mem_encode (ha : a.toNat < 0x80) : byte a ∈ encode text ↔ a ∈ text := by
  rw [encode, List.mem_flatMap]
  constructor
  · rintro ⟨c, hc, hb⟩
    exact (mem_char ha c).mp hb ▸ hc
  · exact fun hm => ⟨a, hm, (mem_char ha a).mpr rfl⟩

theorem takeWhile_encode (ha : a.toNat < 0x80) (text : List Char) :
    (encode text).takeWhile (· ≠ byte a) = encode (text.takeWhile (· ≠ a)) := by
  induction text with
  | nil => rfl
  | cons c text ih =>
    rw [encode_cons]
    by_cases hc : c = a
    · subst hc
      rw [char_of_ascii ha, List.takeWhile_cons_of_neg (by simp)]
      simp [encode]
    · have hall : ∀ b ∈ String.utf8EncodeChar c, decide (b ≠ byte a) = true := by
        intro b hb
        have hne : b ≠ byte a := fun he => hc ((mem_char ha c).mp (he ▸ hb))
        simpa using hne
      rw [List.takeWhile_append_of_pos hall, ih, List.takeWhile_cons_of_pos (by simpa using hc),
        encode_cons]

theorem encode_head (ha : a.toNat < 0x80) {b : UInt8} {rest : Bytes}
    (h : encode (c :: text) = b :: rest) : b = byte a ↔ c = a := by
  rw [encode_cons] at h
  rcases Nat.lt_or_ge c.toNat 0x80 with hc | hc
  · rw [char_of_ascii hc] at h
    obtain ⟨rfl, -⟩ := List.cons.inj h
    have hm := mem_char ha c
    rw [char_of_ascii hc, List.mem_singleton] at hm
    exact ⟨fun he => hm.mp he.symm, fun he => (hm.mpr he).symm⟩
  · have hb : b ∈ String.utf8EncodeChar c := by
      obtain ⟨lead, tail, he, -⟩ := leading_char c []
      rw [he] at h ⊢
      exact (List.cons.inj h).1 ▸ List.mem_cons_self
    have hlarge := char_bytes hc b hb
    constructor
    · rintro rfl
      rw [byte_toNat ha] at hlarge
      omega
    · rintro rfl
      omega

theorem encode_intercalate (ha : a.toNat < 0x80) (texts : List (List Char)) :
    encode ([a].intercalate texts) = [byte a].intercalate (texts.map encode) := by
  induction texts with
  | nil => rfl
  | cons first rest ih =>
    cases rest with
    | nil => simp
    | cons next rest =>
      rw [List.intercalate_cons_cons, encode_append, encode_append, ih]
      simp only [List.map_cons, List.intercalate_cons_cons]
      simp [encode, char_of_ascii ha]

theorem splitOn_encode (ha : a.toNat < 0x80) (text : List Char) :
    (encode text).splitOn (byte a) = (text.splitOn a).map encode := by
  have whole : [a].intercalate (text.splitOn a) = text := List.intercalate_splitOn a
  have free : ∀ bytes ∈ (text.splitOn a).map encode, byte a ∉ bytes := by
    intro bytes hb hm
    obtain ⟨piece, hp, rfl⟩ := List.mem_map.mp hb
    rw [List.splitOn_eq_splitOnP] at hp
    simpa using (mem_piece hp ((mem_encode ha).mp hm)).2
  have nonempty : (text.splitOn a).map encode ≠ [] := by simp [List.splitOn_ne_nil]
  have split := List.splitOn_intercalate (byte a) free nonempty
  rwa [← encode_intercalate ha, whole] at split

end ScriptHost.Utf8
