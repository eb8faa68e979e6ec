import ScriptHost.Text.Utf8

/-!
# Reading back what was encoded

The bytes of a character are read as that character whatever follows them, so
encoded text is read back, also from the front of other bytes. No other bytes are
read as a character: what is read without a fault is encoded to the same bytes.
-/

set_option autoImplicit false

namespace ScriptHost.Utf8

section Bytes

variable {n m : Nat}

theorem toNat_byte (h : n < 256) : (UInt8.ofNat n).toNat = n := by
  simp [Nat.mod_eq_of_lt h]

theorem isContinuation_byte (h : n < 64) : isContinuation (UInt8.ofNat (n + 128)) = true := by
  have hn := toNat_byte (n := n + 128) (by omega)
  simp only [isContinuation, Bool.and_eq_true, decide_eq_true_eq, UInt8.le_iff_toNat_le, hn,
    UInt8.reduceToNat]
  omega

theorem low_byte (h : n < 64) : low (UInt8.ofNat (n + 128)) = n := by
  have hn := toNat_byte (n := n + 128) (by omega)
  rw [low, hn]
  omega

theorem width_byte (h : n < 256) : width (UInt8.ofNat n) =
    if n < 0x80 then 1 else if 0xC2 ≤ n ∧ n ≤ 0xDF then 2 else if 0xE0 ≤ n ∧ n ≤ 0xEF then 3
    else if 0xF0 ≤ n ∧ n ≤ 0xF4 then 4 else 0 := by
  have hn := toNat_byte h
  simp [width, UInt8.le_iff_toNat_le, UInt8.lt_iff_toNat_lt, hn]

/-- Overlong forms, surrogates and values past the last code point have another second byte. -/
theorem isSecond_byte (h : n < 256) (hm : m < 64) (overlong : n = 0xE0 → 32 ≤ m)
    (surrogate : n = 0xED → m < 32) (small : n = 0xF0 → 16 ≤ m) (large : n = 0xF4 → m < 16) :
    isSecond (UInt8.ofNat n) (UInt8.ofNat (m + 128)) = true := by
  have hn := toNat_byte h
  have hm' := toNat_byte (n := m + 128) (by omega)
  simp only [isSecond, isContinuation_byte hm, ← UInt8.toNat_inj, hn, UInt8.le_iff_toNat_le, hm',
    UInt8.reduceToNat]
  split
  · simp only [Bool.and_eq_true, decide_eq_true_eq]
    omega
  · split
    · simp only [Bool.and_eq_true, decide_eq_true_eq]
      omega
    · split
      · simp only [Bool.and_eq_true, decide_eq_true_eq]
        omega
      · split
        · simp only [Bool.and_eq_true, decide_eq_true_eq]
          omega
        · rfl

/-- What is checked for the numbers of all bytes holds of every byte. -/
theorem forall_byte {P : UInt8 → Prop} (h : ∀ n < 256, P (UInt8.ofNat n)) : ∀ b, P b := by
  intro b
  have hb := h b.toNat b.toNat_lt
  rwa [UInt8.ofNat_toNat] at hb

theorem forall_ascii {P : Char → Prop} (h : ∀ n < 128, P (Char.ofNat n)) :
    ∀ c : Char, c.toNat < 128 → P c := by
  intro c hc
  have hn := h c.toNat hc
  rwa [Char.ofNat_toNat] at hn

end Bytes

section Leading

variable {a b c d : UInt8} {rest : Bytes}

theorem leading_one (hw : width a = 1) : leading a rest = (.char (Char.ofNat a.toNat), 0) := by
  simp [leading, hw]

theorem leading_two (hw : width a = 2) (hb : isSecond a b = true) :
    leading a (b :: rest) = (.char (pair a b), 1) := by
  simp [leading, hw, hb]

theorem leading_three (hw : width a = 3) (hb : isSecond a b = true)
    (hc : isContinuation c = true) : leading a (b :: c :: rest) = (.char (triple a b c), 2) := by
  simp [leading, hw, hb, hc]

theorem leading_four (hw : width a = 4) (hb : isSecond a b = true) (hc : isContinuation c = true)
    (hd : isContinuation d = true) :
    leading a (b :: c :: d :: rest) = (.char (quadruple a b c d), 3) := by
  simp [leading, hw, hb, hc, hd]

end Leading

section Forms

variable {v : Nat} {rest : Bytes}

theorem leading_ascii (h : v ≤ 0x7F) :
    leading (UInt8.ofNat v) rest = (.char (Char.ofNat v), 0) := by
  have hw : width (UInt8.ofNat v) = 1 := by rw [width_byte (by omega), if_pos (by omega)]
  rw [leading_one hw, toNat_byte (by omega)]

theorem leading_pair (h : 0x7F < v) (hv : v ≤ 0x7FF) :
    leading (UInt8.ofNat (v / 64 + 192)) (UInt8.ofNat (v % 64 + 128) :: rest) =
      (.char (Char.ofNat v), 1) := by
  have hw : width (UInt8.ofNat (v / 64 + 192)) = 2 := by
    rw [width_byte (by omega), if_neg (by omega), if_pos (by omega)]
  have hs := isSecond_byte (n := v / 64 + 192) (m := v % 64) (by omega) (by omega) (by omega)
    (by omega) (by omega) (by omega)
  have hn : (v / 64 + 192) % 32 * 64 + v % 64 = v := by omega
  rw [leading_two hw hs, pair, toNat_byte (by omega), low_byte (by omega), hn]

theorem leading_triple (h : 0x7FF < v) (hv : v ≤ 0xFFFF) (hc : v < 0xD800 ∨ 0xDFFF < v) :
    leading (UInt8.ofNat (v / 4096 + 224))
        (UInt8.ofNat (v / 64 % 64 + 128) :: UInt8.ofNat (v % 64 + 128) :: rest) =
      (.char (Char.ofNat v), 2) := by
  have hw : width (UInt8.ofNat (v / 4096 + 224)) = 3 := by
    rw [width_byte (by omega), if_neg (by omega), if_neg (by omega), if_pos (by omega)]
  have hs := isSecond_byte (n := v / 4096 + 224) (m := v / 64 % 64) (by omega) (by omega)
    (by omega) (by omega) (by omega) (by omega)
  have hn : ((v / 4096 + 224) % 16 * 64 + v / 64 % 64) * 64 + v % 64 = v := by omega
  rw [leading_three hw hs (isContinuation_byte (by omega)), triple, toNat_byte (by omega),
    low_byte (by omega), low_byte (by omega), hn]

theorem leading_quadruple (h : 0xFFFF < v) (hv : v < 0x110000) :
    leading (UInt8.ofNat (v / 262144 + 240)) (UInt8.ofNat (v / 4096 % 64 + 128) ::
        UInt8.ofNat (v / 64 % 64 + 128) :: UInt8.ofNat (v % 64 + 128) :: rest) =
      (.char (Char.ofNat v), 3) := by
  have hw : width (UInt8.ofNat (v / 262144 + 240)) = 4 := by
    rw [width_byte (by omega), if_neg (by omega), if_neg (by omega), if_neg (by omega),
      if_pos (by omega)]
  have hs := isSecond_byte (n := v / 262144 + 240) (m := v / 4096 % 64) (by omega) (by omega)
    (by omega) (by omega) (by omega) (by omega)
  have hn : (((v / 262144 + 240) % 8 * 64 + v / 4096 % 64) * 64 + v / 64 % 64) * 64 + v % 64 =
      v := by omega
  rw [leading_four hw hs (isContinuation_byte (by omega)) (isContinuation_byte (by omega)),
    quadruple, toNat_byte (by omega), low_byte (by omega), low_byte (by omega),
    low_byte (by omega), hn]

end Forms

theorem leading_char (c : Char) (rest : Bytes) :
    ∃ lead tail, String.utf8EncodeChar c = lead :: tail ∧
      leading lead (tail ++ rest) = (.char c, tail.length) := by
  have hv : c.val.toNat < 0xD800 ∨ 0xDFFF < c.val.toNat ∧ c.val.toNat < 0x110000 := c.valid
  have hc : Char.ofNat c.val.toNat = c := Char.ofNat_toNat c
  unfold String.utf8EncodeChar
  generalize c.val.toNat = v at *
  subst hc
  dsimp only
  split
  · exact ⟨_, _, rfl, leading_ascii (by omega)⟩
  split
  · rw [Nat.mod_eq_of_lt (a := v / 64) (by omega)]
    exact ⟨_, _, rfl, leading_pair (by omega) (by omega)⟩
  split
  · rw [Nat.mod_eq_of_lt (a := v / 4096) (by omega)]
    exact ⟨_, _, rfl, leading_triple (by omega) (by omega) (by omega)⟩
  · rw [Nat.mod_eq_of_lt (a := v / 262144) (by omega)]
    exact ⟨_, _, rfl, leading_quadruple (by omega) (by omega)⟩

theorem piecesAfter_length (skipped rest : Bytes) :
    piecesAfter skipped.length (skipped ++ rest) = piecesAfter 0 rest := by
  induction skipped with
  | nil => rfl
  | cons b skipped ih => exact ih

theorem pieces_encode_append (text : List Char) (rest : Bytes) :
    pieces (encode text ++ rest) = text.map Piece.char ++ pieces rest := by
  induction text with
  | nil => rfl
  | cons c text ih =>
    obtain ⟨lead, tail, he, hl⟩ := leading_char c (encode text ++ rest)
    have hs : encode (c :: text) ++ rest = lead :: (tail ++ (encode text ++ rest)) := by
      simp [encode, he]
    rw [hs, pieces, piecesAfter, hl, piecesAfter_length]
    exact congrArg (Piece.char c :: ·) ih

theorem decodeLossy_encode_append (text : List Char) (rest : Bytes) :
    decodeLossy (encode text ++ rest) = text ++ decodeLossy rest := by
  have hs : text.map (Piece.shown ∘ Piece.char) = text := by simp [Function.comp_def, Piece.shown]
  simp [decodeLossy, pieces_encode_append, hs]

section Sound

variable {a b c d : UInt8} {v n : Nat} {rest : Bytes} {x : Char}

theorem encode_ofNat (hv : v < 0xD800 ∨ 0xDFFF < v ∧ v < 0x110000) :
    String.utf8EncodeChar (Char.ofNat v) =
      if v ≤ 0x7F then [UInt8.ofNat v]
      else if v ≤ 0x7FF then [UInt8.ofNat (v / 64 + 192), UInt8.ofNat (v % 64 + 128)]
      else if v ≤ 0xFFFF then [UInt8.ofNat (v / 4096 + 224), UInt8.ofNat (v / 64 % 64 + 128),
        UInt8.ofNat (v % 64 + 128)]
      else [UInt8.ofNat (v / 262144 + 240), UInt8.ofNat (v / 4096 % 64 + 128),
        UInt8.ofNat (v / 64 % 64 + 128), UInt8.ofNat (v % 64 + 128)] := by
  have hn : (Char.ofNat v).val.toNat = v := by
    rw [Char.ofNat, dif_pos (show v.isValidChar from hv)]
    rfl
  unfold String.utf8EncodeChar
  rw [hn]
  dsimp only
  split
  · rfl
  split
  · rw [Nat.mod_eq_of_lt (a := v / 64) (by omega)]
  split
  · rw [Nat.mod_eq_of_lt (a := v / 4096) (by omega)]
  · rw [Nat.mod_eq_of_lt (a := v / 262144) (by omega)]

theorem eq_byte (h : a.toNat = n) : UInt8.ofNat n = a := by
  rw [← h, UInt8.ofNat_toNat]

theorem width_bounds (a : UInt8) : (width a = 1 → a.toNat < 0x80) ∧
    (width a = 2 → 0xC2 ≤ a.toNat ∧ a.toNat ≤ 0xDF) ∧
    (width a = 3 → 0xE0 ≤ a.toNat ∧ a.toNat ≤ 0xEF) ∧
    (width a = 4 → 0xF0 ≤ a.toNat ∧ a.toNat ≤ 0xF4) ∧ width a ≤ 4 := by
  have h := width_byte a.toNat_lt
  rw [UInt8.ofNat_toNat] at h
  rw [h]
  split
  · omega
  split
  · omega
  split
  · omega
  split <;> omega

theorem isContinuation_iff : isContinuation b = true ↔ 0x80 ≤ b.toNat ∧ b.toNat ≤ 0xBF := by
  simp [isContinuation, UInt8.le_iff_toNat_le]

theorem isSecond_bounds (h : isSecond a b = true) : (0x80 ≤ b.toNat ∧ b.toNat ≤ 0xBF) ∧
    (a.toNat = 0xE0 → 0xA0 ≤ b.toNat) ∧ (a.toNat = 0xED → b.toNat ≤ 0x9F) ∧
    (a.toNat = 0xF0 → 0x90 ≤ b.toNat) ∧ (a.toNat = 0xF4 → b.toNat ≤ 0x8F) := by
  simp only [isSecond, ← UInt8.toNat_inj, UInt8.reduceToNat] at h
  split at h
  · simp only [Bool.and_eq_true, decide_eq_true_eq, UInt8.le_iff_toNat_le, UInt8.reduceToNat] at h
    omega
  split at h
  · simp only [Bool.and_eq_true, decide_eq_true_eq, UInt8.le_iff_toNat_le, UInt8.reduceToNat] at h
    omega
  split at h
  · simp only [Bool.and_eq_true, decide_eq_true_eq, UInt8.le_iff_toNat_le, UInt8.reduceToNat] at h
    omega
  split at h
  · simp only [Bool.and_eq_true, decide_eq_true_eq, UInt8.le_iff_toNat_le, UInt8.reduceToNat] at h
    omega
  · rw [isContinuation_iff] at h
    omega

theorem encode_pair (hw : width a = 2) (hb : isSecond a b = true) :
    String.utf8EncodeChar (pair a b) = [a, b] := by
  have ha := (width_bounds a).2.1 hw
  obtain ⟨hb, -⟩ := isSecond_bounds hb
  rw [pair, low, encode_ofNat (by omega), if_neg (by omega), if_pos (by omega),
    eq_byte (a := a) (by omega), eq_byte (a := b) (by omega)]

theorem encode_triple (hw : width a = 3) (hb : isSecond a b = true)
    (hc : isContinuation c = true) : String.utf8EncodeChar (triple a b c) = [a, b, c] := by
  have ha := (width_bounds a).2.2.1 hw
  have hc := isContinuation_iff.mp hc
  obtain ⟨hb, overlong, surrogate, -⟩ := isSecond_bounds hb
  rw [triple, low, low, encode_ofNat (by omega), if_neg (by omega), if_neg (by omega),
    if_pos (by omega), eq_byte (a := a) (by omega), eq_byte (a := b) (by omega),
    eq_byte (a := c) (by omega)]

theorem encode_quadruple (hw : width a = 4) (hb : isSecond a b = true)
    (hc : isContinuation c = true) (hd : isContinuation d = true) :
    String.utf8EncodeChar (quadruple a b c d) = [a, b, c, d] := by
  have ha := (width_bounds a).2.2.2.1 hw
  have hc := isContinuation_iff.mp hc
  have hd := isContinuation_iff.mp hd
  obtain ⟨hb, -, -, small, large⟩ := isSecond_bounds hb
  rw [quadruple, low, low, low, encode_ofNat (by omega), if_neg (by omega), if_neg (by omega),
    if_neg (by omega), eq_byte (a := a) (by omega), eq_byte (a := b) (by omega),
    eq_byte (a := c) (by omega), eq_byte (a := d) (by omega)]

theorem leading_read (h : leading a rest = (.char x, n)) :
    String.utf8EncodeChar x = a :: rest.take n := by
  unfold leading at h
  split at h
  · cases h
  · rename_i hw
    cases h
    have ha := (width_bounds a).1 hw
    rw [encode_ofNat (by omega), if_pos (by omega), UInt8.ofNat_toNat]
    rfl
  · cases h
  · rename_i k b r hw
    split at h
    · cases h
    rename_i hb
    rw [Bool.not_eq_true', Bool.not_eq_false] at hb
    split at h
    · cases h
      rw [encode_pair hw hb]
      rfl
    · cases h
    · rename_i m c s
      split at h
      · cases h
      rename_i hc
      rw [Bool.not_eq_true', Bool.not_eq_false] at hc
      split at h
      · cases h
        rw [encode_triple hw hb hc]
        rfl
      · cases h
      · rename_i k d t
        split at h
        · cases h
        rename_i hd
        rw [Bool.not_eq_true', Bool.not_eq_false] at hd
        cases h
        have four : width a = 4 := by
          have most := (width_bounds a).2.2.2.2
          omega
        rw [encode_quadruple four hb hc hd]
        rfl

theorem encode_collect {text : List Char} {bytes : Bytes} {skip index : Nat}
    (h : collect (piecesAfter skip bytes) index = .ok text) : encode text = bytes.drop skip := by
  induction bytes generalizing skip index text with
  | nil =>
    have done : (.ok [] : Except Fault (List Char)) = .ok text := by
      cases skip <;> exact h
    cases done
    rw [List.drop_nil]
    rfl
  | cons a rest ih =>
    cases skip with
    -- this byte belongs to the character before
    | succ skip => exact ih h
    | zero =>
      rw [piecesAfter] at h
      cases first : leading a rest with
      | mk piece read =>
        rw [first] at h
        cases piece with
        | malformed length => cases h
        | truncated length => cases h
        | char c =>
          rw [collect] at h
          cases after : collect (piecesAfter read rest) (index + c.utf8Size) with
          | error fault =>
            rw [after] at h
            cases h
          | ok later =>
            rw [after] at h
            cases h
            have tail : encode later = rest.drop read := ih after
            show String.utf8EncodeChar c ++ encode later = a :: rest
            rw [leading_read first, tail, List.cons_append, List.take_append_drop]

end Sound
end ScriptHost.Utf8
