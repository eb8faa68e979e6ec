import Mathlib.Tactic.Ring
import ScriptHost.Proofs.Text.Pieces
import ScriptHost.Url.Punycode

/-!
# Reading back Punycode

An encoder goes through the characters outside ASCII from the smallest value on,
and for each value through the label from left to right. Before every character
that it writes, the decoder has put in those that come before in this order, and
the integer that is written says how many places lie between the last one and the
next. So reading the integers puts the characters back one by one.
-/

set_option autoImplicit false

namespace ScriptHost.Url.Punycode

section Integers

theorem digitValue_digitChar : ∀ d < 36, digitValue? (digitChar d) = some d := by decide

theorem threshold_bounds (k bias : Nat) : 1 ≤ threshold k bias ∧ threshold k bias ≤ 26 := by
  unfold threshold
  omega

def isDigitChar (c : Char) : Bool := Ascii.isLower c || Ascii.isDigit c

theorem isDigitChar_digitChar : ∀ d < 36, isDigitChar (digitChar d) = true := by decide

theorem digits_chars (fuel : Nat) :
    ∀ (q k bias : Nat), ∀ c ∈ digits fuel q k bias, isDigitChar c = true := by
  induction fuel with
  | zero => exact fun _ _ _ _ h => absurd h List.not_mem_nil
  | succ fuel ih =>
    intro q k bias c hc
    obtain ⟨hlow, hhigh⟩ := threshold_bounds k bias
    simp only [digits] at hc
    generalize threshold k bias = t at hlow hhigh hc
    by_cases hlt : q < t
    · rw [if_pos hlt, List.mem_singleton] at hc
      exact hc ▸ isDigitChar_digitChar q (by omega)
    · rw [if_neg hlt] at hc
      have hmod : (q - t) % (36 - t) < 36 - t := Nat.mod_lt _ (by omega)
      rcases List.mem_cons.mp hc with rfl | hc
      · exact isDigitChar_digitChar _ (by omega)
      · exact ih _ _ _ c hc

theorem digits_ne_nil (fuel q k bias : Nat) : digits (fuel + 1) q k bias ≠ [] := by
  rw [digits]
  split <;> simp

theorem readInteger_digits (fuel : Nat) : ∀ (q i w k bias : Nat) (rest : List Char), q < fuel →
    readInteger i w k bias (digits fuel q k bias ++ rest) = some (i + q * w, rest) := by
  induction fuel with
  | zero => exact fun _ _ _ _ _ _ h => absurd h (Nat.not_lt_zero _)
  | succ fuel ih =>
    intro q i w k bias rest hq
    obtain ⟨hlow, hhigh⟩ := threshold_bounds k bias
    rw [digits]
    generalize hT : threshold k bias = t at hlow hhigh
    by_cases hlt : q < t
    · simp only [hlt, if_true, List.singleton_append, readInteger, hT,
        digitValue_digitChar q (by omega)]
    · have hmod : (q - t) % (36 - t) < 36 - t := Nat.mod_lt _ (by omega)
      have hsmall : (q - t) / (36 - t) < fuel := by
        have hdiv : (q - t) / (36 - t) ≤ q - t := Nat.div_le_self _ _
        omega
      have hdigit : digitValue? (digitChar (t + (q - t) % (36 - t))) =
          some (t + (q - t) % (36 - t)) := digitValue_digitChar _ (by omega)
      have hbig : ¬ t + (q - t) % (36 - t) < t := by omega
      simp only [hlt, if_false, List.cons_append, readInteger, hT, hdigit, hbig,
        ih _ _ _ _ _ _ hsmall]
      have hsum : (36 - t) * ((q - t) / (36 - t)) + (q - t) % (36 - t) = q - t :=
        Nat.div_add_mod _ _
      have hq : q = t + ((36 - t) * ((q - t) / (36 - t)) + (q - t) % (36 - t)) := by omega
      have htotal : i + (t + (q - t) % (36 - t)) * w + (q - t) / (36 - t) * (w * (36 - t)) =
          i + q * w := by
        rw [Nat.add_assoc]
        congr 1
        conv_rhs => rw [hq]
        ring
      rw [htotal]

end Integers

section Steps

def encodeStep (point : Nat) (s : EncodeState) (c : Char) : EncodeState :=
  if c.toNat < point then { s with delta := s.delta + 1 }
  else if c.toNat = point then
    { delta := 0
      bias := adapt s.delta (s.handled + 1) s.first
      handled := s.handled + 1
      first := false
      written := s.written ++ digits (s.delta + 1) s.delta 36 s.bias }
  else s

/-- The characters below a value. -/
def below (point : Nat) (label : List Char) : List Char := label.filter (·.toNat < point)

theorem below_append_lower {point : Nat} {c : Char} (label : List Char) (h : c.toNat < point) :
    below point (label ++ [c]) = below point label ++ [c] := by
  simp [below, h]

theorem below_append_upper {point : Nat} {c : Char} (label : List Char) (h : ¬ c.toNat < point) :
    below point (label ++ [c]) = below point label := by
  simp [below, Nat.le_of_not_lt h]

/-- A state of the decoder: the value and the place after the last character, and the label. -/
structure DecodeState where
  point : Nat
  place : Nat
  label : List Char

/-- The decoder has the characters that the encoder has handled, and the encoder has counted the
places since the last of them: to the value `point` and the place `at_`. -/
structure Matches (s : EncodeState) (d : DecodeState) (point at_ : Nat) (label : List Char) : Prop
    where
  held : d.label = label
  handled : s.handled = label.length
  reached : at_ ≤ label.length
  before : d.point ≤ point
  delta : s.delta + d.place = (point - d.point) * (label.length + 1) + at_

/-- Reading what was written brings the decoder from `d` to `d'`, in so many steps. -/
def Reads (s : EncodeState) (d : DecodeState) (s' : EncodeState) (d' : DecodeState) : Prop :=
  ∃ out steps, s'.written = s.written ++ out ∧ (∀ c ∈ out, isDigitChar c = true) ∧
    steps ≤ out.length ∧ ∀ fuel rest, decodeInto (steps + fuel) d.point d.place s.bias s.first
      d.label (out ++ rest) = decodeInto fuel d'.point d'.place s'.bias s'.first d'.label rest

variable {s s' s'' : EncodeState} {d d' d'' : DecodeState}

theorem Reads.refl (s : EncodeState) (d : DecodeState) : Reads s d s d :=
  ⟨[], 0, (List.append_nil _).symm, by simp, Nat.le_refl _, fun fuel rest => by
    rw [Nat.zero_add, List.nil_append]⟩

theorem digitChars_append {out out' : List Char} (h : ∀ c ∈ out, isDigitChar c = true)
    (h' : ∀ c ∈ out', isDigitChar c = true) : ∀ c ∈ out ++ out', isDigitChar c = true := fun c hc =>
  (List.mem_append.mp hc).elim (h c) (h' c)

theorem Reads.trans (h : Reads s d s' d') (h' : Reads s' d' s'' d'') : Reads s d s'' d'' := by
  obtain ⟨out, steps, hw, hc, hn, hr⟩ := h
  obtain ⟨out', steps', hw', hc', hn', hr'⟩ := h'
  refine ⟨out ++ out', steps + steps', by rw [hw', hw, List.append_assoc],
    digitChars_append hc hc', ?_, ?_⟩
  · rw [List.length_append]
    omega
  · intro fuel rest
    rw [Nat.add_assoc, List.append_assoc, hr, hr']

theorem Reads.of_counted (h : Reads s d s' d') {delta : Nat} :
    Reads s d { s' with delta } d' := h

theorem isScalar_char (c : Char) : isScalar c.toNat = true := by
  have hv : c.toNat < 0xD800 ∨ 0xDFFF < c.toNat ∧ c.toNat < 0x110000 := c.valid
  simp only [isScalar, maxPoint, Bool.or_eq_true, Bool.and_eq_true]
  rcases hv with h | ⟨h, h'⟩
  · exact Or.inl (decide_eq_true h)
  · exact Or.inr ⟨decide_eq_true (Nat.succ_le_of_lt h), decide_eq_true (Nat.le_of_lt_succ h')⟩

theorem insertIdx_prefix (front back : List Char) (c : Char) :
    (front ++ back).insertIdx front.length c = front ++ c :: back := by
  induction front with
  | nil => rfl
  | cons d front ih => exact congrArg (d :: ·) ih

theorem reads_char {at_ : Nat} {label : List Char} {c : Char}
    (h : Matches s d c.toNat at_ label) :
    Reads s d (encodeStep c.toNat s c) ⟨c.toNat, at_ + 1, label.insertIdx at_ c⟩ := by
  refine ⟨digits (s.delta + 1) s.delta 36 s.bias, 1, ?_, digits_chars _ _ _ _, ?_,
    fun fuel rest => ?_⟩
  · simp [encodeStep]
  · exact List.length_pos_iff.mpr (digits_ne_nil _ _ _ _)
  · obtain ⟨hl, hh, ha, hp, hd⟩ := h
    have read := readInteger_digits (s.delta + 1) s.delta d.place 1 36 s.bias rest
      (Nat.lt_succ_self _)
    rw [Nat.mul_one] at read
    -- the integer holds both: how far the value goes up, and the place
    have total : d.place + s.delta = at_ + (label.length + 1) * (c.toNat - d.point) := by
      rw [Nat.add_comm d.place, hd, Nat.mul_comm]
      omega
    have point : d.point + (d.place + s.delta) / (label.length + 1) = c.toNat := by
      rw [total, Nat.add_mul_div_left _ _ (Nat.succ_pos _), Nat.div_eq_of_lt (by omega)]
      omega
    have place : (d.place + s.delta) % (label.length + 1) = at_ := by
      rw [total, Nat.add_mul_mod_self_left, Nat.mod_eq_of_lt (by omega)]
    have rest_ne : digits (s.delta + 1) s.delta 36 s.bias ++ rest ≠ [] := by
      simp [digits_ne_nil]
    have step : encodeStep c.toNat s c =
        { delta := 0, bias := adapt s.delta (s.handled + 1) s.first, handled := s.handled + 1
          first := false, written := s.written ++ digits (s.delta + 1) s.delta 36 s.bias } := by
      simp [encodeStep]
    rw [step, hl, hh, Nat.add_comm 1 fuel]
    cases ht : digits (s.delta + 1) s.delta 36 s.bias ++ rest with
    | nil => exact absurd ht rest_ne
    | cons e text =>
      rw [ht] at read
      have delta : d.place + s.delta - d.place = s.delta := Nat.add_sub_cancel_left _ _
      simp only [decodeInto, read, point, place, isScalar_char, Bool.not_true, Bool.false_eq_true,
        if_false, delta, Char.ofNat_toNat]

end Steps

section Labels

variable {s : EncodeState} {d : DecodeState}

/-- The characters that are handled while those with the value `point` are written: in front of
the current place those up to the value, behind it those below. -/
def handledAt (point : Nat) (before after : List Char) : List Char :=
  below (point + 1) before ++ below point after

theorem handledAt_step (point : Nat) (before after : List Char) (c : Char) (h : c.toNat ≠ point) :
    handledAt point (before ++ [c]) after = handledAt point before (c :: after) := by
  have hiff : (c.toNat < point + 1) = (c.toNat < point) := propext (by omega)
  simp only [handledAt, below, List.filter_append, List.filter_cons, List.filter_nil, hiff]
  split <;> simp

theorem below_self (point : Nat) (before after : List Char) (c : Char) (h : c.toNat = point) :
    handledAt point before (c :: after) = handledAt point before after ∧
      below (point + 1) (before ++ [c]) = below (point + 1) before ++ [c] := by
  subst h
  simp [handledAt, below]

theorem insert_handled {point : Nat} {c : Char} (before after : List Char) (h : c.toNat = point) :
    (handledAt point before (c :: after)).insertIdx (below (point + 1) before).length c =
      handledAt point (before ++ [c]) after := by
  obtain ⟨same, more⟩ := below_self point before after c h
  rw [same, handledAt, insertIdx_prefix, handledAt, more, List.append_assoc]
  rfl

theorem reads_step (point : Nat) (before after : List Char) (c : Char)
    (h : Matches s d point (below (point + 1) before).length
      (handledAt point before (c :: after))) :
    ∃ d', Reads s d (encodeStep point s c) d' ∧
      Matches (encodeStep point s c) d' point (below (point + 1) (before ++ [c])).length
        (handledAt point (before ++ [c]) after) := by
  by_cases hc : c.toNat = point
  · subst hc
    have he := insert_handled before after (Eq.refl c.toNat)
    refine ⟨_, he ▸ reads_char h, rfl, ?_, ?_, Nat.le_refl _, ?_⟩
    · have hl : (handledAt c.toNat (before ++ [c]) after).length =
          (handledAt c.toNat before (c :: after)).length + 1 := by
        rw [← he, List.length_insertIdx_of_le_length h.reached]
      simp [encodeStep, hl, h.handled]
    · rw [handledAt, List.length_append]
      omega
    · simp [encodeStep, below]
  · rw [← handledAt_step point before after c hc] at h
    obtain ⟨hl, hh, ha, hp, hd⟩ := h
    -- a lower character only counts as a place, and a higher one has none yet
    by_cases hlt : c.toNat < point
    · have hs : encodeStep point s c = { s with delta := s.delta + 1 } := by
        simp [encodeStep, hlt]
      have hb : (below (point + 1) (before ++ [c])).length =
          (below (point + 1) before).length + 1 := by
        rw [below_append_lower before (Nat.lt_succ_of_lt hlt), List.length_append]
        rfl
      refine ⟨d, hs ▸ (Reads.refl s d).of_counted, hs ▸ ⟨hl, hh, ?_, hp, ?_⟩⟩
      · rw [handledAt, List.length_append]
        omega
      · rw [hb]
        change s.delta + 1 + d.place = _
        omega
    · have hs : encodeStep point s c = s := by simp [encodeStep, hlt, hc]
      have hb : below (point + 1) (before ++ [c]) = below (point + 1) before :=
        below_append_upper before (by omega)
      rw [hs, hb]
      exact ⟨d, .refl s d, hl, hh, ha, hp, hd⟩

theorem reads_value (point : Nat) (after : List Char) : ∀ (before : List Char) (s : EncodeState)
    (d : DecodeState),
    Matches s d point (below (point + 1) before).length (handledAt point before after) →
    ∃ d', Reads s d (after.foldl (encodeStep point) s) d' ∧
      Matches (after.foldl (encodeStep point) s) d' point
        (below (point + 1) (before ++ after)).length (handledAt point (before ++ after) []) := by
  induction after with
  | nil =>
    intro before s d h
    rw [List.append_nil]
    exact ⟨d, .refl s d, h⟩
  | cons c after ih =>
    intro before s d h
    obtain ⟨d', hr, hm⟩ := reads_step point before after c h
    obtain ⟨d'', hr', hm'⟩ := ih _ _ _ hm
    rw [List.append_assoc, List.singleton_append] at hm'
    exact ⟨d'', hr.trans hr', hm'⟩

end Labels

section Points

theorem mem_insertPoint {n m : Nat} {ns : List Nat} : m ∈ insertPoint n ns ↔ m = n ∨ m ∈ ns := by
  induction ns with
  | nil => simp [insertPoint]
  | cons k ns ih =>
    rw [insertPoint]
    split
    · simp
    · split
      · rename_i hk
        simp [hk]
      · simp only [List.mem_cons, ih]
        tauto

theorem insertPoint_sorted {n : Nat} {ns : List Nat} (h : ns.Pairwise (· < ·)) :
    (insertPoint n ns).Pairwise (· < ·) := by
  induction ns with
  | nil => simp [insertPoint]
  | cons k ns ih =>
    obtain ⟨hk, hp⟩ := List.pairwise_cons.mp h
    rw [insertPoint]
    split
    · rename_i hn
      refine List.pairwise_cons.mpr ⟨fun m hm => ?_, h⟩
      rcases List.mem_cons.mp hm with rfl | hm
      · exact hn
      · exact Nat.lt_trans hn (hk m hm)
    · split
      · exact h
      · refine List.pairwise_cons.mpr ⟨fun m hm => ?_, ih hp⟩
        rcases mem_insertPoint.mp hm with rfl | hm
        · omega
        · exact hk m hm

theorem foldl_insertPoint (chars : List Char) : ∀ ns : List Nat, ns.Pairwise (· < ·) →
    (chars.foldl (fun ns c => insertPoint c.toNat ns) ns).Pairwise (· < ·) ∧
      ∀ m, m ∈ chars.foldl (fun ns c => insertPoint c.toNat ns) ns ↔
        m ∈ ns ∨ ∃ c ∈ chars, c.toNat = m := by
  induction chars with
  | nil => exact fun ns h => ⟨h, fun m => by simp⟩
  | cons c chars ih =>
    intro ns h
    obtain ⟨hs, hm⟩ := ih _ (insertPoint_sorted (n := c.toNat) h)
    refine ⟨hs, fun m => ?_⟩
    rw [List.foldl_cons, hm, mem_insertPoint]
    simp only [List.mem_cons, exists_eq_or_imp]
    constructor
    · rintro ((rfl | h) | h)
      · exact Or.inr (Or.inl rfl)
      · exact Or.inl h
      · exact Or.inr (Or.inr h)
    · rintro (h | h | h)
      · exact Or.inl (Or.inr h)
      · exact Or.inl (Or.inl h.symm)
      · exact Or.inr h

theorem points_spec (label : List Char) : (points label).Pairwise (· < ·) ∧
    ∀ m, m ∈ points label ↔ ∃ c ∈ label, c.toNat = m ∧ 128 ≤ m := by
  obtain ⟨hs, hm⟩ := foldl_insertPoint (label.filter (!Ascii.isAscii ·)) [] List.Pairwise.nil
  refine ⟨hs, fun m => (hm m).trans ?_⟩
  simp only [List.not_mem_nil, false_or, List.mem_filter, Bool.not_eq_true', Ascii.isAscii,
    decide_eq_false_iff_not, Nat.not_lt]
  constructor
  · rintro ⟨c, ⟨hc, hn⟩, rfl⟩
    exact ⟨c, hc, rfl, hn⟩
  · rintro ⟨c, hc, rfl, hn⟩
    exact ⟨c, ⟨hc, hn⟩, rfl⟩

variable {label : List Char}

/-- Between two values that the encoder handles there is no character. -/
theorem below_skip {n m : Nat} (hnm : n ≤ m) (h : ∀ c ∈ label, c.toNat < n ∨ m ≤ c.toNat) :
    below m label = below n label := by
  refine List.filter_congr fun c hc => ?_
  have hc := h c hc
  rw [decide_eq_decide]
  omega

theorem Matches.skip {s : EncodeState} {d : DecodeState} {n point : Nat} (hn : n ≤ point)
    (h : Matches s d n 0 label) :
    Matches { s with delta := s.delta + (point - n) * (s.handled + 1) } d point 0 label := by
  obtain ⟨hl, hh, ha, hp, hd⟩ := h
  refine ⟨hl, hh, ha, Nat.le_trans hp hn, ?_⟩
  change s.delta + (point - n) * (s.handled + 1) + d.place = _
  have hsub : point - d.point = (n - d.point) + (point - n) := by omega
  rw [hh, Nat.add_right_comm, hd, hsub, Nat.add_mul]
  rfl

theorem Matches.next {s : EncodeState} {d : DecodeState} {point : Nat}
    (h : Matches s d point label.length label) :
    Matches { s with delta := s.delta + 1 } d (point + 1) 0 label := by
  obtain ⟨hl, hh, -, hp, hd⟩ := h
  refine ⟨hl, hh, Nat.zero_le _, Nat.le_succ_of_le hp, ?_⟩
  change s.delta + 1 + d.place = _
  have hsub : point + 1 - d.point = (point - d.point) + 1 := by omega
  rw [hsub, Nat.add_mul, Nat.one_mul]
  omega

/-- The encoder goes through all values, and then the decoder has the whole label. -/
theorem reads_points (values : List Nat) : ∀ (n : Nat) (s : EncodeState) (d : DecodeState),
    values.Pairwise (· < ·) → (∀ p ∈ values, n ≤ p) →
    (∀ c ∈ label, c.toNat < n ∨ c.toNat ∈ values) →
    Matches s d n 0 (below n label) →
    ∃ out steps, encodePoints values n label s = s.written ++ out ∧
      (∀ c ∈ out, isDigitChar c = true) ∧ steps ≤ out.length ∧ ∀ fuel, decodeInto
        (steps + fuel) d.point d.place s.bias s.first d.label out = some label := by
  induction values with
  | nil =>
    intro n s d _ _ hall hm
    refine ⟨[], 0, (List.append_nil _).symm, by simp, Nat.le_refl _, fun fuel => ?_⟩
    have hb : below n label = label := by
      rw [below, List.filter_eq_self]
      intro c hc
      simpa using hall c hc
    rw [decodeInto, hm.held, hb]
  | cons point values ih =>
    intro n s d hsort hle hall hm
    obtain ⟨hlt, hsort⟩ := List.pairwise_cons.mp hsort
    have hn : n ≤ point := hle point List.mem_cons_self
    -- no character lies between `n` and `point`, so the encoder may count past them at once
    have skip : below point label = below n label := by
      refine below_skip hn fun c hc => ?_
      rcases hall c hc with h | h
      · exact Or.inl h
      · rcases List.mem_cons.mp h with h | h
        · exact Or.inr h.ge
        · exact Or.inr (hlt _ h).le
    let counted : EncodeState := { s with delta := s.delta + (point - n) * (s.handled + 1) }
    have start : Matches counted d point 0 (handledAt point [] label) := by
      rw [show handledAt point [] label = below n label from skip]
      exact hm.skip hn
    obtain ⟨d', hr, hm'⟩ := reads_value point label [] counted d start
    rw [List.nil_append, show handledAt point label [] = below (point + 1) label from
      List.append_nil _] at hm'
    let done := encodeAt point label counted
    have left : ∀ c ∈ label, c.toNat < point + 1 ∨ c.toNat ∈ values := by
      intro c hc
      rcases hall c hc with h | h
      · exact Or.inl (by omega)
      · exact (List.mem_cons.mp h).imp_left fun he => Nat.lt_succ_of_le he.le
    obtain ⟨out', steps', hw', hc', hs', hr'⟩ := ih (point + 1)
      { done with delta := done.delta + 1 } d' hsort hlt left hm'.next
    obtain ⟨out, steps, hw, hc, hs, hr⟩ := hr
    refine ⟨out ++ out', steps + steps', ?_, digitChars_append hc hc', ?_, fun fuel => ?_⟩
    · rw [encodePoints]
      change encodePoints values (point + 1) label { done with delta := done.delta + 1 } = _
      rw [hw']
      change done.written ++ out' = _
      rw [← List.append_assoc]
      exact congrArg (· ++ out') hw
    · rw [List.length_append]
      omega
    · rw [Nat.add_assoc]
      exact (hr (steps' + fuel) out').trans (hr' fuel)

end Points

section Whole

variable (label : List Char)

def start : List Char :=
  if (label.filter Ascii.isAscii).isEmpty then [] else label.filter Ascii.isAscii ++ ['-']

theorem encode_spec : ∃ out, encode label = start label ++ out ∧
    (∀ c ∈ out, isDigitChar c = true) ∧ ∀ fuel, out.length ≤ fuel →
      decodeInto fuel firstPoint 0 firstBias true (label.filter Ascii.isAscii) out =
        some label := by
  let basic := label.filter Ascii.isAscii
  obtain ⟨sorted, mem⟩ := points_spec label
  have all : ∀ c ∈ label, c.toNat < firstPoint ∨ c.toNat ∈ points label := by
    intro c hc
    rcases Nat.lt_or_ge c.toNat firstPoint with h | h
    · exact Or.inl h
    · exact Or.inr ((mem _).mpr ⟨c, hc, rfl, h⟩)
  have large : ∀ p ∈ points label, firstPoint ≤ p := fun p hp =>
    ((mem p).mp hp).elim fun _ h => h.2.2
  have begins : Matches ⟨0, firstBias, basic.length, true, start label⟩ ⟨firstPoint, 0, basic⟩
      firstPoint 0 (below firstPoint label) :=
    ⟨rfl, rfl, Nat.zero_le _, Nat.le_refl _, by simp⟩
  obtain ⟨out, steps, hw, hc, hs, hr⟩ := reads_points _ _ _ _ sorted large all begins
  refine ⟨out, hw, hc, fun fuel hf => ?_⟩
  have hr := hr (fuel - steps)
  rwa [Nat.add_sub_cancel' (Nat.le_trans hs hf)] at hr

theorem hyphen_free {out : List Char} (h : ∀ c ∈ out, isDigitChar c = true) : '-' ∉ out :=
  fun hm => Bool.false_ne_true (h '-' hm)

theorem split_start {out : List Char} (h : ∀ c ∈ out, isDigitChar c = true) :
    split (start label ++ out) = (label.filter Ascii.isAscii, out) := by
  unfold start
  split
  · rename_i he
    have free : ∀ c ∈ out.reverse, decide (c ≠ '-') = true := fun c hc =>
      decide_eq_true fun hn => hyphen_free h (hn ▸ List.mem_reverse.mp hc)
    have all : (out.reverse.takeWhile (· ≠ '-')).reverse = out := by
      rw [List.takeWhile_eq_self_iff.mpr free, List.reverse_reverse]
    rw [List.nil_append, split, all, List.isEmpty_iff.mp he]
    simp
  · rename_i hne
    obtain ⟨last, front⟩ := split_last (label.filter Ascii.isAscii) (hyphen_free h)
    rw [List.append_assoc, List.singleton_append, split, last, front, if_neg hne]

/-- What a label is encoded to stands for that label. -/
theorem decode_encode : decode (encode label) = some label := by
  obtain ⟨out, he, hc, hd⟩ := encode_spec label
  have ascii : (label.filter Ascii.isAscii).all Ascii.isAscii = true :=
    List.all_eq_true.mpr fun c hc => (List.mem_filter.mp hc).2
  have long : out.length ≤ (start label ++ out).length := by simp
  rw [he, decode, split_start label hc]
  simp only [ascii, if_true, hd _ long]

theorem mem_encode {c : Char} (h : c ∈ encode label) :
    c ∈ label ∧ Ascii.isAscii c = true ∨ c = '-' ∨ isDigitChar c = true := by
  obtain ⟨out, he, hd, -⟩ := encode_spec label
  rw [he, List.mem_append] at h
  rcases h with h | h
  · unfold start at h
    split at h
    · cases h
    · rcases List.mem_append.mp h with h | h
      · exact Or.inl (List.mem_filter.mp h)
      · exact Or.inr (Or.inl (List.mem_singleton.mp h))
  · exact Or.inr (Or.inr (hd c h))

end Whole

end ScriptHost.Url.Punycode
