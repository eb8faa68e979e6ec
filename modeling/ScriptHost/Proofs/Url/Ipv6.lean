import ScriptHost.Proofs.Text.Digits
import ScriptHost.Proofs.Text.Pieces
import ScriptHost.Url.Basic
import ScriptHost.Url.Ipv6

/-!
# Reading back an IPv6 address

However an address was given, it has eight pieces of sixteen bits. They are
written in hexadecimal with a run of zero pieces left out, and the reader puts
as many zeros in the place of the two colons as are missing.
-/

set_option autoImplicit false

namespace ScriptHost.Url.Ipv6

section Values

variable {text digits : List Char}

structure IsAddress (pieces : List Nat) : Prop where
  length : pieces.length = 8
  small : ∀ p ∈ pieces, p < 0x10000

theorem hexDigit_lt (c : Char) : (Ascii.hexValue? c).getD 0 < 16 := by
  unfold Ascii.hexValue? Ascii.isDigit
  split
  · rename_i h
    rw [Bool.and_eq_true, decide_eq_true_eq, decide_eq_true_eq] at h
    simp only [Option.getD_some]
    omega
  split
  · rename_i h
    rw [Bool.and_eq_true, decide_eq_true_eq, decide_eq_true_eq] at h
    simp only [Option.getD_some]
    omega
  split
  · rename_i h
    rw [Bool.and_eq_true, decide_eq_true_eq, decide_eq_true_eq] at h
    simp only [Option.getD_some]
    omega
  · decide

theorem hexValue_lt (digits : List Char) : hexValue digits < 16 ^ digits.length := by
  have step : ∀ n : Nat, digits.foldl (fun n c => n * 16 + (Ascii.hexValue? c).getD 0) n <
      (n + 1) * 16 ^ digits.length := by
    induction digits with
    | nil => intro n; simp
    | cons c digits ih =>
      intro n
      have hc := hexDigit_lt c
      have hle : (n * 16 + (Ascii.hexValue? c).getD 0 + 1) * 16 ^ digits.length ≤
          ((n + 1) * 16) * 16 ^ digits.length := Nat.mul_le_mul_right _ (by omega)
      rw [List.foldl_cons, List.length_cons, Nat.pow_succ, Nat.mul_comm (16 ^ digits.length),
        ← Nat.mul_assoc]
      exact Nat.lt_of_lt_of_le (ih _) hle
  simpa [hexValue] using step 0

theorem leadingHex_length (text : List Char) : (leadingHex text).length ≤ 4 :=
  Nat.le_trans (List.takeWhile_sublist _).length_le (List.length_take_le 4 text)

theorem leadingHex_small (text : List Char) : hexValue (leadingHex text) < 0x10000 :=
  Nat.lt_of_lt_of_le (hexValue_lt _)
    (Nat.pow_le_pow_right (by decide) (leadingHex_length text))

theorem byte_le {part : List Char} {n : Nat} (h : byte? part = some n) : n ≤ 255 := by
  unfold byte? at h
  split at h
  · cases h
  · cases h
    decide
  · cases h
  · split at h
    · rename_i hb
      rw [Bool.and_eq_true, decide_eq_true_eq] at hb
      cases h
      exact hb.2
    · cases h

theorem dotted_small {a b : Nat} (h : dotted? text = some [a, b]) : a < 0x10000 ∧ b < 0x10000 := by
  unfold dotted? at h
  split at h
  · rename_i a₁ a₂ b₁ b₂ hm
    cases h
    have small : ∀ n ∈ [a₁, a₂, b₁, b₂], n ≤ 255 := fun n hn =>
      (mem_of_mapM hm n hn).elim fun _ hp => byte_le hp.2
    simp only [List.mem_cons, forall_eq_or_imp, List.not_mem_nil, false_imp_iff, implies_true,
      and_true] at small
    omega
  · cases h

end Values

section Pieces

variable {p : Partial} {text : List Char} {pieces : List Nat}

structure Partial.Fits (p : Partial) : Prop where
  length : p.pieces.length ≤ 8
  small : ∀ n ∈ p.pieces, n < 0x10000

theorem Partial.Fits.push (h : p.Fits) (hl : p.pieces.length < 8) {n : Nat} (hn : n < 0x10000) :
    (p.push n).Fits := by
  constructor
  · simp only [Partial.push, List.length_append, List.length_singleton]
    omega
  · intro m hm
    rcases List.mem_append.mp hm with hm | hm
    · exact h.small m hm
    · rw [List.mem_singleton.mp hm]
      exact hn

theorem Partial.Fits.finish (h : p.Fits) (hf : p.finish = .ok pieces) : IsAddress pieces := by
  unfold Partial.finish at hf
  have hl := h.length
  split at hf
  · rename_i gap _
    cases hf
    constructor
    · simp only [List.length_append, List.length_take, List.length_replicate, List.length_drop]
      omega
    · intro n hn
      rw [List.mem_append, List.mem_append] at hn
      rcases hn with (hn | hn) | hn
      · exact h.small n (List.mem_of_mem_take hn)
      · rw [List.eq_of_mem_replicate hn]
        decide
      · exact h.small n (List.mem_of_mem_drop hn)
  · split at hf
    · rename_i h8
      cases hf
      exact ⟨h8, h.small⟩
    · cases hf

theorem readPieces_address (h : p.Fits) (hr : readPieces p text = .ok pieces) :
    IsAddress pieces := by
  fun_induction readPieces p text with
  | case1 p => exact h.finish hr
  | case4 p rest hl _ ih =>
    have hl : p.pieces.length < 8 := Nat.lt_of_le_of_ne h.length hl
    have hp := h.push hl (n := 0) (by decide)
    exact ih ⟨hp.length, hp.small⟩ hr
  | case6 p c rest hl =>
    have hl : p.pieces.length < 8 := Nat.lt_of_le_of_ne h.length hl
    exact (h.push hl (leadingHex_small _)).finish hr
  | case8 p c rest _ _ _ _ _ _ _ hl a b hd =>
    obtain ⟨ha, hb⟩ := dotted_small hd
    have hp := h.push (n := a) (by omega) ha
    have hl' : (p.push a).pieces.length < 8 := by
      simp only [Partial.push, List.length_append, List.length_singleton]
      omega
    exact (hp.push hl' hb).finish hr
  | case11 p c rest hl _ _ _ _ _ _ _ ih =>
    have hl : p.pieces.length < 8 := Nat.lt_of_le_of_ne h.length hl
    exact ih (h.push hl (leadingHex_small _)) hr
  | case2 | case3 | case5 | case7 | case9 | case10 | case12 => cases hr

theorem address_isAddress (h : address? text = .ok pieces) : IsAddress pieces := by
  unfold address? at h
  split at h
  · cases h
  · cases h
  · exact readPieces_address ⟨by decide, by simp⟩ h
  · cases h
  · exact readPieces_address ⟨by decide, by simp⟩ h

end Pieces

section Writing

variable {p : Partial} {q : Nat}

theorem hexLower_char {c : Char} (h : c ∈ Ascii.hexLower q) :
    Ascii.isHex c = true ∧ c ≠ ':' ∧ c ≠ '.' := by
  obtain ⟨d, hd, rfl⟩ := mem_toDigits (by decide) q h
  have all : ∀ d < 16, Ascii.isHex (Nat.digitChar d) = true ∧ Nat.digitChar d ≠ ':' ∧
      Nat.digitChar d ≠ '.' := by decide
  exact all d hd

theorem hexValue_hexLower (q : Nat) : hexValue (Ascii.hexLower q) = q :=
  foldl_toDigits (by decide) (by decide) q

theorem hexLower_length (hq : q < 0x10000) : (Ascii.hexLower q).length ≤ 4 :=
  (Nat.length_toDigits_le_iff (by decide) (by decide)).mpr hq

theorem hexLower_cons (q : Nat) : ∃ c cs, Ascii.hexLower q = c :: cs ∧ c ≠ ':' := by
  obtain ⟨c, cs, h⟩ := List.exists_cons_of_ne_nil (Nat.toDigits_ne_nil (n := q) (b := 16))
  exact ⟨c, cs, h, (hexLower_char (q := q) (by rw [Ascii.hexLower, h]; simp)).2.1⟩

theorem leadingHex_hexLower (hq : q < 0x10000) (rest : List Char)
    (hr : rest.head?.all (· = ':')) :
    leadingHex (Ascii.hexLower q ++ rest) = Ascii.hexLower q := by
  have hl := hexLower_length hq
  have all : ∀ c ∈ Ascii.hexLower q, Ascii.isHex c = true := fun c hc => (hexLower_char hc).1
  have stop : (rest.take (4 - (Ascii.hexLower q).length)).takeWhile Ascii.isHex = [] := by
    cases rest with
    | nil => simp
    | cons c rest =>
      have hc : c = ':' := by simpa using hr
      rw [hc]
      cases 4 - (Ascii.hexLower q).length with
      | zero => rfl
      | succ n => rfl
  rw [leadingHex, List.take_append, List.take_of_length_le hl, List.takeWhile_append_of_pos all,
    stop, List.append_nil]

theorem readPieces_last (hq : q < 0x10000) (hl : p.pieces.length < 8) :
    readPieces p (Ascii.hexLower q) = (p.push q).finish := by
  have lead := leadingHex_hexLower hq [] rfl
  have value := hexValue_hexLower q
  obtain ⟨c, cs, he, hc⟩ := hexLower_cons q
  rw [List.append_nil] at lead
  rw [he] at lead value ⊢
  have hl : p.pieces.length ≠ 8 := by omega
  have rest : (c :: cs).drop (leadingHex (c :: cs)).length = [] := by rw [lead, List.drop_length]
  rw [readPieces.eq_def]
  simp only [hl, hc, lead, value, if_false, dite_false, reduceCtorEq]
  split
  · rfl
  all_goals simp_all

theorem readPieces_next (hq : q < 0x10000) (hl : p.pieces.length < 8) (d : Char)
    (after : List Char) :
    readPieces p (Ascii.hexLower q ++ ':' :: d :: after) = readPieces (p.push q) (d :: after) := by
  have lead := leadingHex_hexLower hq (':' :: d :: after) rfl
  have value := hexValue_hexLower q
  obtain ⟨c, cs, he, hc⟩ := hexLower_cons q
  rw [he] at lead value ⊢
  have hl : p.pieces.length ≠ 8 := by omega
  rw [List.cons_append] at lead ⊢
  have rest : (c :: (cs ++ ':' :: d :: after)).drop
      (leadingHex (c :: (cs ++ ':' :: d :: after))).length = ':' :: d :: after := by
    rw [lead]
    exact List.drop_left
  rw [readPieces.eq_def]
  simp only [hl, hc, lead, value, if_false, dite_false, reduceCtorEq]
  split
  all_goals simp_all

theorem readPieces_gap (hg : p.gap = none) (hl : p.pieces.length < 8) (rest : List Char) :
    readPieces p (':' :: rest) =
      readPieces ⟨p.pieces ++ [0], some (p.pieces.length + 1)⟩ rest := by
  have hl : p.pieces.length ≠ 8 := by omega
  rw [readPieces.eq_def]
  simp [hl, hg]

theorem joinColon_cons (q next : Nat) (rest : List Nat) :
    joinColon (q :: next :: rest) = Ascii.hexLower q ++ ':' :: joinColon (next :: rest) := rfl

theorem joinColon_head (q : Nat) (qs : List Nat) :
    ∃ c cs, joinColon (q :: qs) = c :: cs ∧ c ≠ ':' := by
  obtain ⟨c, cs, h, hc⟩ := hexLower_cons q
  cases qs with
  | nil => exact ⟨c, cs, h, hc⟩
  | cons next rest =>
    rw [joinColon_cons, h]
    exact ⟨c, _, rfl, hc⟩

theorem readPieces_joinColon (qs : List Nat) (small : ∀ q ∈ qs, q < 0x10000) (p : Partial)
    (hl : p.pieces.length + qs.length ≤ 8) :
    readPieces p (joinColon qs) = Partial.finish ⟨p.pieces ++ qs, p.gap⟩ := by
  induction qs generalizing p with
  | nil =>
    rw [List.append_nil]
    exact readPieces.eq_1 p
  | cons q qs ih =>
    have hq := small q List.mem_cons_self
    simp only [List.length_cons] at hl
    cases qs with
    | nil => exact readPieces_last hq (by omega)
    | cons next rest =>
      have hr := ih (fun r hr => small r (List.mem_cons_of_mem q hr)) (p.push q) (by
        simp only [Partial.push, List.length_append, List.length_cons, List.length_nil] at hl ⊢
        omega)
      obtain ⟨d, after, hd, -⟩ := joinColon_head next rest
      rw [joinColon_cons, hd, readPieces_next hq (by omega), ← hd, hr, Partial.push,
        List.append_assoc]
      rfl

theorem readPieces_upTo (q : Nat) (qs : List Nat) (small : ∀ r ∈ q :: qs, r < 0x10000)
    (p : Partial) (hl : p.pieces.length + (q :: qs).length ≤ 8) (rest : List Char) :
    readPieces p (joinColon (q :: qs) ++ ':' :: ':' :: rest) =
      readPieces ⟨p.pieces ++ q :: qs, p.gap⟩ (':' :: rest) := by
  induction qs generalizing p q with
  | nil => exact readPieces_next (small q List.mem_cons_self) hl ':' rest
  | cons next qs ih =>
    have hr := ih next (fun r hr => small r (List.mem_cons_of_mem q hr)) (p.push q) (by
      simp only [Partial.push, List.length_append, List.length_cons, List.length_nil] at hl ⊢
      omega)
    obtain ⟨d, after, hd, -⟩ := joinColon_head next qs
    simp only [List.length_cons] at hl
    rw [hd, List.cons_append] at hr
    rw [joinColon_cons, hd, List.append_assoc, List.cons_append, List.cons_append,
      readPieces_next (small q List.mem_cons_self) (by omega), hr, Partial.push, List.append_assoc]
    rfl

end Writing

section Addresses

variable {pieces front back : List Nat}

theorem longestZeroRun_spec (pieces : List Nat) (at_ : Nat) : ∃ front back,
    pieces = front ++ List.replicate (longestZeroRun pieces at_).2 0 ++ back ∧
      (longestZeroRun pieces at_).1 = at_ + front.length := by
  induction pieces generalizing at_ with
  | nil => exact ⟨[], [], rfl, rfl⟩
  | cons p rest ih =>
    simp only [longestZeroRun]
    split
    · have zeros : (p :: rest).takeWhile (· = 0) = List.replicate (zeroRun (p :: rest)) 0 := by
        refine List.eq_replicate_iff.mpr ⟨rfl, fun n hn => ?_⟩
        simpa using (List.all_eq_true.mp List.all_takeWhile n hn)
      refine ⟨[], (p :: rest).dropWhile (· = 0), ?_, rfl⟩
      rw [List.nil_append, ← zeros, List.takeWhile_append_dropWhile]
    · obtain ⟨front, back, hp, hs⟩ := ih (at_ + 1)
      refine ⟨p :: front, back, congrArg (p :: ·) hp, ?_⟩
      rw [hs, List.length_cons]
      omega

theorem finish_gap {zeros : Nat} (hz : 1 ≤ zeros)
    (hl : (front ++ List.replicate zeros 0 ++ back).length = 8) :
    Partial.finish ⟨front ++ [0] ++ back, some (front.length + 1)⟩ =
      .ok (front ++ List.replicate zeros 0 ++ back) := by
  simp only [List.length_append, List.length_replicate] at hl
  have hf : front.length + 1 = (front ++ [0]).length := by simp
  have length : 8 - (front ++ [0] ++ back).length = zeros - 1 := by
    simp only [List.length_append, List.length_singleton]
    omega
  have all : List.replicate zeros 0 = 0 :: List.replicate (zeros - 1) 0 := by
    rw [← List.replicate_succ, Nat.sub_add_cancel hz]
  have take : (front ++ [0] ++ back).take (front ++ [0]).length = front ++ [0] := List.take_left
  have drop : (front ++ [0] ++ back).drop (front ++ [0]).length = back := List.drop_left
  simp only [Partial.finish, length, hf, take, drop, all]
  rw [List.append_assoc front [0], List.singleton_append]

theorem address_piece {q : Nat} {qs : List Nat} (rest : List Char)
    (h : 2 ≤ (joinColon (q :: qs) ++ rest).length) :
    address? (joinColon (q :: qs) ++ rest) =
      readPieces ⟨[], none⟩ (joinColon (q :: qs) ++ rest) := by
  obtain ⟨c, cs, he, hc⟩ := joinColon_head q qs
  rw [he, List.cons_append] at h ⊢
  cases ht : cs ++ rest with
  | nil => simp [ht] at h
  | cons d text => simp [address?, hc]

theorem address_joinColon (h : IsAddress pieces) : address? (joinColon pieces) = .ok pieces := by
  obtain ⟨hl, small⟩ := h
  rcases pieces with _ | ⟨p, _ | ⟨q, rest⟩⟩
  · cases hl
  · cases hl
  · have long : 2 ≤ (joinColon (p :: q :: rest) ++ []).length := by
      obtain ⟨c, cs, he, -⟩ := joinColon_head q rest
      simp only [joinColon_cons, he, List.append_nil, List.length_append, List.length_cons]
      omega
    have ha := address_piece [] long
    rw [List.append_nil] at ha
    rw [ha, readPieces_joinColon _ small _ (by simp [hl]), List.nil_append, Partial.finish]
    exact if_pos hl

theorem address_gap {zeros : Nat} (hz : 1 ≤ zeros)
    (h : IsAddress (front ++ List.replicate zeros 0 ++ back)) :
    address? (joinColon front ++ ':' :: ':' :: joinColon back) =
      .ok (front ++ List.replicate zeros 0 ++ back) := by
  have finish := finish_gap hz h.length
  have hl := h.length
  simp only [List.length_append, List.length_replicate] at hl
  have hb : ∀ q ∈ back, q < 0x10000 := fun q hq => h.small q (by simp [hq])
  -- two colons at the very front stand for an empty first piece
  cases front with
  | nil =>
    have fits : 1 + back.length ≤ 8 := by
      rw [List.length_nil] at hl
      omega
    exact (readPieces_joinColon back hb ⟨[0], some 1⟩ fits).trans finish
  | cons q qs =>
    have hf : ∀ r ∈ q :: qs, r < 0x10000 := fun r hr => h.small r (by
      rw [List.append_assoc]
      exact List.mem_append_left _ hr)
    have long : 2 ≤ (joinColon (q :: qs) ++ ':' :: ':' :: joinColon back).length := by
      simp only [List.length_append, List.length_cons]
      omega
    have front_fits : ([] : List Nat).length + (q :: qs).length ≤ 8 := by
      rw [List.length_nil]
      omega
    have gap_fits : ([] ++ q :: qs).length < 8 := by
      rw [List.nil_append]
      omega
    have back_fits : (q :: qs ++ [0]).length + back.length ≤ 8 := by
      rw [List.length_append, List.length_singleton]
      omega
    rw [address_piece _ long, readPieces_upTo q qs hf ⟨[], none⟩ front_fits,
      readPieces_gap rfl gap_fits, List.nil_append,
      readPieces_joinColon back hb ⟨q :: qs ++ [0], some ((q :: qs).length + 1)⟩ back_fits]
    exact finish

theorem address_ipv6Text (h : IsAddress pieces) : address? (ipv6Text pieces) = .ok pieces := by
  obtain ⟨front, back, hp, hs⟩ := longestZeroRun_spec pieces 0
  unfold ipv6Text
  simp only
  split
  · exact address_joinColon h
  · rename_i many
    generalize (longestZeroRun pieces 0).2 = zeros at hp many
    have take : pieces.take front.length = front := by
      rw [hp, List.append_assoc, List.take_left]
    have drop : pieces.drop (front.length + zeros) = back := by
      have length : front.length + zeros = (front ++ List.replicate zeros 0).length := by simp
      rw [hp, length, List.drop_left]
    rw [hs, Nat.zero_add, take, drop]
    rw [hp] at h ⊢
    exact address_gap (by omega) h

theorem mem_ipv6Text {c : Char} (h : c ∈ ipv6Text pieces) : Ascii.isHex c = true ∨ c = ':' := by
  have joined (qs : List Nat) (hc : c ∈ joinColon qs) : Ascii.isHex c = true ∨ c = ':' := by
    induction qs with
    | nil => cases hc
    | cons q qs ih =>
      cases qs with
      | nil => exact Or.inl (hexLower_char hc).1
      | cons next rest =>
        rw [joinColon_cons, List.mem_append, List.mem_cons] at hc
        rcases hc with hc | hc | hc
        · exact Or.inl (hexLower_char hc).1
        · exact Or.inr hc
        · exact ih hc
  unfold ipv6Text at h
  simp only at h
  split at h
  · exact joined _ h
  · rw [List.mem_append, List.mem_cons, List.mem_cons] at h
    rcases h with h | h | h | h
    · exact joined _ h
    · exact Or.inr h
    · exact Or.inr h
    · exact joined _ h

end Addresses

end ScriptHost.Url.Ipv6
