import Mathlib.Data.Bool.AllAny
import Mathlib.Data.List.Basic
import ScriptHost.Proofs.Text.Ascii
import ScriptHost.Proofs.Text.LowerCase
import ScriptHost.Proofs.Text.Percent
import ScriptHost.Proofs.Text.Pieces
import ScriptHost.Proofs.Url.Punycode
import ScriptHost.Url.Domain

/-!
# Reading back a domain

The mapping leaves alone what it gives, a label is either kept as it is written
or encoded so that it is read back, and the labels contain no dots. So a domain
in its written form is read as the same domain.
-/

set_option autoImplicit false

namespace ScriptHost.Url.Domain

section Mapping

def isPlain (n : Nat) : Bool :=
  !isIgnored n && !isDot n && !isSpaceForm n && !(0xFF01 ≤ n && n ≤ 0xFF5E) &&
    (latinForm? n).isNone

theorem map_plain {c : Char} (h : isPlain c.toNat = true) : map c = [LowerCase.lower c] := by
  simp only [isPlain, Bool.and_eq_true, Bool.not_eq_true', Option.isNone_iff_eq_none] at h
  obtain ⟨⟨⟨⟨hi, hd⟩, hs⟩, hw⟩, hl⟩ := h
  simp [map, hi, hd, hs, hw, hl]

theorem isPlain_shifted {r : LowerCase.Run} {n : Nat} (hr : r ∈ LowerCase.runs)
    (h : r.covers n = true) (hn : isPlain n = true) : isPlain (r.shifted n).toNat = true := by
  have all : (LowerCase.runs.all fun r => r.values.all fun n =>
      0xFF01 ≤ n && n ≤ 0xFF5E || isPlain (r.shifted n).toNat) = true := by decide +kernel
  have hv := List.all_eq_true.mp (List.all_eq_true.mp all r hr) n (LowerCase.Run.mem_values h)
  simp only [isPlain, Bool.and_eq_true, Bool.not_eq_true'] at hn
  rwa [hn.1.2, Bool.false_or] at hv

theorem map_lower {c : Char} (h : isPlain c.toNat = true) :
    map (LowerCase.lower c) = [LowerCase.lower c] := by
  have plain : isPlain (LowerCase.lower c).toNat = true := by
    rcases LowerCase.lower_cases c with he | ⟨r, hr, hc, he⟩
    · rwa [he]
    · rw [he]
      exact isPlain_shifted hr hc h
  rw [map_plain plain, LowerCase.lower_lower]

def IsMapped (c : Char) : Prop := map c = [c]
  deriving Decidable

theorem mapped_wide {n : Nat} (h : n < 94) :
    IsMapped (LowerCase.lower (Char.ofNat (n + 0x21))) := by
  have plain : ∀ n < 94, isPlain (Char.ofNat (n + 0x21)).toNat = true := by decide +kernel
  exact map_lower (plain n h)

theorem mapped_latin {n : Nat} {form : String} (h : latinForm? n = some form) :
    ∀ c ∈ form.toList, IsMapped c := by
  have forms : ([" ", "a", "o", "2", "3", "1", "μ", "1⁄4", "1⁄2", "3⁄4"].all
      fun form => form.toList.all (IsMapped ·)) := by decide +kernel
  refine List.all_iff_forall_prop.mp (List.all_eq_true.mp forms form ?_)
  unfold latinForm? at h
  repeat' split at h
  all_goals
    cases h
    try decide

theorem mapped_of_mem {c d : Char} (h : d ∈ map c) : IsMapped d := by
  unfold map at h
  simp only at h
  split at h
  · cases h
  split at h
  · rw [List.mem_singleton.mp h]
    decide +kernel
  split at h
  · rw [List.mem_singleton.mp h]
    decide +kernel
  split at h
  · rename_i hw
    rw [Bool.and_eq_true, decide_eq_true_eq, decide_eq_true_eq] at hw
    have hn : c.toNat - 0xFEE0 = c.toNat - 0xFF01 + 0x21 := by omega
    rw [List.mem_singleton.mp h, hn]
    exact mapped_wide (by omega)
  split at h
  · rename_i form hf
    exact mapped_latin hf d h
  · rename_i hi hd hs hw _ hl
    rw [List.mem_singleton.mp h]
    exact map_lower (by simp [isPlain, hi, hd, hs, hw, hl])

theorem flatMap_mapped {text : List Char} (h : ∀ c ∈ text, IsMapped c) :
    text.flatMap map = text := by
  induction text with
  | nil => rfl
  | cons c text ih =>
    rw [List.flatMap_cons, h c List.mem_cons_self, ih fun d hd => h d (List.mem_cons_of_mem c hd)]
    rfl

end Mapping

section Labels

variable {label written : List Char}

structure IsDomainChar (c : Char) : Prop where
  ascii : Ascii.isAscii c = true
  allowed : isDenied c = false
  mapped : IsMapped c

/-- A label that is kept as it is written. -/
structure IsWrittenLabel (written : List Char) : Prop where
  read : labelText? written = some written
  chars : ∀ c ∈ written, IsDomainChar c
  whole : '.' ∉ written

theorem ascii_digitChar {c : Char} (h : Punycode.isDigitChar c = true) : c.toNat < 128 := by
  simp only [Punycode.isDigitChar, Ascii.isLower, Ascii.isDigit, Bool.or_eq_true, Bool.and_eq_true,
    decide_eq_true_eq] at h
  omega

theorem domainChar_digitChar {c : Char} (h : Punycode.isDigitChar c = true) :
    IsDomainChar c ∧ c ≠ '.' := by
  have small := ascii_digitChar h
  have all : ∀ c : Char, c.toNat < 128 → Punycode.isDigitChar c = true →
      isDenied c = false ∧ IsMapped c := Utf8.forall_ascii (by decide +kernel)
  obtain ⟨allowed, mapped⟩ := all c small h
  refine ⟨⟨decide_eq_true small, allowed, mapped⟩, ?_⟩
  rintro rfl
  cases h

theorem domainChar_hyphen : IsDomainChar '-' := ⟨rfl, by decide, by decide +kernel⟩

theorem domainChar_marker : ∀ c ∈ marker, IsDomainChar c ∧ c ≠ '.' := by
  intro c hc
  have hx : c = 'x' ∨ c = 'n' ∨ c = '-' ∨ c = '-' := by simpa [marker] using hc
  rcases hx with rfl | rfl | rfl | rfl
  · exact domainChar_digitChar rfl
  · exact domainChar_digitChar rfl
  · exact ⟨domainChar_hyphen, by decide⟩
  · exact ⟨domainChar_hyphen, by decide⟩

theorem allowed_of_valid (h : isValidLabel label = true) : ∀ c ∈ label, isDenied c = false := by
  simp only [isValidLabel, Bool.and_eq_true, Bool.not_eq_true', List.any_eq_false,
    Bool.not_eq_true] at h
  exact h.1

theorem isPrefixOf_marker (label : List Char) : marker.isPrefixOf (marker ++ label) = true := by
  simp [List.isPrefixOf_iff_prefix]

/-- A label that needs the encoding is encoded to a label that is kept. -/
theorem written_encoded (valid : isValidLabel label = true) (wide : label.all Ascii.isAscii = false)
    (hm : ∀ c ∈ label, IsMapped c ∧ c ≠ '.') :
    IsWrittenLabel (marker ++ Punycode.encode label) := by
  have chars : ∀ c ∈ marker ++ Punycode.encode label, IsDomainChar c ∧ c ≠ '.' := by
    intro c hc
    rcases List.mem_append.mp hc with hc | hc
    · exact domainChar_marker c hc
    · rcases Punycode.mem_encode label hc with ⟨hc, ha⟩ | rfl | hd
      · exact ⟨⟨ha, allowed_of_valid valid c hc, (hm c hc).1⟩, (hm c hc).2⟩
      · exact ⟨domainChar_hyphen, by decide⟩
      · exact domainChar_digitChar hd
  have valid' : isValidLabel (marker ++ Punycode.encode label) = true := by
    have begins : marker ++ Punycode.encode label = 'x' :: 'n' :: '-' :: '-' ::
      Punycode.encode label := rfl
    have denied : (marker ++ Punycode.encode label).any isDenied = false := by
      rw [List.any_eq_false]
      exact fun c hc => Bool.eq_false_iff.mp (chars c hc).1.allowed
    rw [begins] at denied ⊢
    rw [isValidLabel.eq_def, denied]
    rfl
  have ascii : (marker ++ Punycode.encode label).all Ascii.isAscii = true :=
    List.all_eq_true.mpr fun c hc => (chars c hc).1.ascii
  have encoded : isValidEncoded ((marker ++ Punycode.encode label).drop marker.length) = true := by
    rw [List.drop_left, isValidEncoded, Punycode.decode_encode]
    simp [wide, valid, flatMap_mapped fun c hc => (hm c hc).1]
  refine ⟨?_, fun c hc => (chars c hc).1, fun hd => (chars '.' hd).2 rfl⟩
  simp only [labelText?, valid', ascii, isPrefixOf_marker, encoded, Bool.not_true,
    Bool.false_eq_true, if_false, if_true]

theorem written_of_label (hm : ∀ c ∈ label, IsMapped c ∧ c ≠ '.')
    (h : labelText? label = some written) : IsWrittenLabel written := by
  have keep := h
  unfold labelText? at h
  split at h
  · cases h
  rename_i valid
  rw [Bool.not_eq_true', Bool.not_eq_false] at valid
  have kept (ascii : label.all Ascii.isAscii = true) (same : written = label) :
      IsWrittenLabel written := by
    subst same
    exact ⟨keep, fun c hc => ⟨List.all_eq_true.mp ascii c hc, allowed_of_valid valid c hc,
      (hm c hc).1⟩, fun hd => (hm '.' hd).2 rfl⟩
  split at h
  · rename_i ascii
    split at h
    · split at h
      · exact kept ascii (Option.some.inj h).symm
      · cases h
    · exact kept ascii (Option.some.inj h).symm
  · rename_i wide
    split at h
    · cases h
    · cases h
      exact written_encoded valid (Bool.eq_false_iff.mpr wide) hm

end Labels

section Domains

variable {labels : List (List Char)}

theorem joinDots_cons (label next : List Char) (rest : List (List Char)) :
    joinDots (label :: next :: rest) = label ++ '.' :: joinDots (next :: rest) := rfl

theorem splitOn_joinDots (hne : labels ≠ []) (h : ∀ label ∈ labels, '.' ∉ label) :
    (joinDots labels).splitOn '.' = labels := by
  induction labels with
  | nil => exact absurd rfl hne
  | cons label rest ih =>
    have hl := h label List.mem_cons_self
    cases rest with
    | nil => exact List.splitOn_eq_singleton hl
    | cons next rest =>
      rw [joinDots_cons, List.splitOn_append_cons_self_of_not_mem hl,
        ih (by simp) fun l hm => h l (List.mem_cons_of_mem label hm)]

theorem mem_joinDots {c : Char} (h : c ∈ joinDots labels) :
    c = '.' ∨ ∃ label ∈ labels, c ∈ label := by
  induction labels with
  | nil => cases h
  | cons label rest ih =>
    cases rest with
    | nil => exact Or.inr ⟨label, List.mem_cons_self, h⟩
    | cons next rest =>
      rw [joinDots_cons, List.mem_append, List.mem_cons] at h
      rcases h with h | rfl | h
      · exact Or.inr ⟨label, List.mem_cons_self, h⟩
      · exact Or.inl rfl
      · exact (ih h).imp_right fun ⟨l, hl, hc⟩ => ⟨l, List.mem_cons_of_mem label hl, hc⟩

/-- A domain in its written form: labels that are kept, with dots between them. -/
def IsWritten (domain : List Char) : Prop :=
  ∃ labels, labels ≠ [] ∧ (∀ label ∈ labels, IsWrittenLabel label) ∧ domain = joinDots labels

variable {domain : List Char}

theorem domainChar_dot : IsDomainChar '.' := ⟨rfl, by decide, by decide +kernel⟩

theorem IsWritten.chars (h : IsWritten domain) : ∀ c ∈ domain, IsDomainChar c := by
  obtain ⟨labels, -, written, rfl⟩ := h
  intro c hc
  rcases mem_joinDots hc with rfl | ⟨label, hl, hc⟩
  · exact domainChar_dot
  · exact (written label hl).chars c hc

theorem written_of_bytes {bytes : Utf8.Bytes} (h : ofBytes bytes = .ok domain) :
    IsWritten domain := by
  unfold ofBytes at h
  split at h
  · cases h
  · rename_i text _
    split at h
    · cases h
    · rename_i labels hl
      cases h
      refine ⟨labels, mapM_ne_nil (List.splitOn_ne_nil _ _) hl, fun w hw => ?_, rfl⟩
      obtain ⟨label, hm, hw⟩ := mem_of_mapM hl w hw
      refine written_of_label (fun c hc => ?_) hw
      rw [List.splitOn_eq_splitOnP] at hm
      obtain ⟨hmem, hdot⟩ := mem_piece hm hc
      obtain ⟨d, -, hd⟩ := List.mem_flatMap.mp hmem
      exact ⟨mapped_of_mem hd, by simpa using hdot⟩

theorem decode_unescaped {text : List Char} (h : '%' ∉ text) :
    Percent.decode text = Utf8.encode text := by
  have all : ∀ bytes : Utf8.Bytes, (0x25 : UInt8) ∉ bytes → Percent.decodeBytes bytes = bytes := by
    intro bytes hb
    induction bytes with
    | nil => rfl
    | cons b bytes ih =>
      rw [List.mem_cons, not_or] at hb
      rw [Percent.decodeBytes_kept (Ne.symm hb.1), ih hb.2]
  refine all _ fun hm => ?_
  obtain ⟨c, hc, hb⟩ := List.mem_flatMap.mp hm
  exact h ((Utf8.mem_char (a := '%') (by decide) c).mp hb ▸ hc)

/-- A domain in its written form is read as it stands. -/
theorem IsWritten.read (h : IsWritten domain) : ofBytes (Percent.decode domain) = .ok domain := by
  have unescaped : '%' ∉ domain := fun hm => by
    have hd := (h.chars '%' hm).allowed
    revert hd
    decide
  have decoded : Utf8.decode (Utf8.encode domain) = .ok domain := by
    rw [Utf8.decode, Utf8.pieces_encode, Utf8.collect_chars]
  have mapped := flatMap_mapped fun c hc => (h.chars c hc).mapped
  obtain ⟨labels, hne, written, rfl⟩ := h
  have split := splitOn_joinDots hne fun label hl => (written label hl).whole
  have all : (labels.map id).mapM labelText? = some labels :=
    mapM_written fun label hl => (written label hl).read
  rw [List.map_id] at all
  simp only [decode_unescaped unescaped, ofBytes, decoded, mapped, split, all]

end Domains

end ScriptHost.Url.Domain
