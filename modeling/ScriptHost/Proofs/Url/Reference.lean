import Mathlib.Data.List.DropRight
import Mathlib.Data.List.TakeWhile
import ScriptHost.Proofs.Text.Percent
import ScriptHost.Url.Reference

/-!
# What reading an identifier gives

A text that no blank surrounds is divided at its first question mark, and without
blanks, number signs and question marks it is read as it stands. The identifier of
a file that is written with segments has the path that walking these segments leaves.
-/

set_option autoImplicit false

namespace ScriptHost.Url

section Texts

variable {body : List Char} {query : Option (List Char)} {c : Char}

def IsLiteral (c : Char) : Prop := 0x20 < c.toNat ∧ c ≠ '#' ∧ c ≠ '?'
  deriving Decidable

def IsBodyChar (c : Char) : Prop := 0x20 ≤ c.toNat ∧ c ≠ '#' ∧ c ≠ '?'

theorem IsLiteral.bodyChar (h : IsLiteral c) : IsBodyChar c := ⟨Nat.le_of_lt h.1, h.2⟩

/-- A body that no blank surrounds, with its query if there is one. -/
structure IsText (body : List Char) (query : Option (List Char)) : Prop where
  chars : ∀ c ∈ body, IsBodyChar c
  first : ∀ c ∈ body.head?, 0x20 < c.toNat
  last : query = none → ∀ c ∈ body.getLast?, 0x20 < c.toNat
  asked : ∀ q, query = some q → ∀ c ∈ q, 0x20 < c.toNat ∧ c ≠ '#'

theorem outer_of_all {o : Option Char} (h : o.all (0x20 < ·.toNat) = true) :
    ∀ c ∈ o, 0x20 < c.toNat :=
  fun c hc => of_decide_eq_true ((Option.all_eq_true _ _).mp h c hc)

theorem trimEndBy_eq (p : Char → Bool) (text : List Char) :
    Blank.trimEndBy p text = text.rdropWhile p := rfl

theorem trimEndBy_append {p : Char → Bool} {last : Char} (hp : p last = false)
    (front back : List Char) :
    Blank.trimEndBy p (front ++ last :: back) = front ++ last :: Blank.trimEndBy p back := by
  have kept : (last :: front.reverse).dropWhile p = last :: front.reverse :=
    List.dropWhile_cons_of_neg (by simp [hp])
  rw [Blank.trimEndBy, Blank.trimEndBy, List.reverse_append, List.reverse_cons, List.append_assoc,
    List.singleton_append, List.dropWhile_append, kept]
  split
  · rename_i he
    rw [List.isEmpty_iff.mp he]
    simp
  · simp

theorem trimBy_append {p : Char → Bool} {last : Char} (hp : p last = false)
    (front back : List Char) : Blank.trimBy p (front ++ last :: back) =
      front.dropWhile p ++ last :: Blank.trimEndBy p back := by
  have start : (front ++ last :: back).dropWhile p = front.dropWhile p ++ last :: back := by
    rw [List.dropWhile_append]
    split
    · rename_i he
      rw [List.isEmpty_iff.mp he, List.dropWhile_cons_of_neg (by simp [hp])]
      rfl
    · rfl
  rw [Blank.trimBy, start, trimEndBy_append hp]

theorem trimBy_kept {text : List Char} (first : ∀ c ∈ text.head?, 0x20 < c.toNat)
    (last : ∀ c ∈ text.getLast?, 0x20 < c.toNat) : Blank.trimBy isOuterBlank text = text := by
  rcases List.eq_nil_or_concat' text with rfl | ⟨front, c, rfl⟩
  · rfl
  · have hc := last c (by simp)
    have start : front.dropWhile isOuterBlank = front := by
      cases front with
      | nil => rfl
      | cons d front =>
        have hd := first d rfl
        exact List.dropWhile_cons_of_neg (by simpa [isOuterBlank] using hd)
    rw [trimBy_append (by simpa [isOuterBlank] using hc), start]
    rfl

theorem ofText_parts
    (trim : Blank.trimBy isOuterBlank (body ++ queryText query) = body ++ queryText query)
    (chars : ∀ c ∈ body ++ queryText query, isLineBlank c = false ∧ c ≠ '#')
    (free : ∀ c ∈ body, c ≠ '?') :
    Reference.ofText (body ++ queryText query) = ⟨body, query, false⟩ := by
  have lines : (body ++ queryText query).filter (!isLineBlank ·) = body ++ queryText query :=
    List.filter_eq_self.mpr fun c hc => by simp [(chars c hc).1]
  have hash : (body ++ queryText query).takeWhile (· ≠ '#') = body ++ queryText query :=
    List.takeWhile_eq_self_iff.mpr fun c hc => decide_eq_true (chars c hc).2
  have free' : ∀ c ∈ body, decide (c ≠ '?') = true := fun c hc => decide_eq_true (free c hc)
  have before : (body ++ queryText query).takeWhile (· ≠ '?') = body := by
    rw [List.takeWhile_append_of_pos free']
    cases query <;> simp [queryText]
  have after : (body ++ queryText query).dropWhile (· ≠ '?') = queryText query := by
    rw [List.dropWhile_append_of_pos free']
    cases query <;> simp [queryText]
  have fragment : (body ++ queryText query).contains '#' = false := by
    rw [List.contains_eq_mem, decide_eq_false_iff_not]
    exact fun hc => (chars '#' hc).2 rfl
  simp only [Reference.ofText, trim, lines, hash, before, after, fragment]
  cases query <;> rfl

theorem ofText_plain {text : List Char} (first : ∀ c ∈ text.head?, 0x20 < c.toNat)
    (last : ∀ c ∈ text.getLast?, 0x20 < c.toNat)
    (chars : ∀ c ∈ text, c ≠ '#' ∧ c ≠ '?' ∧ isLineBlank c = false) :
    Reference.ofText text = ⟨text, none, false⟩ := by
  have parts := @ofText_parts text none
  rw [queryText, List.append_nil] at parts
  exact parts (trimBy_kept first last) (fun c hc => ⟨(chars c hc).2.2, (chars c hc).1⟩)
    fun c hc => (chars c hc).2.1

theorem IsText.mem (h : IsText body query) :
    ∀ c ∈ body ++ queryText query, 0x20 ≤ c.toNat ∧ c ≠ '#' := by
  intro c hc
  rcases List.mem_append.mp hc with hc | hc
  · exact ⟨(h.chars c hc).1, (h.chars c hc).2.1⟩
  · cases query with
    | none => cases hc
    | some q =>
      rcases List.mem_cons.mp hc with rfl | hc
      · exact ⟨by decide, by decide⟩
      · exact ⟨Nat.le_of_lt (h.asked q rfl c hc).1, (h.asked q rfl c hc).2⟩

theorem IsText.getLast (h : IsText body query) :
    ∀ c ∈ (body ++ queryText query).getLast?, 0x20 < c.toNat := by
  intro c hc
  cases query with
  | none =>
    rw [queryText, List.append_nil] at hc
    exact h.last rfl c hc
  | some q =>
    rw [queryText, List.getLast?_append_cons] at hc
    rcases List.mem_cons.mp (List.mem_of_getLast? hc) with rfl | hm
    · decide
    · exact (h.asked q rfl c hm).1

/-- The parts of a text are found again. -/
theorem IsText.ofText (h : IsText body query) (hne : body ≠ []) :
    Reference.ofText (body ++ queryText query) = ⟨body, query, false⟩ := by
  have first : ∀ c ∈ (body ++ queryText query).head?, 0x20 < c.toNat := by
    rw [List.head?_append_of_ne_nil _ hne]
    exact h.first
  refine ofText_parts (trimBy_kept first h.getLast) (fun c hc => ⟨?_, (h.mem c hc).2⟩)
    fun c hc => (h.chars c hc).2.2
  have low := (h.mem c hc).1
  have other : ∀ d : Char, d.toNat < 0x20 → c ≠ d := fun d hd he => by
    rw [he] at low
    omega
  simp [isLineBlank, other '\t' (by decide), other '\n' (by decide), other '\r' (by decide)]

theorem ofText_literal {text : List Char} (h : ∀ c ∈ text, IsLiteral c) :
    Reference.ofText text = ⟨text, none, false⟩ := by
  cases text with
  | nil => decide
  | cons c rest =>
    have parts : IsText (c :: rest) none := ⟨fun d hd => (h d hd).bodyChar,
      fun d hd => (h d (List.mem_of_mem_head? hd)).1,
      fun _ d hd => (h d (List.mem_of_getLast? hd)).1, nofun⟩
    have read := parts.ofText (List.cons_ne_nil c rest)
    rwa [queryText, List.append_nil] at read

theorem splitScheme_none {text : List Char} (h : ':' ∉ text) : splitScheme text = none := by
  unfold splitScheme
  split
  · rename_i hd
    have hm : ':' ∈ text.dropWhile isSchemeChar := hd ▸ List.mem_cons_self
    exact absurd ((List.dropWhile_suffix _).subset hm) h
  · rfl

end Texts

section Writing

variable {segments : List Segment} {special : Bool}

theorem segmentsOf_append (h : ∀ s ∈ segments, ∀ c ∈ s, isSeparator special c = false)
    {front : Segment} (hf : ∀ c ∈ front, isSeparator special c = false) :
    segmentsOf special (front ++ segmentsText segments) = front :: segments := by
  induction segments generalizing front with
  | nil =>
    rw [segmentsText, List.append_nil]
    exact List.splitOnP_eq_singleton hf
  | cons s segments ih =>
    have hs := ih (fun t ht => h t (List.mem_cons_of_mem s ht)) (h s List.mem_cons_self)
    have hp := List.splitOnP_append_cons_of_forall_mem hf '/' (by simp [isSeparator])
      (s ++ segmentsText segments)
    rw [segmentsOf] at hs ⊢
    rw [segmentsText, List.cons_append, hp, hs]

theorem mem_segmentsText {c : Char} (h : c ∈ segmentsText segments) :
    c = '/' ∨ ∃ s ∈ segments, c ∈ s := by
  induction segments with
  | nil => cases h
  | cons s segments ih =>
    rw [segmentsText, List.cons_append, List.mem_cons, List.mem_append] at h
    rcases h with hc | hs | hr
    · exact Or.inl hc
    · exact Or.inr ⟨s, List.mem_cons_self, hs⟩
    · rcases ih hr with hc | ⟨t, ht, hc⟩
      · exact Or.inl hc
      · exact Or.inr ⟨t, List.mem_cons_of_mem s ht, hc⟩

end Writing

section Files

variable {segments : List Segment}

def localFile (path : Path) : Url := ⟨fileScheme, some ⟨[], none, none⟩, path, none⟩

theorem isLiteral_pathChar {c : Char} (h : Percent.Place.path.keeps c = true) : IsLiteral c := by
  have hlow := (Percent.keeps_bounds h).1
  simp only [Percent.Place.keeps, Bool.and_eq_true, decide_eq_true_eq, Bool.not_eq_true'] at h
  obtain ⟨ascii, he⟩ := h
  have hc : ∀ d : Char, Percent.Place.path.escapes (UInt8.ofNat d.toNat) = true → c ≠ d := by
    intro d hd he'
    rw [he', hd] at he
    cases he
  have hspace : c.toNat ≠ 0x20 := fun hn => hc ' ' (by decide) (Char.toNat_inj.mp hn)
  exact ⟨by omega, hc '#' (by decide), hc '?' (by decide)⟩

theorem isLiteral_segmentChar {c : Char} (h : Percent.isSegmentChar c = true) : IsLiteral c := by
  simp only [Percent.isSegmentChar, Bool.and_eq_true] at h
  exact isLiteral_pathChar h.1.1

theorem separator_segmentChar {c : Char} (h : Percent.isSegmentChar c = true) :
    isSeparator true c = false := by
  simp only [Percent.isSegmentChar, Bool.and_eq_true, decide_eq_true_eq] at h
  simp [isSeparator, h.1.2, h.2]

theorem parse_segments (hne : segments ≠ [])
    (h : ∀ s ∈ segments, ∀ c ∈ s, Percent.isSegmentChar c = true) :
    Url.parse (String.ofList ("file://".toList ++ segmentsText segments)) =
      .ok (localFile (settle true (walk true [] ([] :: segments)))) := by
  have hl : ∀ c ∈ "file://".toList ++ segmentsText segments, IsLiteral c := by
    intro c hc
    rcases List.mem_append.mp hc with hs | ht
    · have hd : "file://".toList.all (IsLiteral ·) = true := by decide
      exact of_decide_eq_true (List.all_eq_true.mp hd c hs)
    · rcases mem_segmentsText ht with rfl | ⟨s, hs, hc⟩
      · exact ⟨by decide, by decide, by decide⟩
      · exact isLiteral_segmentChar (h s hs c hc)
  have hsep : ∀ s ∈ segments, ∀ c ∈ s, isSeparator true c = false :=
    fun s hs c hc => separator_segmentChar (h s hs c hc)
  have hempty : ∀ c ∈ ([] : Segment), isSeparator true c = false := by simp
  have hw : segmentsOf true (segmentsText segments) = [] :: segments :=
    segmentsOf_append hsep hempty
  have hf : ∃ rest, segmentsText segments = '/' :: rest := by
    cases segments with
    | nil => exact absurd rfl hne
    | cons s segments => exact ⟨_, rfl⟩
  obtain ⟨rest, hr⟩ := hf
  rw [hr] at hw hl ⊢
  rw [Url.parse, String.toList_ofList, ofText_literal hl]
  have hs : splitScheme ("file://".toList ++ '/' :: rest) =
      some (fileScheme, '/' :: '/' :: '/' :: rest) := rfl
  rw [ofReference, hs]
  show Except.ok (fileWith none (filePath [] ('/' :: rest)) _) = _
  rw [filePath, pathBelow, hw]
  rfl

end Files

end ScriptHost.Url
