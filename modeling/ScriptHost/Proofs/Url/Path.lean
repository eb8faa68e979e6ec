import ScriptHost.Proofs.Text.Encoded
import ScriptHost.Proofs.Text.Pieces
import ScriptHost.Proofs.Url.Reference

/-!
# Reading back a path

The segments on the stack are written so that walking them once more pushes them
as they are: they hold no character that has to be escaped, no separator, and
they are not dots. Only a drive letter at the front of a file path changes.
-/

set_option autoImplicit false

namespace ScriptHost.Url

section Segments

variable {special : Bool} {s : Segment} {c : Char}

structure IsSegment (special : Bool) (s : Segment) : Prop where
  kept : ∀ c ∈ s, Percent.Place.keeps .path c = true
  whole : ∀ c ∈ s, isSeparator special c = false
  single : isSingleDot s = false
  double : isDoubleDot s = false

theorem no_segments (special : Bool) : ∀ s ∈ ([] : List Segment), IsSegment special s := by simp

theorem isSegment_nil : IsSegment special [] := ⟨by simp, by simp, by decide, by decide⟩

/-- No escape of a path is part of a dot form. -/
theorem escape_not_dot {b : UInt8} (hb : Percent.Place.path.escapes b = true)
    (h : Percent.escape b <:+: s) : isSingleDot s = false ∧ isDoubleDot s = false := by
  have all : ∀ b, Percent.Place.path.escapes b = true →
      (∀ f ∈ dotForms, ¬ Percent.escape b <:+: f) ∧
        ∀ f ∈ dotForms, ∀ g ∈ dotForms, ¬ Percent.escape b <:+: f ++ g :=
    Utf8.forall_byte (by decide +kernel)
  obtain ⟨single, double⟩ := all b hb
  constructor
  · rw [Bool.eq_false_iff]
    exact fun hs => single s (List.contains_iff_mem.mp hs) h
  · rw [Bool.eq_false_iff]
    intro hs
    obtain ⟨f, hf, hs⟩ := List.any_eq_true.mp hs
    obtain ⟨g, hg, hs⟩ := List.any_eq_true.mp hs
    exact double f hf g hg (of_decide_eq_true hs ▸ h)

theorem dots_encode (single : isSingleDot s = false) (double : isDoubleDot s = false) :
    isSingleDot (Percent.encode .path s) = false ∧
      isDoubleDot (Percent.encode .path s) = false := by
  by_cases h : Percent.encode .path s = s
  · rw [h]
    exact ⟨single, double⟩
  · obtain ⟨b, hb, hi⟩ := Percent.escape_infix h
    exact escape_not_dot hb hi

theorem separator_encode (h : ∀ c ∈ s, isSeparator special c = false) :
    ∀ c ∈ Percent.encode .path s, isSeparator special c = false := by
  have escapes : ∀ special, Percent.escapeChars.all (isSeparator special · = false) := by decide
  exact Percent.forall_mem_encode (escapes special) h

theorem isSegment_encode (whole : ∀ c ∈ s, isSeparator special c = false)
    (single : isSingleDot s = false) (double : isDoubleDot s = false) :
    IsSegment special (Percent.encode .path s) :=
  ⟨Percent.keeps_encode (by decide), separator_encode whole, (dots_encode single double).1,
    (dots_encode single double).2⟩

theorem not_dot_of_head {a : Char} (ha : a ≠ '.') (hp : a ≠ '%') (rest : List Char) :
    isSingleDot (a :: rest) = false ∧ isDoubleDot (a :: rest) = false := by
  have heads : ∀ f ∈ dotForms, f.head? = some '.' ∨ f.head? = some '%' := by decide
  have doubles : ∀ f ∈ dotForms, ∀ g ∈ dotForms,
      (f ++ g).head? = some '.' ∨ (f ++ g).head? = some '%' := by decide
  have other : ¬ ((a :: rest).head? = some '.' ∨ (a :: rest).head? = some '%') := by simp [ha, hp]
  constructor
  · rw [Bool.eq_false_iff]
    exact fun hs => other (heads _ (List.contains_iff_mem.mp hs))
  · rw [Bool.eq_false_iff]
    intro hs
    obtain ⟨f, hf, hs⟩ := List.any_eq_true.mp hs
    obtain ⟨g, hg, hs⟩ := List.any_eq_true.mp hs
    exact other (of_decide_eq_true hs ▸ doubles f hf g hg)

theorem alpha_char {a : Char} (h : Ascii.isAlpha a = true) :
    Percent.Place.keeps .path a = true ∧ (∀ special, isSeparator special a = false) ∧
      a ≠ '.' ∧ a ≠ '%' := by
  have small : a.toNat < 128 := by
    simp only [Ascii.isAlpha, Ascii.isUpper, Ascii.isLower, Bool.or_eq_true, Bool.and_eq_true,
      decide_eq_true_eq] at h
    omega
  have all : ∀ c : Char, c.toNat < 128 → Ascii.isAlpha c = true →
      Percent.Place.keeps .path c = true ∧ (∀ special, isSeparator special c = false) ∧
        c ≠ '.' ∧ c ≠ '%' := Utf8.forall_ascii (by decide +kernel)
  exact all a small h

theorem isSegment_drive {a : Char} (ha : Ascii.isAlpha a = true)
    (h : ∀ c ∈ s, isSeparator special c = false) :
    IsSegment special ([a, ':'] ++ Percent.encode .path s) := by
  obtain ⟨keeps, whole, dot, percent⟩ := alpha_char ha
  obtain ⟨single, double⟩ := not_dot_of_head dot percent (':' :: Percent.encode .path s)
  refine ⟨fun c hc => ?_, fun c hc => ?_, single, double⟩
  · rw [List.mem_append, List.mem_cons, List.mem_singleton] at hc
    rcases hc with (rfl | rfl) | hc
    · exact keeps
    · decide
    · exact Percent.keeps_encode (by decide) c hc
  · rw [List.mem_append, List.mem_cons, List.mem_singleton] at hc
    rcases hc with (rfl | rfl) | hc
    · exact whole special
    · cases special <;> decide
    · exact separator_encode h c hc

theorem isSegment_written (file : Bool) (stack : List Segment)
    (whole : ∀ c ∈ s, isSeparator special c = false) (single : isSingleDot s = false)
    (double : isDoubleDot s = false) : IsSegment special (writtenSegment file stack s) := by
  have plain := isSegment_encode whole single double
  unfold writtenSegment
  split
  · split
    · rename_i a b hd
      simp only [isDriveLetter, Bool.and_eq_true] at hd
      exact isSegment_drive (s := []) hd.2.1 (by simp)
    · exact plain
  · exact plain

end Segments

section Walking

variable {special file : Bool} {s : Segment} {stack segments : List Segment}

theorem popSegment_subset (stack : List Segment) : popSegment stack ⊆ stack := by
  cases stack with
  | nil => exact List.Subset.refl _
  | cons top stack =>
    rw [popSegment]
    split
    · exact List.Subset.refl _
    · exact List.subset_cons_self top stack

theorem enter_segments (file : Bool) (h : ∀ t ∈ stack, IsSegment special t)
    (whole : ∀ c ∈ s, isSeparator special c = false) :
    ∀ t ∈ enter file stack s, IsSegment special t := by
  unfold enter
  split
  · exact fun t ht => h t (popSegment_subset stack ht)
  · rename_i double
    split
    · exact h
    · rename_i single
      exact List.forall_mem_cons.mpr ⟨isSegment_written file stack whole
        (Bool.eq_false_iff.mpr single) (Bool.eq_false_iff.mpr double), h⟩

theorem finish_segments (h : ∀ t ∈ stack, IsSegment special t)
    (whole : ∀ c ∈ s, isSeparator special c = false) :
    (∀ t ∈ finish file stack s, IsSegment special t) ∧ finish file stack s ≠ [] := by
  unfold finish
  split
  · exact ⟨List.forall_mem_cons.mpr ⟨isSegment_nil, fun t ht => h t (popSegment_subset stack ht)⟩,
      List.cons_ne_nil _ _⟩
  · rename_i double
    split
    · exact ⟨List.forall_mem_cons.mpr ⟨isSegment_nil, h⟩, List.cons_ne_nil _ _⟩
    · rename_i single
      exact ⟨List.forall_mem_cons.mpr ⟨isSegment_written file stack whole
        (Bool.eq_false_iff.mpr single) (Bool.eq_false_iff.mpr double), h⟩, List.cons_ne_nil _ _⟩

theorem walk_segments (file : Bool) (h : ∀ t ∈ stack, IsSegment special t)
    (whole : ∀ s ∈ segments, ∀ c ∈ s, isSeparator special c = false) :
    (∀ t ∈ walk file stack segments, IsSegment special t) ∧
      (stack ≠ [] ∨ segments ≠ [] → walk file stack segments ≠ []) := by
  induction segments generalizing stack with
  | nil =>
    rw [walk]
    exact ⟨h, fun hne => hne.elim id (absurd rfl)⟩
  | cons s segments ih =>
    have hs := whole s List.mem_cons_self
    cases segments with
    | nil =>
      rw [walk]
      exact ⟨(finish_segments h hs).1, fun _ => (finish_segments h hs).2⟩
    | cons t rest =>
      have hr := ih (enter_segments file h hs) fun u hu =>
        whole u (List.mem_cons_of_mem s hu)
      rw [walk]
      exact ⟨hr.1, fun _ => hr.2 (Or.inr (List.cons_ne_nil t rest))⟩

theorem whole_segmentsOf (special : Bool) (text : List Char) :
    ∀ s ∈ segmentsOf special text, ∀ c ∈ s, isSeparator special c = false :=
  fun _ hs _ hc => (mem_piece hs hc).2

theorem isWrittenDriveLetter_cases (h : isWrittenDriveLetter s = true) :
    ∃ a, s = [a, ':'] ∧ Ascii.isAlpha a = true := by
  unfold isWrittenDriveLetter at h
  split at h
  · rename_i a b
    rw [Bool.and_eq_true, decide_eq_true_eq] at h
    exact ⟨a, by rw [h.2], h.1⟩
  · cases h

theorem walkBesideDrive_segments {drive : Segment} {below : List Segment}
    (hd : isWrittenDriveLetter drive = true) (h : ∀ t ∈ drive :: below, IsSegment special t)
    (whole : ∀ s ∈ segments, ∀ c ∈ s, isSeparator special c = false) :
    (∀ t ∈ walkBesideDrive drive below segments, IsSegment special t) ∧
      walkBesideDrive drive below segments ≠ [] := by
  have kept (stack rest : List Segment) (hs : ∀ t ∈ stack, IsSegment special t) (hne : stack ≠ [])
      (hr : ∀ s ∈ rest, ∀ c ∈ s, isSeparator special c = false) :
      (∀ t ∈ walk true stack rest, IsSegment special t) ∧ walk true stack rest ≠ [] :=
    (walk_segments true hs hr).imp_right fun all => all (Or.inl hne)
  have alone : ∀ t ∈ [drive], IsSegment special t := by simpa using h drive List.mem_cons_self
  unfold walkBesideDrive
  split
  · exact ⟨h, List.cons_ne_nil _ _⟩
  · rename_i s rest
    have hs := whole s List.mem_cons_self
    have hr := fun t ht => whole t (List.mem_cons_of_mem s ht)
    split
    · split
      · exact kept [drive] _ alone (List.cons_ne_nil _ _) hr
      · exact kept [drive] _ alone (List.cons_ne_nil _ _) whole
    split
    · exact kept _ rest h (List.cons_ne_nil _ _) hr
    split
    · split
      · exact ⟨List.forall_mem_cons.mpr ⟨isSegment_nil, h⟩, List.cons_ne_nil _ _⟩
      · exact kept _ _ h (List.cons_ne_nil _ _) hr
    · obtain ⟨a, rfl, ha⟩ := isWrittenDriveLetter_cases hd
      have below := fun t ht => h t (List.mem_cons_of_mem _ ht)
      exact kept _ rest (List.forall_mem_cons.mpr ⟨isSegment_drive ha hs, below⟩)
        (List.cons_ne_nil _ _) hr

end Walking

section Settling

variable {special file : Bool} {stack segments : List Segment}

structure IsRooted (special file : Bool) (segments : List Segment) : Prop where
  segment : ∀ s ∈ segments, IsSegment special s
  ne_nil : segments ≠ []
  settled : file = true → withoutLeadingEmpty segments = segments

theorem withoutLeadingEmpty_spec (segments : List Segment) :
    withoutLeadingEmpty segments = [[]] ∨ ∃ s rest, s ≠ [] ∧
      withoutLeadingEmpty segments = s :: rest ∧ s :: rest ⊆ segments := by
  unfold withoutLeadingEmpty
  split
  · exact Or.inl rfl
  · rename_i nonempty
    cases hd : segments.dropWhile (·.isEmpty) with
    | nil => exact absurd hd nonempty
    | cons s rest =>
      have hs := List.head?_dropWhile_not (fun s : Segment => s.isEmpty) segments
      refine Or.inr ⟨s, rest, ?_, rfl, hd ▸ (List.dropWhile_suffix _).subset⟩
      simpa [hd] using hs

theorem settle_rooted (file : Bool) (h : ∀ s ∈ stack, IsSegment special s) (hne : stack ≠ []) :
    ∃ segments, settle file stack = .rooted segments ∧ IsRooted special file segments := by
  refine ⟨_, rfl, ?_⟩
  cases file with
  | false =>
    exact ⟨fun s hs => h s (List.mem_reverse.mp hs), by simpa using hne, nofun⟩
  | true =>
    simp only [if_true]
    rcases withoutLeadingEmpty_spec stack.reverse with he | ⟨s, rest, hs, he, hsub⟩
    · rw [he]
      exact ⟨by simpa using isSegment_nil, List.cons_ne_nil _ _, fun _ => rfl⟩
    · rw [he]
      refine ⟨fun t ht => h t (List.mem_reverse.mp (hsub ht)), List.cons_ne_nil _ _, fun _ => ?_⟩
      simp [withoutLeadingEmpty, hs]

theorem pathBelow_rooted (special file : Bool) (h : ∀ s ∈ stack, IsSegment special s)
    (text : List Char) :
    ∃ segments, pathBelow special file stack text = .rooted segments ∧
      IsRooted special file segments := by
  obtain ⟨all, nonempty⟩ := walk_segments file h (whole_segmentsOf special text)
  exact settle_rooted _ all (nonempty (Or.inr (List.splitOnP_ne_nil _ _)))

theorem pathAfterServer_rooted (special : Bool) (text : List Char) :
    ∃ segments, pathAfterServer special text = .rooted segments ∧
      (segments = [] ∧ special = false ∨ IsRooted special false segments) := by
  have below (text : List Char) : ∃ segments, pathBelow special false [] text = .rooted segments ∧
      (segments = [] ∧ special = false ∨ IsRooted special false segments) := by
    obtain ⟨segments, he, hr⟩ := pathBelow_rooted special false (no_segments special) text
    exact ⟨segments, he, Or.inr hr⟩
  unfold pathAfterServer
  split
  · cases special with
    | false => exact ⟨[], rfl, Or.inl ⟨rfl, rfl⟩⟩
    | true =>
      refine ⟨[[]], rfl, Or.inr ⟨by simpa using isSegment_nil, List.cons_ne_nil _ _, fun hf => ?_⟩⟩
      cases hf
  · split
    · exact below _
    · exact below _

end Settling

section Rewalking

variable {special file : Bool} {s : Segment} {stack segments : List Segment}

theorem writtenSegment_kept (h : IsSegment special s)
    (hd : file = true → stack = [] → isDriveLetter s = false) :
    writtenSegment file stack s = s := by
  have kept := Percent.encode_kept h.kept
  unfold writtenSegment
  split
  · rename_i a b
    rw [if_neg]
    · exact kept
    · simp only [Bool.and_eq_true, List.isEmpty_iff]
      rintro ⟨⟨hf, hs⟩, drive⟩
      rw [hd hf hs] at drive
      cases drive
  · exact kept

theorem enter_kept (h : IsSegment special s) :
    enter file stack s = writtenSegment file stack s :: stack := by
  simp [enter, h.single, h.double]

theorem finish_kept (h : IsSegment special s) :
    finish file stack s = writtenSegment file stack s :: stack := by
  simp [finish, h.single, h.double]

theorem walk_kept (hs : IsSegment special s) (h : ∀ t ∈ segments, IsSegment special t) :
    walk file stack (s :: segments) = segments.reverse ++ writtenSegment file stack s :: stack := by
  induction segments generalizing s stack with
  | nil => exact finish_kept hs
  | cons t segments ih =>
    have ht := h t List.mem_cons_self
    have same : writtenSegment file (writtenSegment file stack s :: stack) t = t :=
      writtenSegment_kept ht nofun
    rw [walk, enter_kept hs, ih ht fun u hu => h u (List.mem_cons_of_mem t hu), same]
    simp

theorem walk_rooted (h : ∀ t ∈ segments, IsSegment special t)
    (hd : file = true → stack = [] → ∀ s ∈ segments.head?, isDriveLetter s = false) :
    walk file stack segments = segments.reverse ++ stack := by
  cases segments with
  | nil => rfl
  | cons s segments =>
    have hs := h s List.mem_cons_self
    rw [walk_kept hs fun t ht => h t (List.mem_cons_of_mem s ht),
      writtenSegment_kept hs fun hf he => hd hf he s rfl]
    simp

theorem segmentsOf_text {first : Segment} (h : ∀ t ∈ first :: segments, IsSegment special t) :
    segmentsOf special (first ++ segmentsText segments) = first :: segments :=
  segmentsOf_append (fun t ht => (h t (List.mem_cons_of_mem first ht)).whole)
    (h first List.mem_cons_self).whole

theorem segmentsOf_segmentsText (h : ∀ t ∈ segments, IsSegment special t) :
    segmentsOf special (segmentsText segments) = [] :: segments := by
  have all : ∀ t ∈ [] :: segments, IsSegment special t :=
    List.forall_mem_cons.mpr ⟨isSegment_nil, h⟩
  exact segmentsOf_text all

theorem pathAfterServer_text
    (h : segments = [] ∧ special = false ∨ IsRooted special false segments) :
    pathAfterServer special (segmentsText segments) = .rooted segments := by
  cases segments with
  | nil =>
    rcases h with ⟨-, rfl⟩ | h
    · rfl
    · exact absurd rfl h.ne_nil
  | cons s segments =>
    have hr : IsRooted special false (s :: segments) := h.resolve_left fun he => by simp at he
    have hw : walk false [] (s :: segments) = (s :: segments).reverse ++ [] :=
      walk_rooted hr.segment nofun
    rw [segmentsText, List.cons_append, pathAfterServer, if_pos (by simp [isSeparator]), pathBelow,
      segmentsOf_text hr.segment, hw, settle]
    simp

theorem literal_segmentsText (h : ∀ t ∈ segments, IsSegment special t) :
    ∀ c ∈ segmentsText segments, IsLiteral c := by
  intro c hc
  rcases mem_segmentsText hc with rfl | ⟨s, hs, hc⟩
  · exact ⟨by decide, by decide, by decide⟩
  · exact isLiteral_pathChar ((h s hs).kept c hc)

end Rewalking

end ScriptHost.Url
