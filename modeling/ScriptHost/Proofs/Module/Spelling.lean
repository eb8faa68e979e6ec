import ScriptHost.Module.FilePath
import ScriptHost.Proofs.Native.Path
import ScriptHost.Proofs.Url.Reference

/-!
# The spelling of file identifiers

The segments of a file identifier are plainly written if each is the encoding
of a component, perhaps with an empty one after them. A path is made an
identifier this way: walking its encoded components only takes some of them
away. The path of such an identifier has the encoded components.
-/

set_option autoImplicit false

namespace ScriptHost.ModuleId

open NativePath Url

section Segments

variable {c : Utf8.Bytes} {cs : List Utf8.Bytes} {stack segments : List Segment}

/-- Encodings of components, perhaps with an empty segment beyond them. -/
def Encoded (segments : List Segment) : Prop :=
  ∃ cs : List Utf8.Bytes, (∀ c ∈ cs, IsComponent c) ∧
    (segments = cs.map segmentOf ∨ segments = cs.map segmentOf ++ [[]])

theorem segmentChar_segmentOf (c : Utf8.Bytes) :
    ∀ d ∈ segmentOf c, Percent.isSegmentChar d = true := Percent.segmentChar_encodeBytes c

theorem decode_segmentOf (c : Utf8.Bytes) : Percent.decode (segmentOf c) = c :=
  Percent.decode_encodeBytes (by decide) c

theorem encode_segmentOf (c : Utf8.Bytes) :
    Percent.encode .path (segmentOf c) = segmentOf c := by
  apply Percent.encode_kept
  intro d hd
  have h := segmentChar_segmentOf c d hd
  simp only [Percent.isSegmentChar, Bool.and_eq_true] at h
  exact h.1.1

theorem segmentOf_ne_nil (h : IsComponent c) : segmentOf c ≠ [] := by
  intro he
  have hd := decode_segmentOf c
  rw [he] at hd
  exact h.1 hd.symm

theorem encoded_nil : Encoded [] := ⟨[], by simp, Or.inl rfl⟩

theorem encoded_empty : Encoded [[]] := ⟨[], by simp, Or.inr rfl⟩

theorem Encoded.cons (hc : IsComponent c) (h : Encoded segments) :
    Encoded (segmentOf c :: segments) := by
  obtain ⟨cs, hcs, hs⟩ := h
  refine ⟨c :: cs, fun d hd => ?_, ?_⟩
  · rcases List.mem_cons.mp hd with rfl | hd
    · exact hc
    · exact hcs d hd
  · rcases hs with rfl | rfl
    · exact Or.inl rfl
    · exact Or.inr rfl

theorem Encoded.tail {s : Segment} (h : Encoded (s :: segments)) : Encoded segments := by
  obtain ⟨cs, hcs, hs⟩ := h
  cases cs with
  | nil =>
    rcases hs with hs | hs
    · cases hs
    · cases hs
      exact encoded_nil
  | cons d cs =>
    have ht := fun e he => hcs e (List.mem_cons_of_mem d he)
    rcases hs with hs | hs
    · cases hs
      exact ⟨cs, ht, Or.inl rfl⟩
    · cases hs
      exact ⟨cs, ht, Or.inr rfl⟩

end Segments

section Walking

variable {c : Utf8.Bytes} {cs : List Utf8.Bytes} {stack segments : List Segment}

theorem popSegment_encoded (h : Encoded stack) : Encoded (popSegment stack) := by
  cases stack with
  | nil => exact h
  | cons top stack =>
    rw [popSegment]
    split
    · exact h
    · exact h.tail

theorem segmentOf_drive : ∀ n < 128, Ascii.isAlpha (Char.ofNat n) = true →
    segmentOf [UInt8.ofNat n, 0x3A] = [Char.ofNat n, ':'] ∧ UInt8.ofNat n ≠ slash := by
  decide +kernel

theorem writtenSegment_component (hc : IsComponent c) (stack : List Segment) :
    ∃ d, IsComponent d ∧ writtenSegment true stack (segmentOf c) = segmentOf d := by
  have kept := encode_segmentOf c
  unfold writtenSegment
  split
  · rename_i a b hs
    split
    · rename_i hdrive
      have ha : Ascii.isAlpha a = true := by
        simp only [isDriveLetter, Bool.and_eq_true] at hdrive
        exact hdrive.2.1
      have hn : a.toNat < 128 := by
        simp only [Ascii.isAlpha, Ascii.isUpper, Ascii.isLower, Bool.or_eq_true, Bool.and_eq_true,
          decide_eq_true_eq] at ha
        omega
      have hd := segmentOf_drive a.toNat hn
      rw [Char.ofNat_toNat] at hd
      obtain ⟨hs, hslash⟩ := hd ha
      have hcolon : slash ≠ 0x3A := by decide
      have hfree : slash ∉ [UInt8.ofNat a.toNat, 0x3A] := by simp [Ne.symm hslash, hcolon]
      exact ⟨[UInt8.ofNat a.toNat, 0x3A], ⟨by simp, by simp [dot], hfree⟩, hs.symm⟩
    · exact ⟨c, hc, hs ▸ kept⟩
  · exact ⟨c, hc, kept⟩

theorem enter_encoded (hc : IsComponent c) (h : Encoded stack) :
    Encoded (enter true stack (segmentOf c)) := by
  unfold enter
  split
  · exact popSegment_encoded h
  · split
    · exact h
    · obtain ⟨d, hd, he⟩ := writtenSegment_component hc stack
      rw [he]
      exact Encoded.cons hd h

/-- What is left on the stack at the end of a path. -/
def Finished (stack : List Segment) : Prop :=
  Encoded stack ∨ ∃ below, stack = [] :: below ∧ Encoded below

theorem finish_encoded (hc : IsComponent c) (h : Encoded stack) :
    Finished (finish true stack (segmentOf c)) := by
  unfold finish
  split
  · exact Or.inr ⟨_, rfl, popSegment_encoded h⟩
  · split
    · exact Or.inr ⟨_, rfl, h⟩
    · obtain ⟨d, hd, he⟩ := writtenSegment_component hc stack
      rw [he]
      exact Or.inl (Encoded.cons hd h)

theorem walk_cons {s : Segment} (hs : segments ≠ []) :
    walk true stack (s :: segments) = walk true (enter true stack s) segments := by
  cases segments with
  | nil => exact absurd rfl hs
  | cons t segments => rfl

theorem walk_components (hcs : ∀ c ∈ cs, IsComponent c) (h : Encoded stack) :
    Finished (walk true stack (cs.map segmentOf)) := by
  induction cs generalizing stack with
  | nil => exact Or.inl h
  | cons c cs ih =>
    have hc := hcs c List.mem_cons_self
    cases cs with
    | nil => exact finish_encoded hc h
    | cons d cs =>
      exact ih (fun e he => hcs e (List.mem_cons_of_mem c he)) (enter_encoded hc h)

theorem walk_directory (hcs : ∀ c ∈ cs, IsComponent c) (h : Encoded stack) :
    Finished (walk true stack (cs.map segmentOf ++ [[]])) := by
  induction cs generalizing stack with
  | nil => exact Or.inr ⟨stack, rfl, h⟩
  | cons c cs ih =>
    have hc := hcs c List.mem_cons_self
    rw [List.map_cons, List.cons_append, walk_cons (by simp)]
    exact ih (fun e he => hcs e (List.mem_cons_of_mem c he)) (enter_encoded hc h)

theorem walk_encoded (hs : Encoded segments) : Finished (walk true [] ([] :: segments)) := by
  cases segments with
  | nil => exact Or.inr ⟨[], rfl, encoded_nil⟩
  | cons s segments =>
    obtain ⟨cs, hcs, he⟩ := hs
    -- the empty segment before the first slash stands at the bottom of the stack
    show Finished (walk true [[]] (s :: segments))
    rcases he with he | he
    · rw [he]
      exact walk_components hcs encoded_empty
    · rw [he]
      exact walk_directory hcs encoded_empty

theorem withoutLeadingEmpty_encoded (h : Encoded segments) :
    Encoded (withoutLeadingEmpty segments) := by
  obtain ⟨cs, hcs, hs⟩ := h
  cases cs with
  | nil =>
    rcases hs with rfl | rfl
    · exact encoded_empty
    · exact encoded_empty
  | cons c cs =>
    have hc : (segmentOf c).isEmpty = false := by
      simpa using segmentOf_ne_nil (hcs c List.mem_cons_self)
    have hk : withoutLeadingEmpty segments = segments := by
      rcases hs with rfl | rfl
      · simp [withoutLeadingEmpty, hc]
      · simp [withoutLeadingEmpty, hc]
    rw [hk]
    exact ⟨c :: cs, hcs, hs⟩

theorem Encoded.reverse_components (hcs : ∀ c ∈ cs, IsComponent c) :
    Encoded (cs.map segmentOf).reverse :=
  ⟨cs.reverse, fun c h => hcs c (List.mem_reverse.mp h), Or.inl (List.map_reverse ..).symm⟩

theorem Encoded.reverse_directory (hcs : ∀ c ∈ cs, IsComponent c) :
    Encoded ((cs.map segmentOf).reverse ++ [[]]) :=
  ⟨cs.reverse, fun c h => hcs c (List.mem_reverse.mp h),
    Or.inr (congrArg (· ++ [[]]) (List.map_reverse ..).symm)⟩

theorem withoutLeadingEmpty_cons (segments : List Segment) :
    withoutLeadingEmpty ([] :: segments) = withoutLeadingEmpty segments := rfl

theorem settle_encoded (h : Finished stack) : Encoded (settle true stack).segments := by
  show Encoded (withoutLeadingEmpty stack.reverse)
  rcases h with ⟨cs, hcs, rfl | rfl⟩ | ⟨below, rfl, cs, hcs, rfl | rfl⟩
  · exact withoutLeadingEmpty_encoded (Encoded.reverse_components hcs)
  · rw [List.reverse_append, List.reverse_singleton, List.singleton_append,
      withoutLeadingEmpty_cons]
    exact withoutLeadingEmpty_encoded (Encoded.reverse_components hcs)
  · rw [List.reverse_cons]
    exact withoutLeadingEmpty_encoded (Encoded.reverse_directory hcs)
  · rw [List.reverse_cons, List.reverse_append, List.reverse_singleton, List.singleton_append,
      List.cons_append, withoutLeadingEmpty_cons]
    exact withoutLeadingEmpty_encoded (Encoded.reverse_directory hcs)

end Walking

section Paths

variable {id : ModuleId} {path : NativePath}

/-- Whether the segments are the encodings of the components of a path. -/
def PlainlyWritten (id : ModuleId) : Prop := Encoded id.url.path.segments

theorem fileText_segments (path : NativePath) :
    ∃ segments, segments ≠ [] ∧ Encoded segments ∧
      (∀ s ∈ segments, ∀ c ∈ s, Percent.isSegmentChar c = true) ∧
      fileText path = "file://".toList ++ segmentsText segments := by
  unfold fileText
  split
  · exact ⟨[[]], by simp, encoded_empty, by simp, rfl⟩
  · rename_i cs hcs
    refine ⟨path.components.map segmentOf, by simpa using hcs,
      ⟨path.components, fun c h => isComponent_of_mem h, Or.inl rfl⟩, ?_, rfl⟩
    intro s hs
    obtain ⟨c, -, rfl⟩ := List.mem_map.mp hs
    exact segmentChar_segmentOf c

theorem ofAbsolutePath_plainlyWritten (h : ofAbsolutePath path = .ok id) : id.PlainlyWritten := by
  obtain ⟨segments, hne, he, hc, ht⟩ := fileText_segments path
  rw [ofAbsolutePath, ht, ModuleId.parse, parse_segments hne hc] at h
  cases h
  exact settle_encoded (walk_encoded he)

theorem resolveFilePath_cases {text : String} {base : ModuleId}
    (h : resolveFilePath text base = .ok id) : ∃ path, ofAbsolutePath path = .ok id := by
  unfold resolveFilePath at h
  split at h
  · cases h
  · simp only at h
    split at h
    · exact ⟨_, h⟩
    · split at h
      · cases h
      · exact ⟨_, h⟩

theorem resolveFilePath_plainlyWritten {text : String} {base : ModuleId}
    (h : resolveFilePath text base = .ok id) : id.PlainlyWritten := by
  obtain ⟨path, hp⟩ := resolveFilePath_cases h
  exact ofAbsolutePath_plainlyWritten hp

end Paths

end ScriptHost.ModuleId
