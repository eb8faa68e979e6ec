import ScriptHost.Proofs.Module.NamedFiles

/-!
# Identifiers of directories

The identifier of a directory ends with an empty segment of its own. So no drive is
looked for at the end of its path, which is the path of the directory with a slash
behind it, whatever bytes the names are made of.
-/

set_option autoImplicit false

namespace ScriptHost.ModuleId

open NativePath Url

section Identifiers

variable {cs kept : List Utf8.Bytes} {stack : List Segment} {path : NativePath}

def directoryAt (cs : List Utf8.Bytes) : ModuleId :=
  ⟨localFile (.rooted (cs.map segmentOf ++ [[]]))⟩

theorem getLast_segmentOf {c : Utf8.Bytes} (h : IsComponent c) (front : List Char) :
    (front ++ '/' :: segmentOf c).getLast? ≠ some '/' := by
  intro hl
  rw [List.getLast?_append_cons, List.getLast?_cons_of_ne_nil (segmentOf_ne_nil h)] at hl
  have hc := segmentChar_segmentOf c '/' (List.mem_of_getLast? hl)
  revert hc
  decide

theorem directoryText_components (path : NativePath) : directoryText path = "file://".toList ++
    segmentsText (path.components.map segmentOf ++ [[]]) := by
  have components : ∀ c ∈ path.components, IsComponent c := fun c => isComponent_of_mem
  rw [directoryText, fileText_components]
  generalize path.components = cs at components
  rcases List.eq_nil_or_concat' cs with rfl | ⟨front, c, rfl⟩
  · rfl
  · have text : "file://".toList ++ segmentsText ((front ++ [c]).map segmentOf) =
        ("file://".toList ++ segmentsText (front.map segmentOf)) ++ '/' :: segmentOf c := by
      rw [List.map_append, segmentsText_append, ← List.append_assoc]
      simp [segmentsText]
    have last := getLast_segmentOf (components c (by simp))
      ("file://".toList ++ segmentsText (front.map segmentOf))
    rw [← text] at last
    simp only [List.append_eq_nil_iff, List.cons_ne_self, and_false, if_false]
    rw [if_neg last, segmentsText_append, ← List.append_assoc]
    rfl

theorem walk_closed (hcs : ∀ c ∈ cs, IsPlain c) (hk : ∀ d ∈ kept, IsPlain d)
    (h : Holds stack kept) :
    Ends (walk true stack (cs.map segmentOf ++ [[]])) (cs.foldl collapseStep kept) true := by
  induction cs generalizing stack kept with
  | nil => exact ⟨stack, h, rfl⟩
  | cons c cs ih =>
    have hc := hcs c List.mem_cons_self
    rw [List.map_cons, List.cons_append, walk_cons (by simp)]
    exact ih (fun d hd => hcs d (List.mem_cons_of_mem c hd)) (collapseStep_plain hk hc)
      (enter_holds hk hc h)

theorem segmentChar_directory (cs : List Utf8.Bytes) :
    ∀ s ∈ cs.map segmentOf ++ [[]], ∀ c ∈ s, Percent.isSegmentChar c = true := by
  intro s hs
  rcases List.mem_append.mp hs with hs | hs
  · obtain ⟨c, -, rfl⟩ := List.mem_map.mp hs
    exact segmentChar_segmentOf c
  · rw [List.mem_singleton.mp hs]
    simp

theorem ofDirectoryPath_canonical (ha : path.isAbsolute = true)
    (h : ∀ c ∈ path.components, beginsLikeDrive c = false) :
    ofDirectoryPath path = .ok (directoryAt (collapse path.components)) := by
  have plain : ∀ c ∈ path.components, IsPlain c := fun c hc => ⟨isComponent_of_mem hc, h c hc⟩
  have ends : Ends (walk true [] ([] :: (path.components.map segmentOf ++ [[]])))
      (collapse path.components) true := by
    rw [walk_cons (by simp)]
    exact walk_closed plain (by simp) (Or.inr rfl)
  rw [ofDirectoryPath, if_pos ha, directoryText_components, ModuleId.parse,
    parse_segments (by simp) (segmentChar_directory _), settle_ends (collapse_plain plain) ends,
    Bool.or_true, if_pos rfl]
  rfl

theorem collapse_names (h : doubleDot ∉ cs) : collapse cs = cs := by
  have step : ∀ kept, cs.foldl collapseStep kept = kept ++ cs := by
    induction cs with
    | nil => exact fun kept => (List.append_nil kept).symm
    | cons c cs ih =>
      intro kept
      have hc : c ≠ doubleDot := fun he => h (he ▸ List.mem_cons_self)
      rw [List.foldl_cons, ih (fun hm => h (List.mem_cons_of_mem c hm)), collapseStep, if_neg hc,
        List.append_assoc, List.singleton_append]
  exact step []

theorem directoryAt_text (cs : List Utf8.Bytes) : (directoryAt cs).text =
    String.ofList ("file://".toList ++ segmentsText (cs.map segmentOf ++ [[]])) :=
  congrArg String.ofList (localFile_text _)

theorem directoryAt_ascii (cs : List Utf8.Bytes) :
    ∀ c ∈ (directoryAt cs).text.toList, Ascii.isAscii c = true := by
  intro c hc
  rw [directoryAt_text, String.toList_ofList, List.mem_append] at hc
  rcases hc with hc | hc
  · exact List.all_eq_true.mp (by decide) c hc
  · rcases mem_segmentsText hc with rfl | ⟨s, hs, hc⟩
    · decide
    · have kept := segmentChar_directory cs s hs c hc
      simp only [Percent.isSegmentChar, Bool.and_eq_true] at kept
      exact decide_eq_true (Percent.keeps_bounds kept.1.1).2

theorem directoryAt_toFilePath (cs : List Utf8.Bytes) :
    (directoryAt cs).toFilePath = .ok (joined cs ++ [slash]) := by
  have path : (directoryAt cs).toFilePath =
      .ok (closeDrive (segmentBytes (cs.map segmentOf ++ [[]]))) := rfl
  rw [path, segmentBytes_directory, closeDrive_slash]

/-- The text of a directory's identifier has each component between two slashes. -/
theorem directoryAt_text_injective {ds : List Utf8.Bytes}
    (h : (directoryAt cs).text = (directoryAt ds).text) : cs = ds := by
  have segments : ∀ es : List Utf8.Bytes,
      segmentsOf true (segmentsText (es.map segmentOf ++ [[]])) =
        [] :: (es.map segmentOf ++ [[]]) := by
    intro es
    have empty : ∀ c ∈ ([] : Segment), isSeparator true c = false := by simp
    exact segmentsOf_append
      (fun s hs c hc => separator_segmentChar (segmentChar_directory es s hs c hc)) empty
  rw [directoryAt_text, directoryAt_text] at h
  have same := congrArg (segmentsOf true) (List.append_cancel_left (String.ofList_injective h))
  rw [segments, segments] at same
  exact List.map_injective_iff.mpr segmentOf_injective
    (List.append_cancel_right (List.cons.inj same).2)

end Identifiers

section Paths

variable {path : NativePath}

/-- The root, or an absolute path of names without a slash at its end, in which no name begins like
a drive. -/
structure IsDirectoryPath (path : NativePath) : Prop where
  normal : path = [slash] ∨ IsNormal path
  drives : ∀ c ∈ path.components, beginsLikeDrive c = false

def closed (path : NativePath) : NativePath :=
  if path.getLast? = some slash then path else path ++ [slash]

theorem IsDirectoryPath.eq_components (h : IsDirectoryPath path) :
    path = if path.components = [] then [slash] else joined path.components := by
  rcases h.normal with rfl | ⟨cs, hne, hcs, rfl⟩
  · rfl
  · rw [components_joined fun c hc => (hcs c hc).1, if_neg hne]

theorem IsDirectoryPath.names (h : IsDirectoryPath path) :
    path.isAbsolute = true ∧ doubleDot ∉ path.components := by
  rcases h.normal with rfl | ⟨cs, hne, hcs, rfl⟩
  · exact ⟨rfl, by decide⟩
  · rw [components_joined fun c hc => (hcs c hc).1]
    refine ⟨?_, fun hm => (hcs _ hm).2 rfl⟩
    cases cs with
    | nil => exact absurd rfl hne
    | cons c cs => rfl

theorem IsDirectoryPath.closed_eq (h : IsDirectoryPath path) :
    closed path = joined path.components ++ [slash] := by
  have components : ∀ c ∈ path.components, IsComponent c := fun c => isComponent_of_mem
  have eq := h.eq_components
  generalize path.components = cs at components eq
  rw [eq, closed]
  split
  · rename_i hn
    rw [hn]
    rfl
  · rw [if_neg (getLast_joined components)]

theorem IsDirectoryPath.identifier (h : IsDirectoryPath path) :
    ofDirectoryPath path = .ok (directoryAt path.components) := by
  rw [ofDirectoryPath_canonical h.names.1 h.drives, collapse_names h.names.2]

/-- A directory has an ASCII identifier that names a directory and leads back to it, another
directory has another one, and a path that is not absolute has none. -/
theorem directory_round_trip :
    (∀ d, IsDirectoryPath d → ∃ id, ofDirectoryPath d = .ok id ∧
      (∀ c ∈ id.text.toList, Ascii.isAscii c = true) ∧ id.isDirectory = true ∧
      id.toFilePath = .ok (closed d)) ∧
    (∀ d e a b, IsDirectoryPath d → IsDirectoryPath e → ofDirectoryPath d = .ok a →
      ofDirectoryPath e = .ok b → d ≠ e → a.text ≠ b.text) ∧
    ∀ d : NativePath, d.isAbsolute = false →
      ∃ reason, ofDirectoryPath d = .error (.invalidSpecifier d.shown reason) := by
  refine ⟨fun d hd => ?_, fun d e a b hd he ha hb hne ht => hne ?_, fun d hd => ?_⟩
  · refine ⟨_, hd.identifier, directoryAt_ascii _, isDirectory_directory rfl, ?_⟩
    rw [directoryAt_toFilePath, hd.closed_eq]
  · rw [hd.identifier] at ha
    rw [he.identifier] at hb
    cases ha
    cases hb
    rw [hd.eq_components, he.eq_components, directoryAt_text_injective ht]
  · exact ⟨_, if_neg (by simp [hd])⟩

/-- A name that is not text and one that looks encoded, with a colon and a null byte. -/
theorem odd_directory_round_trip : ∃ d e : NativePath, ∃ a b : ModuleId,
    IsDirectoryPath d ∧ IsDirectoryPath e ∧
    d = [slash, 0xFF] ++ NativePath.ofString "/%41/ab:c\x00" ∧
    e = [slash, 0xFF] ++ NativePath.ofString "/A/ab:c\x00" ∧
    ofDirectoryPath d = .ok a ∧ ofDirectoryPath e = .ok b ∧
    a.text = "file:///%FF/%2541/ab:c%00/" ∧ a.toFilePath = .ok (d ++ [slash]) ∧ a.text ≠ b.text := by
  let d : NativePath := [slash, 0xFF] ++ NativePath.ofString "/%41/ab:c\x00"
  let e : NativePath := [slash, 0xFF] ++ NativePath.ofString "/A/ab:c\x00"
  have hd : IsDirectoryPath d := ⟨Or.inr ⟨d.components, by decide +kernel⟩, by decide +kernel⟩
  have he : IsDirectoryPath e := ⟨Or.inr ⟨e.components, by decide +kernel⟩, by decide +kernel⟩
  obtain ⟨trip, differ, -⟩ := directory_round_trip
  obtain ⟨a, ha, -, -, path⟩ := trip d hd
  obtain ⟨b, hb, -⟩ := trip e he
  have text : ∀ a, ofDirectoryPath d = .ok a → a.text = "file:///%FF/%2541/ab:c%00/" := by
    intro a ha
    rw [hd.identifier] at ha
    cases ha
    decide +kernel
  have open_ : closed d = d ++ [slash] := by decide +kernel
  exact ⟨d, e, a, b, hd, he, rfl, rfl, ha, hb, text a ha, open_ ▸ path,
    differ d e a b hd he ha hb (by decide +kernel)⟩

end Paths

end ScriptHost.ModuleId
