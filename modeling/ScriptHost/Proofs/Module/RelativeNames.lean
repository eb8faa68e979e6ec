import ScriptHost.Proofs.Module.Directories

/-!
# Relative paths that are specifiers

A relative path without the signs that only one of the two readers knows can be
resolved as a path and as a specifier. Either way its names are walked above the
components of the directory, and what a name is encoded to does not depend on whether
it was split off before or after.
-/

set_option autoImplicit false

namespace ScriptHost

namespace ModuleId

open NativePath Url

section Segments

variable {s : Segment} {segments stack : List Segment}

def marks : List Char := "%?#\\:|\t\n\r".toList

/-- A segment that is the same in a path and in a specifier. -/
def IsName (s : Segment) : Prop := s ≠ [] ∧ ∀ c ∈ s, c ∉ marks ∧ c ≠ '/'

theorem IsName.notMem (h : IsName s) {c : Char} (hc : c ∈ marks) : c ∉ s :=
  fun hm => (h.2 c hm).1 hc

theorem IsName.encode (h : IsName s) : Percent.encode .path s = segmentOf (Utf8.encode s) := by
  have same : ∀ b : UInt8, b ≠ Utf8.byte '%' → b ≠ Utf8.byte '/' → b ≠ Utf8.byte '\\' →
      Percent.encodeByte .path b = Percent.encodeByte .pathSegment b :=
    Utf8.forall_byte (by decide +kernel)
  have free : ∀ a : Char, a.toNat < 0x80 → a ∉ s → ∀ b ∈ Utf8.encode s, b ≠ Utf8.byte a :=
    fun a ha hn b hb he => hn ((Utf8.mem_encode ha).mp (he ▸ hb))
  rw [Percent.encode, segmentOf, Percent.encodeBytes, Percent.encodeBytes]
  refine List.flatMap_congr fun b hb => same b ?_ ?_ ?_
  · exact free '%' (by decide) (h.notMem (by decide)) b hb
  · exact free '/' (by decide) (fun hm => (h.2 '/' hm).2 rfl) b hb
  · exact free '\\' (by decide) (h.notMem (by decide)) b hb

theorem IsName.isSingleDot (h : IsName s) : isSingleDot s = decide (s = ['.']) := by
  have forms : ∀ f ∈ dotForms, f = ['.'] ∨ '%' ∈ f := by decide
  by_cases hs : s = ['.']
  · rw [hs]
    decide
  · rw [decide_eq_false hs, Bool.eq_false_iff]
    intro hd
    rcases forms s (List.contains_iff_mem.mp hd) with he | hm
    · exact hs he
    · exact h.notMem (by decide) hm

theorem IsName.isDoubleDot (h : IsName s) : isDoubleDot s = decide (Utf8.encode s = doubleDot) := by
  have forms : ∀ f ∈ dotForms, ∀ g ∈ dotForms, f ++ g = ['.', '.'] ∨ '%' ∈ f ++ g := by decide
  by_cases hs : s = ['.', '.']
  · rw [hs]
    decide
  · have other : Utf8.encode s ≠ doubleDot := fun he => hs (Utf8.encode_injective he)
    rw [decide_eq_false other, Bool.eq_false_iff]
    intro hd
    obtain ⟨f, hf, hd⟩ := List.any_eq_true.mp hd
    obtain ⟨g, hg, hd⟩ := List.any_eq_true.mp hd
    have he : f ++ g = s := of_decide_eq_true hd
    rcases forms f hf g hg with hp | hm
    · exact hs (he.symm.trans hp)
    · exact h.notMem (by decide) (he ▸ hm)

theorem IsName.component (h : IsName s) (hs : s ≠ ['.']) : IsPlain (Utf8.encode s) := by
  have dots : Utf8.encode ['.'] = dot := by decide
  refine ⟨⟨?_, ?_, ?_⟩, ?_⟩
  · exact fun he => h.1 (Utf8.encode_injective he)
  · exact fun he => hs (Utf8.encode_injective (he.trans dots.symm))
  · exact fun hm => (h.2 '/' ((Utf8.mem_encode (by decide)).mp hm)).2 rfl
  · rw [Bool.eq_false_iff]
    intro hd
    unfold beginsLikeDrive at hd
    split at hd
    · rename_i letter mark rest he
      have hm : mark ∈ Utf8.encode s := by rw [he]; simp
      rw [Bool.and_eq_true] at hd
      have bytes : Utf8.byte ':' = 0x3A ∧ Utf8.byte '|' = 0x7C := by decide
      have drive : mark = Utf8.byte ':' ∨ mark = Utf8.byte '|' := by
        rw [bytes.1, bytes.2]
        simpa [isDriveByte] using hd.2
      rcases drive with rfl | rfl
      · exact h.notMem (by decide) ((Utf8.mem_encode (by decide)).mp hm)
      · exact h.notMem (by decide) ((Utf8.mem_encode (by decide)).mp hm)
    · cases hd

theorem IsName.written (h : IsName s) (stack : List Segment) :
    writtenSegment true stack s = segmentOf (Utf8.encode s) := by
  have encode := h.encode
  unfold writtenSegment
  split
  · rename_i a b
    split
    · rename_i hd
      simp only [isDriveLetter, isDriveMark, Bool.and_eq_true, Bool.or_eq_true,
        decide_eq_true_eq] at hd
      rcases hd.2.2 with rfl | rfl
      · exact absurd (by simp) (h.notMem (c := ':') (by decide))
      · exact absurd (by simp) (h.notMem (c := '|') (by decide))
    · exact encode
  · exact encode

theorem IsName.enter (h : IsName s) (hs : s ≠ ['.']) :
    enter true stack s = enter true stack (segmentOf (Utf8.encode s)) ∧
      finish true stack s = finish true stack (segmentOf (Utf8.encode s)) := by
  obtain ⟨component, drive⟩ := h.component hs
  have single := isSingleDot_segmentOf component.2.1
  simp only [Url.enter, finish, h.isDoubleDot, isDoubleDot_segmentOf, h.isSingleDot,
    decide_eq_false hs, single, h.written, writtenSegment_plain drive, and_self]

def componentsOf (segments : List Segment) : List Utf8.Bytes :=
  (segments.filter (· ≠ ['.'])).map Utf8.encode

theorem componentsOf_cons (s : Segment) (segments : List Segment) :
    componentsOf (s :: segments) =
      if s = ['.'] then componentsOf segments else Utf8.encode s :: componentsOf segments := by
  unfold componentsOf
  by_cases hs : s = ['.']
  · simp [hs]
  · simp [hs]

theorem componentsOf_last (hne : segments ≠ []) (last : segments.getLast? ≠ some ['.']) :
    componentsOf segments ≠ [] := by
  rcases List.eq_nil_or_concat' segments with rfl | ⟨front, s, rfl⟩
  · exact absurd rfl hne
  · have hs : s ≠ ['.'] := fun he => last (by rw [he, List.getLast?_concat])
    simp [componentsOf, hs]

theorem walk_names_components (h : ∀ s ∈ segments, IsName s) (hne : segments ≠ [])
    (last : segments.getLast? ≠ some ['.']) (stack : List Segment) :
    walk true stack segments = walk true stack ((componentsOf segments).map segmentOf) := by
  induction segments generalizing stack with
  | nil => exact absurd rfl hne
  | cons s rest ih =>
    have hs := h s List.mem_cons_self
    rw [componentsOf_cons]
    -- A single dot at the end would leave an empty segment, so the last name is a case of its own.
    cases rest with
    | nil =>
      have name : s ≠ ['.'] := fun he => last (by rw [he]; rfl)
      rw [if_neg name]
      exact (hs.enter name).2
    | cons t rest =>
      have next := ih (fun u hu => h u (List.mem_cons_of_mem s hu)) (List.cons_ne_nil t rest)
        (by simpa using last)
      rw [walk, next]
      split
      · rename_i he
        have kept : Url.enter true stack s = stack := by
          simp [Url.enter, he, isDoubleDot, isSingleDot, dotForms]
        rw [kept]
      · rename_i name
        have some_left := componentsOf_last (List.cons_ne_nil t rest) (by simpa using last)
        rw [List.map_cons, walk_cons (by simpa using some_left), (hs.enter name).1]

end Segments

section Paths

variable {p : String}

/-- A relative path, written so that it is a specifier as well. -/
structure IsRelativeName (p : String) : Prop where
  shown : Blank.isBlankText p = false
  names : [] ∉ p.toList.splitOn '/'
  last : (p.toList.splitOn '/').getLast? ≠ some ['.']
  chars : ∀ c ∈ p.toList, c ∉ marks
  front : ∀ c ∈ p.toList.head?, 0x20 < c.toNat
  back : ∀ c ∈ p.toList.getLast?, 0x20 < c.toNat

theorem IsRelativeName.isName (h : IsRelativeName p) : ∀ s ∈ p.toList.splitOn '/', IsName s := by
  intro s hs
  refine ⟨fun he => h.names (he ▸ hs), fun c hc => ?_⟩
  rw [List.splitOn_eq_splitOnP] at hs
  obtain ⟨hm, sep⟩ := mem_piece hs hc
  exact ⟨h.chars c hm, by simpa using sep⟩

theorem IsRelativeName.components (h : IsRelativeName p) :
    (NativePath.ofString p).components = componentsOf (p.toList.splitOn '/') := by
  have split : (NativePath.ofString p).splitOn slash = (p.toList.splitOn '/').map Utf8.encode :=
    Utf8.splitOn_encode (a := '/') (by decide) p.toList
  have dots : Utf8.encode ['.'] = dot := by decide
  rw [NativePath.components, split, componentsOf, List.filter_map]
  congr 1
  refine List.filter_congr fun s hs => ?_
  by_cases name : s = ['.']
  · simp [name, dots]
  · obtain ⟨nonempty, other, -⟩ := ((h.isName s hs).component name).1
    simp [name, nonempty, other]

theorem IsRelativeName.plain (h : IsRelativeName p) :
    ∀ c ∈ (NativePath.ofString p).components, IsPlain c := by
  intro c hc
  rw [h.components, componentsOf, List.mem_map] at hc
  obtain ⟨s, hs, rfl⟩ := hc
  rw [List.mem_filter, decide_eq_true_eq] at hs
  exact (h.isName s hs.1).component hs.2

theorem IsRelativeName.begins (h : IsRelativeName p) :
    ∃ first rest, p.toList = first :: rest ∧ isSlash first = false := by
  cases hp : p.toList with
  | nil => exact absurd (by rw [hp]; simp) h.names
  | cons first rest =>
    refine ⟨first, rest, rfl, ?_⟩
    have slash : first ≠ '/' := by
      rintro rfl
      exact h.names (by rw [hp]; simp [List.splitOn_cons_eq_if_modifyHead])
    have back : first ≠ '\\' := by
      rintro rfl
      exact h.chars '\\' (by rw [hp]; simp) (by decide)
    simp [isSlash, slash, back]

theorem IsRelativeName.relative (h : IsRelativeName p) :
    (NativePath.ofString p).isAbsolute = false := by
  obtain ⟨first, rest, hp, slash⟩ := h.begins
  rw [NativePath.isAbsolute, decide_eq_false_iff_not, List.head?_eq_some_iff]
  rintro ⟨bytes, hb⟩
  have he : Utf8.encode (first :: rest) = Utf8.byte '/' :: bytes := by
    rw [← hp]
    exact hb
  rw [(Utf8.encode_head (by decide) he).mp rfl] at slash
  cases slash

end Paths

section Results

variable {p : String} {d : NativePath} {cs : List Utf8.Bytes}

theorem IsRelativeName.reference (h : IsRelativeName p) :
    Reference.ofText p.toList = ⟨p.toList, none, false⟩ := by
  refine ofText_plain h.front h.back ?_
  intro c hc
  have free := h.chars c hc
  refine ⟨?_, ?_, ?_⟩
  · rintro rfl
    exact free (by decide)
  · rintro rfl
    exact free (by decide)
  · rw [Bool.eq_false_iff]
    intro hb
    have blank : c = '\t' ∨ c = '\n' ∨ c = '\r' := by simpa [isLineBlank, or_assoc] using hb
    rcases blank with rfl | rfl | rfl <;> exact free (by decide)

theorem IsRelativeName.segments (h : IsRelativeName p) :
    segmentsOf true p.toList = p.toList.splitOn '/' := by
  rw [segmentsOf, List.splitOn_eq_splitOnP]
  refine splitOnP_congr fun c hc => ?_
  have back : c ≠ '\\' := by
    rintro rfl
    exact h.chars '\\' hc (by decide)
  simp [isSeparator, back, Bool.beq_eq_decide_eq]

theorem IsRelativeName.noDrive (h : IsRelativeName p) :
    beginsWithDriveSegment p.toList = false := by
  have mark : ∀ c ∈ p.toList, isDriveMark c = false := by
    intro c hc
    have free := h.chars c hc
    rw [Bool.eq_false_iff]
    intro hm
    have drive : c = ':' ∨ c = '|' := by simpa [isDriveMark] using hm
    rcases drive with rfl | rfl <;> exact free (by decide)
  unfold beginsWithDriveSegment
  split
  · rename_i a b hp
    rw [mark b (by rw [hp]; simp), Bool.and_false]
  · rename_i a b c rest hp
    rw [mark b (by rw [hp]; simp), Bool.and_false, Bool.false_and]
  · rfl

theorem IsRelativeName.resolve (h : IsRelativeName p) (cs : List Utf8.Bytes) :
    ModuleId.resolve p (directoryAt cs) = .ok ⟨localFile (settle true
      (walk true (cs.map segmentOf).reverse (p.toList.splitOn '/')))⟩ := by
  obtain ⟨first, rest, hp, slash⟩ := h.begins
  have scheme : splitScheme p.toList = none :=
    splitScheme_none fun hm => h.chars ':' hm (by decide)
  have drive := h.noDrive
  have beside : file (some (directoryAt cs).url) p.toList ⟨p.toList, none, false⟩ =
      .ok (fileBeside (directoryAt cs).url p.toList ⟨p.toList, none, false⟩) := by
    rw [hp] at drive ⊢
    cases rest with
    | nil => simp [file, slash, file.besideOrAlone, drive]
    | cons c rest => simp [file, slash, file.besideOrAlone, drive]
  have join : Url.join (directoryAt cs).url p =
      .ok (fileBeside (directoryAt cs).url p.toList ⟨p.toList, none, false⟩) := by
    rw [Url.join, h.reference, ofReference, scheme]
    exact beside
  have below : (directoryAt cs).url.path.segments.reverse = [] :: (cs.map segmentOf).reverse := by
    simp [directoryAt, localFile, Path.segments]
  rw [ModuleId.resolve, h.shown, join]
  simp only [fileBeside, below, h.segments]
  rfl

theorem startComponents_directoryAt (hcs : ∀ c ∈ cs, IsComponent c) :
    (directoryAt cs).startComponents = cs := by
  have directory : (directoryAt cs).isDirectory = true := isDirectory_directory rfl
  rw [startComponents, directoryAt_toFilePath]
  simp only [directory, if_true]
  exact components_joined_slash hcs

/-- No double dot is left. -/
theorem doubleDot_collapse (cs : List Utf8.Bytes) : doubleDot ∉ collapse cs := by
  have step : ∀ kept, doubleDot ∉ kept → doubleDot ∉ cs.foldl collapseStep kept := by
    induction cs with
    | nil => exact fun _ hk => hk
    | cons c cs ih =>
      intro kept hk
      refine ih _ ?_
      unfold collapseStep
      split
      · exact fun hm => hk (List.dropLast_subset _ hm)
      · rename_i hc
        simp [hk, Ne.symm hc]
  exact step [] (by simp)

theorem IsRelativeName.resolveFilePath_canonical (h : IsRelativeName p)
    (plain : ∀ c ∈ cs, IsPlain c) : resolveFilePath p (directoryAt cs) =
      .ok (canonical (cs ++ (NativePath.ofString p).components)) := by
  have start := startComponents_directoryAt fun c hc => (plain c hc).1
  have named : namedComponents p (directoryAt cs) = cs ++ (NativePath.ofString p).components := by
    simp [namedComponents, h.relative, start]
  have drives : ∀ c ∈ namedComponents p (directoryAt cs), beginsLikeDrive c = false := by
    rw [named]
    intro c hc
    rcases List.mem_append.mp hc with hc | hc
    · exact (plain c hc).2
    · exact (h.plain c hc).2
  have names : Names p (directoryAt cs) := ⟨h.shown, Or.inr ⟨rfl, rfl⟩⟩
  rw [ModuleId.resolveFilePath_canonical names drives, named]

theorem IsRelativeName.resolve_canonical (h : IsRelativeName p) (plain : ∀ c ∈ cs, IsPlain c)
    (kept : collapse cs = cs) : ModuleId.resolve p (directoryAt cs) =
      .ok (canonical (cs ++ (NativePath.ofString p).components)) := by
  have split : p.toList.splitOn '/' ≠ [] := List.splitOn_ne_nil _ _
  have nonempty := componentsOf_last split h.last
  have ends := walk_ends nonempty (h.components ▸ h.plain) plain (Or.inl rfl)
  have collapsed : collapse (cs ++ componentsOf (p.toList.splitOn '/')) =
      (componentsOf (p.toList.splitOn '/')).foldl collapseStep cs := by
    rw [collapse, List.foldl_append]
    exact congrArg (List.foldl collapseStep · _) kept
  have left : ∀ c ∈ (componentsOf (p.toList.splitOn '/')).foldl collapseStep cs, IsPlain c := by
    rw [← collapsed]
    refine collapse_plain fun c hc => ?_
    rcases List.mem_append.mp hc with hc | hc
    · exact plain c hc
    · exact h.plain c (h.components ▸ hc)
  rw [h.resolve, walk_names_components h.isName split h.last, settle_ends left ends, h.components,
    canonical, canonicalSegments, closes, collapsed, List.getLast?_append_of_ne_nil _ nonempty]

/-- A relative name gives the same identifier as a path and as a specifier. -/
theorem relative_names_agree (absolute : d.isAbsolute = true)
    (drives : ∀ c ∈ d.components, beginsLikeDrive c = false) (h : IsRelativeName p) :
    ∃ base id, ofDirectoryPath d = .ok base ∧ resolveFilePath p base = .ok id ∧
      ModuleId.resolve p base = .ok id := by
  have plain : ∀ c ∈ collapse d.components, IsPlain c :=
    collapse_plain fun c hc => ⟨isComponent_of_mem hc, drives c hc⟩
  have kept := collapse_names (doubleDot_collapse d.components)
  exact ⟨_, _, ofDirectoryPath_canonical absolute drives, h.resolveFilePath_canonical plain,
    h.resolve_canonical plain kept⟩

/-- A directory whose name is not text, and a path with dots, a blank and a letter beyond ASCII. -/
theorem dotted_names_agree : ∃ (d : NativePath) (base id : ModuleId),
    d = NativePath.ofString "/srv//x/../" ++ [0xFF] ∧ d.isAbsolute = true ∧
    (∀ c ∈ d.components, beginsLikeDrive c = false) ∧ IsRelativeName "./a é/../../b \x01é" ∧
    ofDirectoryPath d = .ok base ∧ resolveFilePath "./a é/../../b \x01é" base = .ok id ∧
    ModuleId.resolve "./a é/../../b \x01é" base = .ok id ∧
    id.text = "file:///srv/b%20%01%C3%A9" := by
  let d : NativePath := NativePath.ofString "/srv//x/../" ++ [0xFF]
  have absolute : d.isAbsolute = true := by decide +kernel
  have drives : ∀ c ∈ d.components, beginsLikeDrive c = false := by decide +kernel
  have chars : "./a é/../../b \x01é".toList.all (· ∉ marks) = true := by decide +kernel
  have name : IsRelativeName "./a é/../../b \x01é" := ⟨by decide +kernel, by decide +kernel,
    by decide +kernel, fun c hc => of_decide_eq_true (List.all_eq_true.mp chars c hc),
    outer_of_all (by decide +kernel), outer_of_all (by decide +kernel)⟩
  obtain ⟨base, id, hb, path, specifier⟩ := relative_names_agree absolute drives name
  have text : (ofDirectoryPath d).toOption.all (fun base =>
      (resolveFilePath "./a é/../../b \x01é" base).toOption.all
        (·.text = "file:///srv/b%20%01%C3%A9")) = true := by decide +kernel
  rw [hb] at text
  change (resolveFilePath _ base).toOption.all _ = true at text
  rw [path] at text
  exact ⟨d, base, id, rfl, absolute, drives, name, hb, path, specifier, of_decide_eq_true text⟩

end Results

end ModuleId

end ScriptHost
