import ScriptHost.Proofs.Module.Identity
import ScriptHost.Proofs.Text.Ascii

/-!
# The canonical identifier of a file path

The components of a path are read one after the other, and a double dot takes
away the component before it. The identifier of the path is written with the
components that are left. The stack on which its text is walked has just their
encodings, above the empty segment before the first slash as long as no double
dot has taken that away.
-/

set_option autoImplicit false

namespace ScriptHost.ModuleId

open NativePath Url

section Collapsing

def collapseStep (kept : List Utf8.Bytes) (c : Utf8.Bytes) : List Utf8.Bytes :=
  if c = doubleDot then kept.dropLast else kept ++ [c]

/-- What is left of components after every double dot took away the one before it. -/
def collapse (cs : List Utf8.Bytes) : List Utf8.Bytes := cs.foldl collapseStep []

def closes (cs : List Utf8.Bytes) : Bool := (collapse cs).isEmpty || cs.getLast? = some doubleDot

def canonicalText (cs : List Utf8.Bytes) : List Char :=
  "file://".toList ++ (collapse cs).flatMap (fun c => '/' :: segmentOf c) ++
    if closes cs then ['/'] else []

def beginsLikeDrive : Utf8.Bytes → Bool
  | letter :: mark :: _ => Ascii.isAlpha (Char.ofNat letter.toNat) && isDriveByte mark
  | _ => false

def startComponents (base : ModuleId) : List Utf8.Bytes :=
  match base.toFilePath with
  | .ok path => if base.isDirectory then path.components else path.components.dropLast
  | .error _ => []

/-- The components that a path names in the module `base`. -/
def namedComponents (path : String) (base : ModuleId) : List Utf8.Bytes :=
  let own := (NativePath.ofString path).components
  if (NativePath.ofString path).isAbsolute then own else base.startComponents ++ own

/-- A path that has a meaning in the module `base`. -/
structure Names (path : String) (base : ModuleId) : Prop where
  shown : Blank.isBlankText path = false
  local_ : (NativePath.ofString path).isAbsolute = true ∨
    base.isFile = true ∧ base.url.host? = none

end Collapsing

section Dots

variable {c : Utf8.Bytes}

theorem decode_kept {a : Char} (ha : a.toNat < 0x80) (hp : a ≠ '%') (rest : List Char) :
    Percent.decode (a :: rest) = Utf8.byte a :: Percent.decode rest := by
  rw [Percent.decode, Utf8.encode_cons, Utf8.char_of_ascii ha, List.singleton_append]
  refine Percent.decodeBytes_kept ?_ _
  intro he
  have hn := congrArg UInt8.toNat he
  rw [Utf8.byte_toNat ha] at hn
  exact hp (Char.toNat_inj.mp hn)

theorem isSingleDot_segmentOf (h : c ≠ dot) : isSingleDot (segmentOf c) = false := by
  rw [Bool.eq_false_iff]
  intro hs
  have all : ∀ s ∈ dotForms, Percent.decode s = dot := by decide
  have hd := all _ (List.contains_iff_mem.mp hs)
  rw [decode_segmentOf] at hd
  exact h hd

theorem isDoubleDot_segmentOf (c : Utf8.Bytes) :
    isDoubleDot (segmentOf c) = decide (c = doubleDot) := by
  by_cases hc : c = doubleDot
  · rw [hc]
    decide
  · rw [decide_eq_false hc, Bool.eq_false_iff]
    intro hs
    have all : ∀ s ∈ dotForms, ∀ t ∈ dotForms, Percent.decode (s ++ t) = doubleDot := by decide
    obtain ⟨s, hs, ht⟩ := List.any_eq_true.mp hs
    obtain ⟨t, ht, he⟩ := List.any_eq_true.mp ht
    have hd := all s hs t ht
    rw [of_decide_eq_true he, decode_segmentOf] at hd
    exact hc hd

theorem alpha_ascii {a : Char} (h : Ascii.isAlpha a = true) : a.toNat < 0x80 ∧ a ≠ '%' := by
  constructor
  · simp only [Ascii.isAlpha, Ascii.isUpper, Ascii.isLower, Bool.or_eq_true, Bool.and_eq_true,
      decide_eq_true_eq] at h
    omega
  · rintro rfl
    cases h

/-- Only a component that begins like a drive is encoded to a segment that does. -/
theorem beginsLikeDrive_segmentOf {a b : Char} {rest : Segment}
    (h : segmentOf c = a :: b :: rest) (ha : Ascii.isAlpha a = true) (hb : isDriveMark b = true) :
    beginsLikeDrive c = true := by
  obtain ⟨small, plain⟩ := alpha_ascii ha
  have hm : b = ':' ∨ b = '|' := by simpa [isDriveMark] using hb
  have hc : c = Utf8.byte a :: Utf8.byte b :: Percent.decode rest := by
    rw [← decode_segmentOf c, h, decode_kept small plain]
    rcases hm with rfl | rfl
    · rw [decode_kept (by decide) (by decide)]
    · rw [decode_kept (by decide) (by decide)]
  have hd : isDriveByte (Utf8.byte b) = true := by
    rcases hm with rfl | rfl
    · decide
    · decide
  rw [hc, beginsLikeDrive, Utf8.byte_toNat small, Char.ofNat_toNat, ha, hd]
  rfl

theorem beginsWithDrive_segmentOf (h : beginsLikeDrive c = false) :
    beginsWithDrive (segmentOf c) = false := by
  rw [Bool.eq_false_iff]
  intro hd
  unfold beginsWithDrive at hd
  split at hd
  · rename_i a b hs
    rw [Bool.and_eq_true] at hd
    rw [beginsLikeDrive_segmentOf hs hd.1 hd.2] at h
    cases h
  · rename_i a b d rest hs
    rw [Bool.and_eq_true, Bool.and_eq_true] at hd
    rw [beginsLikeDrive_segmentOf hs hd.1.1 hd.1.2] at h
    cases h
  · cases hd

theorem writtenSegment_plain (h : beginsLikeDrive c = false) (stack : List Segment) :
    writtenSegment true stack (segmentOf c) = segmentOf c := by
  have kept := encode_segmentOf c
  unfold writtenSegment
  split
  · rename_i a b hs
    split
    · rename_i hd
      simp only [isDriveLetter, Bool.and_eq_true] at hd
      rw [beginsLikeDrive_segmentOf hs hd.2.1 hd.2.2] at h
      cases h
    · exact hs ▸ kept
  · exact kept

end Dots

section Walking

variable {c : Utf8.Bytes} {cs kept : List Utf8.Bytes} {stack : List Segment}

/-- A component that no drive rule concerns. -/
def IsPlain (c : Utf8.Bytes) : Prop := IsComponent c ∧ beginsLikeDrive c = false

/-- The stack of the components that are kept; below them stands the empty segment before the
first slash until a double dot takes it away. -/
def Holds (stack : List Segment) (kept : List Utf8.Bytes) : Prop :=
  stack = (kept.map segmentOf).reverse ∨ stack = (kept.map segmentOf).reverse ++ [[]]

theorem collapseStep_plain (hk : ∀ d ∈ kept, IsPlain d) (hc : IsPlain c) :
    ∀ d ∈ collapseStep kept c, IsPlain d := by
  intro d hd
  unfold collapseStep at hd
  split at hd
  · exact hk d (List.dropLast_subset _ hd)
  · rcases List.mem_append.mp hd with hd | hd
    · exact hk d hd
    · rw [List.mem_singleton.mp hd]
      exact hc

theorem popSegment_holds (hk : ∀ d ∈ kept, IsPlain d) (h : Holds stack kept) :
    Holds (popSegment stack) kept.dropLast := by
  rcases List.eq_nil_or_concat' kept with rfl | ⟨front, c, rfl⟩
  · rcases h with rfl | rfl
    · exact Or.inl rfl
    · exact Or.inl rfl
  · have hd := beginsWithDrive_segmentOf (hk c (by simp)).2
    rw [List.dropLast_concat]
    rcases h with rfl | rfl
    · exact Or.inl (by simp [popSegment, hd])
    · exact Or.inr (by simp [popSegment, hd])

theorem push_holds (h : Holds stack kept) : Holds (segmentOf c :: stack) (kept ++ [c]) := by
  rcases h with rfl | rfl
  · exact Or.inl (by simp)
  · exact Or.inr (by simp)

theorem enter_holds (hk : ∀ d ∈ kept, IsPlain d) (hc : IsPlain c) (h : Holds stack kept) :
    Holds (enter true stack (segmentOf c)) (collapseStep kept c) := by
  have single := isSingleDot_segmentOf hc.1.2.1
  rw [enter, isDoubleDot_segmentOf, collapseStep]
  by_cases hd : c = doubleDot
  · simp only [hd, decide_true, if_true]
    exact popSegment_holds hk h
  · simp only [hd, decide_false, Bool.false_eq_true, if_false, single,
      writtenSegment_plain hc.2]
    exact push_holds h

/-- A stack at the end of a path, with an empty segment on top if the path is closed. -/
def Ends (stack : List Segment) (kept : List Utf8.Bytes) (closed : Bool) : Prop :=
  ∃ below, Holds below kept ∧ stack = if closed then [] :: below else below

theorem finish_ends (hk : ∀ d ∈ kept, IsPlain d) (hc : IsPlain c) (h : Holds stack kept) :
    Ends (finish true stack (segmentOf c)) (collapseStep kept c) (c = doubleDot) := by
  have single := isSingleDot_segmentOf hc.1.2.1
  rw [finish, isDoubleDot_segmentOf, collapseStep]
  by_cases hd : c = doubleDot
  · simp only [hd, decide_true, if_true]
    exact ⟨_, popSegment_holds hk h, rfl⟩
  · simp only [hd, decide_false, Bool.false_eq_true, if_false, single,
      writtenSegment_plain hc.2]
    exact ⟨_, push_holds h, rfl⟩

theorem walk_ends (hne : cs ≠ []) (hcs : ∀ c ∈ cs, IsPlain c) (hk : ∀ d ∈ kept, IsPlain d)
    (h : Holds stack kept) :
    Ends (walk true stack (cs.map segmentOf)) (cs.foldl collapseStep kept)
      (cs.getLast? = some doubleDot) := by
  induction cs generalizing stack kept with
  | nil => exact absurd rfl hne
  | cons c cs ih =>
    have hc := hcs c List.mem_cons_self
    cases cs with
    | nil => simpa [walk] using finish_ends hk hc h
    | cons d cs =>
      have hs := ih (by simp) (fun e he => hcs e (List.mem_cons_of_mem c he))
        (collapseStep_plain hk hc) (enter_holds hk hc h)
      simpa [walk] using hs

theorem holds_reverse (h : Holds stack kept) (rest : List Segment) :
    withoutLeadingEmpty (stack.reverse ++ rest) =
      withoutLeadingEmpty (kept.map segmentOf ++ rest) := by
  rcases h with rfl | rfl
  · rw [List.reverse_reverse]
  · rw [List.reverse_append, List.reverse_reverse]
    exact withoutLeadingEmpty_cons _

/-- The segments of the identifier: the components that are kept, and an empty one at the end
of a closed path and of the root. -/
theorem settle_ends {closed : Bool} (hk : ∀ d ∈ kept, IsPlain d) (h : Ends stack kept closed) :
    settle true stack = .rooted (kept.map segmentOf ++
      if kept.isEmpty || closed then [[]] else []) := by
  obtain ⟨below, hb, rfl⟩ := h
  have hr : (if closed then [] :: below else below).reverse =
      below.reverse ++ if closed then [[]] else [] := by
    cases closed
    · exact (List.append_nil _).symm
    · exact List.reverse_cons
  rw [settle, hr, if_pos rfl, holds_reverse hb]
  cases kept with
  | nil => cases closed <;> rfl
  | cons c kept =>
    have hc : (segmentOf c).isEmpty = false := by
      simpa using segmentOf_ne_nil (hk c List.mem_cons_self).1
    simp [withoutLeadingEmpty, hc]

theorem collapse_plain (hcs : ∀ c ∈ cs, IsPlain c) : ∀ d ∈ collapse cs, IsPlain d := by
  have step : ∀ kept, (∀ d ∈ kept, IsPlain d) → ∀ d ∈ cs.foldl collapseStep kept, IsPlain d := by
    induction cs with
    | nil => exact fun _ hk => hk
    | cons c cs ih =>
      intro kept hk
      exact ih (fun d hd => hcs d (List.mem_cons_of_mem c hd)) _
        (collapseStep_plain hk (hcs c List.mem_cons_self))
  exact step [] (by simp)

end Walking

section Identifiers

variable {cs ds : List Utf8.Bytes} {path : NativePath}

def canonicalSegments (cs : List Utf8.Bytes) : List Segment :=
  (collapse cs).map segmentOf ++ if closes cs then [[]] else []

def canonical (cs : List Utf8.Bytes) : ModuleId := ⟨localFile (.rooted (canonicalSegments cs))⟩

theorem segmentsText_append (front back : List Segment) :
    segmentsText (front ++ back) = segmentsText front ++ segmentsText back := by
  induction front with
  | nil => rfl
  | cons s front ih => simp [segmentsText, ih]

theorem segmentsText_map (cs : List Utf8.Bytes) :
    segmentsText (cs.map segmentOf) = cs.flatMap fun c => '/' :: segmentOf c := by
  induction cs with
  | nil => rfl
  | cons c cs ih => simp [segmentsText, ih]

theorem fileText_components (path : NativePath) : fileText path = "file://".toList ++
    segmentsText (if path.components = [] then [[]] else path.components.map segmentOf) := by
  unfold fileText
  congr 1
  split
  · rename_i hcs
    rw [if_pos hcs]
    rfl
  · rename_i hcs
    rw [if_neg hcs]

theorem localFile_text (segments : List Segment) :
    (localFile (.rooted segments)).text = "file://".toList ++ segmentsText segments := by
  have start : fileScheme ++ [':', '/', '/'] = "file://".toList := by decide
  rw [← start]
  simp [Url.text, localFile, authorityText, Authority.text, hostText, portText, shield, Path.text,
    queryText]

theorem canonical_text (cs : List Utf8.Bytes) :
    (canonical cs).text = String.ofList (canonicalText cs) := by
  have hs : segmentsText (canonicalSegments cs) =
      (collapse cs).flatMap (fun c => '/' :: segmentOf c) ++ if closes cs then ['/'] else [] := by
    rw [canonicalSegments, segmentsText_append, segmentsText_map]
    cases closes cs
    · rfl
    · rfl
  have ht := localFile_text (canonicalSegments cs)
  rw [hs, ← List.append_assoc] at ht
  exact congrArg String.ofList ht

theorem segmentOf_injective : Function.Injective segmentOf := by
  intro c d h
  rw [← decode_segmentOf c, h, decode_segmentOf]

theorem segmentOf_plain_ne (hcs : ∀ c ∈ cs, IsPlain c) : [] ∉ (collapse cs).map segmentOf := by
  intro h
  obtain ⟨c, hc, he⟩ := List.mem_map.mp h
  exact segmentOf_ne_nil (collapse_plain hcs c hc).1 he

/-- Equal identifiers have the same components left and agree on the last slash. -/
theorem canonical_inj (hcs : ∀ c ∈ cs, IsPlain c) (hds : ∀ c ∈ ds, IsPlain c) :
    canonical cs = canonical ds ↔ collapse cs = collapse ds ∧ closes cs = closes ds := by
  constructor
  · intro h
    have hs : canonicalSegments cs = canonicalSegments ds := by
      have hu := congrArg (fun id => id.url.path) h
      exact Path.rooted.inj hu
    have hf := congrArg (List.filter (!·.isEmpty)) hs
    have whole : ∀ es, (∀ c ∈ es, IsPlain c) →
        (canonicalSegments es).filter (!·.isEmpty) = (collapse es).map segmentOf := by
      intro es he
      have kept : ((collapse es).map segmentOf).filter (!·.isEmpty) =
          (collapse es).map segmentOf := by
        rw [List.filter_eq_self]
        intro s hs
        have hne : s ≠ [] := fun hn => segmentOf_plain_ne he (hn ▸ hs)
        simpa using hne
      rw [canonicalSegments, List.filter_append, kept]
      cases closes es <;> simp
    rw [whole cs hcs, whole ds hds] at hf
    have hc : collapse cs = collapse ds := List.map_injective_iff.mpr segmentOf_injective hf
    refine ⟨hc, ?_⟩
    rw [canonicalSegments, canonicalSegments, hc] at hs
    have ht := List.append_cancel_left hs
    cases h₁ : closes cs <;> cases h₂ : closes ds <;> simp [h₁, h₂] at ht ⊢
  · rintro ⟨hc, hs⟩
    rw [canonical, canonical, canonicalSegments, canonicalSegments, hc, hs]

theorem ofAbsolutePath_ends {segments : List Segment} {closed : Bool} (hne : segments ≠ [])
    (hc : ∀ s ∈ segments, ∀ c ∈ s, Percent.isSegmentChar c = true)
    (ht : fileText path = "file://".toList ++ segmentsText segments)
    (hcs : ∀ c ∈ cs, IsPlain c) (he : Ends (walk true [] ([] :: segments)) (collapse cs) closed)
    (hclosed : ((collapse cs).isEmpty || closed) = closes cs) :
    ofAbsolutePath path = .ok (canonical cs) := by
  rw [ofAbsolutePath, ht, ModuleId.parse, parse_segments hne hc,
    settle_ends (collapse_plain hcs) he, hclosed]
  rfl

theorem ofAbsolutePath_canonical (h : ∀ c ∈ path.components, beginsLikeDrive c = false) :
    ofAbsolutePath path = .ok (canonical path.components) := by
  have plain : ∀ c ∈ path.components, IsPlain c := fun c hc => ⟨isComponent_of_mem hc, h c hc⟩
  have ht := fileText_components path
  generalize path.components = cs at plain ht ⊢
  cases cs with
  | nil =>
    have ht : fileText path = "file://".toList ++ segmentsText [[]] := ht
    have root : Ends (walk true [] [[], []]) (collapse []) true := ⟨[[]], Or.inr rfl, rfl⟩
    exact ofAbsolutePath_ends (by simp) (by simp) ht plain root rfl
  | cons c cs =>
    refine ofAbsolutePath_ends (by simp) ?_ ht plain
      (walk_ends (by simp) plain (by simp) (Or.inr rfl)) rfl
    intro s hs
    obtain ⟨d, -, rfl⟩ := List.mem_map.mp hs
    exact segmentChar_segmentOf d

end Identifiers

section Starts

variable {base : ModuleId} {dir path : NativePath}

theorem components_nil : components [] = [] := rfl

theorem components_parent (path : NativePath) :
    path.parent.components = path.components.dropLast := by
  have hcs : ∀ c ∈ path.components.dropLast, IsComponent c :=
    fun c hc => isComponent_of_mem (List.dropLast_subset _ hc)
  have joined_eq : ∀ cs : List Utf8.Bytes, cs ≠ [] → ofComponents cs = joined cs := by
    intro cs
    induction cs with
    | nil => exact fun h => absurd rfl h
    | cons c cs ih =>
      intro _
      cases cs with
      | nil => simp [ofComponents, joined]
      | cons d cs =>
        rw [ofComponents, ih (by simp)]
        · rfl
        · simp
  rw [parent]
  by_cases hn : path.components.dropLast = []
  · rw [hn]
    decide
  · rw [joined_eq _ hn, components_joined hcs]

theorem components_join (h : path.isAbsolute = false) :
    (dir.join path).components = dir.components ++ path.components := by
  rw [NativePath.join, if_neg (by simp [h])]
  split
  · rename_i hs
    rcases List.eq_nil_or_concat' dir with rfl | ⟨front, b, rfl⟩
    · cases hs
    · rw [List.getLast?_concat] at hs
      rw [Option.some.inj hs, List.append_assoc, List.singleton_append, components_append,
        components_append, components_nil, List.append_nil]
  · rw [components_append]

theorem directoryOf_local (hf : base.isFile = true) (hh : base.url.host? = none) :
    ∃ dir, base.directoryOf = .ok dir ∧ dir.components = base.startComponents := by
  have hp : base.toFilePath = .ok (closeDrive (segmentBytes base.url.path.segments)) := by
    simp [toFilePath, hf, hh]
  rw [directoryOf, startComponents, hp]
  generalize closeDrive (segmentBytes base.url.path.segments) = path
  refine ⟨_, rfl, ?_⟩
  by_cases hd : base.isDirectory = true
  · simp [hd]
  · by_cases hn : path.components = []
    · simp [hd, hn]
    · simp [hd, hn, components_parent]

theorem resolveFilePath_canonical {path : String} (h : Names path base)
    (drives : ∀ c ∈ namedComponents path base, beginsLikeDrive c = false) :
    resolveFilePath path base = .ok (canonical (namedComponents path base)) := by
  rw [resolveFilePath, if_neg (by simp [h.shown])]
  unfold namedComponents at drives ⊢
  by_cases ha : (NativePath.ofString path).isAbsolute = true
  · simp only [ha, if_true] at drives ⊢
    exact ofAbsolutePath_canonical drives
  · obtain ⟨hf, hh⟩ := h.local_.resolve_left ha
    obtain ⟨dir, hd, hc⟩ := directoryOf_local hf hh
    have hj : (NativePath.join dir (NativePath.ofString path)).components =
        dir.components ++ (NativePath.ofString path).components :=
      components_join (Bool.eq_false_iff.mpr ha)
    rw [hc] at hj
    simp only [ha, Bool.false_eq_true, if_false, hd] at drives ⊢
    rw [← hj] at drives ⊢
    exact ofAbsolutePath_canonical drives

theorem namedComponents_plain {path : String}
    (drives : ∀ c ∈ namedComponents path base, beginsLikeDrive c = false) :
    ∀ c ∈ namedComponents path base, IsPlain c := by
  intro c hc
  refine ⟨?_, drives c hc⟩
  unfold namedComponents startComponents at hc
  simp only at hc
  split at hc
  · exact isComponent_of_mem hc
  · rcases List.mem_append.mp hc with hc | hc
    · split at hc
      · split at hc
        · exact isComponent_of_mem hc
        · exact isComponent_of_mem (List.dropLast_subset _ hc)
      · cases hc
    · exact isComponent_of_mem hc

end Starts

/-- A path that has a meaning gets an identifier, which is written with the components that are
left of those it names, and two paths get the same one if the same components are left and both
or neither end with the slash. -/
theorem file_path_canonical {p q : String} {a b : ModuleId} (hp : Names p a) (hq : Names q b)
    (dp : ∀ c ∈ namedComponents p a, beginsLikeDrive c = false)
    (dq : ∀ c ∈ namedComponents q b, beginsLikeDrive c = false) :
    (∃ id, resolveFilePath p a = .ok id ∧
      id.text = String.ofList (canonicalText (namedComponents p a))) ∧
    (resolveFilePath p a = resolveFilePath q b ↔
      collapse (namedComponents p a) = collapse (namedComponents q b) ∧
        closes (namedComponents p a) = closes (namedComponents q b)) := by
  have rp := resolveFilePath_canonical hp dp
  have rq := resolveFilePath_canonical hq dq
  refine ⟨⟨_, rp, canonical_text _⟩, ?_⟩
  rw [rp, rq, Except.ok.injEq]
  exact canonical_inj (namedComponents_plain dp) (namedComponents_plain dq)

/-- A path from beside a module that ends with a double dot, and an absolute one with a name that
looks encoded. -/
theorem beside_module_canonical : ∃ a : ModuleId,
    Names "../x/./%2e%2e/a b/.." a ∧ Names "/work//x/%2e%2e/" a ∧
    (∃ id, resolveFilePath "../x/./%2e%2e/a b/.." a = .ok id ∧
      id.text = "file:///work/x/%252e%252e/") ∧
    collapse (namedComponents "../x/./%2e%2e/a b/.." a) =
      collapse (namedComponents "/work//x/%2e%2e/" a) ∧
    resolveFilePath "../x/./%2e%2e/a b/.." a ≠ resolveFilePath "/work//x/%2e%2e/" a := by
  let a : ModuleId := ⟨localFile (.rooted ["work".toList, "app".toList, "main.js".toList])⟩
  have hp : Names "../x/./%2e%2e/a b/.." a := ⟨by decide +kernel, Or.inr ⟨rfl, rfl⟩⟩
  have hq : Names "/work//x/%2e%2e/" a := ⟨by decide +kernel, Or.inl (by decide +kernel)⟩
  have dp : ∀ c ∈ namedComponents "../x/./%2e%2e/a b/.." a, beginsLikeDrive c = false := by
    decide +kernel
  have dq : ∀ c ∈ namedComponents "/work//x/%2e%2e/" a, beginsLikeDrive c = false := by
    decide +kernel
  have same : collapse (namedComponents "../x/./%2e%2e/a b/.." a) =
      collapse (namedComponents "/work//x/%2e%2e/" a) := by decide +kernel
  have slash : closes (namedComponents "../x/./%2e%2e/a b/.." a) ≠
      closes (namedComponents "/work//x/%2e%2e/" a) := by decide +kernel
  have text : String.ofList (canonicalText (namedComponents "../x/./%2e%2e/a b/.." a)) =
      "file:///work/x/%252e%252e/" := by decide +kernel
  obtain ⟨named, iff⟩ := file_path_canonical hp hq dp dq
  rw [text] at named
  exact ⟨a, hp, hq, named, same, fun he => slash (iff.mp he).2⟩

end ScriptHost.ModuleId
