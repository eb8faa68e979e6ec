import ScriptHost.Proofs.Module.Canonical
import ScriptHost.Source.File

/-!
# The file that a path names

The components of a path without dots all stay on the stack, so its identifier
has them for its segments and leads back to the path. The one exception is a
path whose last bytes read as a drive: it comes back with a slash at its end,
and a path that ends with a slash leads to no file.
-/

set_option autoImplicit false

namespace ScriptHost

namespace FileSystem

variable {fs : FileSystem} {place place' : List FileName} {node : FileNode} {path : NativePath}

/-- A path that asks for a directory at its end leads to nothing else. -/
theorem follow_directory (names : List FileName)
    (h : fs.follow place (names ++ [[]]) = .ok (place', node)) : node = .directory := by
  induction names generalizing place with
  | nil =>
    rw [List.nil_append, follow] at h
    split at h
    · cases h
    · cases h
    · rename_i hn
      simp only [List.isEmpty_nil, Bool.true_or, if_true, follow, hn] at h
      cases h
      rfl
  | cons name names ih =>
    rw [List.cons_append, follow] at h
    split at h
    · cases h
    · cases h
    · split at h
      · exact ih h
      · split at h
        · exact ih h
        · split at h
          · cases h
          · split at h
            · cases h
            · exact ih h

theorem read_slash (fs : FileSystem) (path : NativePath) (bytes : Utf8.Bytes) :
    fs.read (path ++ [NativePath.slash]) ≠ .ok bytes := by
  intro h
  have hs : (path ++ [NativePath.slash]).splitOn NativePath.slash =
      path.splitOn NativePath.slash ++ [[]] := by
    rw [List.splitOn_append_cons_self, List.splitOn_nil]
  rw [read] at h
  split at h
  · cases h
  · cases h
  · rename_i place' content hf
    rw [find] at hf
    split at hf
    · cases hf
    · split at hf
      · cases hf
      · split at hf
        · cases hf
        · rw [hs] at hf
          cases follow_directory _ hf

theorem readText_slash (fs : FileSystem) (path : NativePath) (text : String) :
    fs.readText (path ++ [NativePath.slash]) ≠ .ok text := by
  intro h
  rw [readText, SystemRead.text] at h
  split at h
  · cases h
  · rename_i bytes hr
    exact read_slash fs path bytes hr

end FileSystem

namespace ModuleId

open NativePath Url

variable {cs : List Utf8.Bytes} {path : NativePath}

/-- An absolute path with at least one component, each a name, and no slash at the end. -/
def IsNormal (path : NativePath) : Prop :=
  ∃ cs : List Utf8.Bytes, cs ≠ [] ∧ (∀ c ∈ cs, IsComponent c ∧ c ≠ doubleDot) ∧ path = joined cs

/-- A path whose last two bytes are a letter and a drive mark. -/
def endsLikeDrive (path : NativePath) : Bool :=
  match path.reverse with
  | mark :: letter :: _ => isDriveByte mark && Ascii.isAlpha (Char.ofNat letter.toNat)
  | _ => false

theorem closeDrive_joined (hne : cs ≠ []) : closeDrive (joined cs) =
    if endsLikeDrive (joined cs) then joined cs ++ [slash] else joined cs := by
  obtain ⟨rest, hr⟩ : ∃ rest, joined cs = slash :: rest := by
    cases cs with
    | nil => exact absurd rfl hne
    | cons c cs => exact ⟨c ++ joined cs, rfl⟩
  unfold closeDrive endsLikeDrive
  split
  · rename_i mark letter before rest' h
    rw [h]
  · rename_i short
    split
    · rename_i mark letter rest' h
      have hl : letter = slash := by
        cases rest' with
        | cons before rest' => exact absurd h (short mark letter before rest')
        | nil =>
          have hf := congrArg List.reverse h
          rw [List.reverse_reverse, hr] at hf
          exact (List.cons.inj hf).1.symm
      rw [hl]
      simp [slash, Ascii.isAlpha, Ascii.isUpper, Ascii.isLower]
    · rfl

/-- Names are pushed on the stack one after the other. Above the empty segment before the first
slash no drive letter is at the start of the path. -/
theorem walk_names {stack : List Segment} (hs : stack ≠ [])
    (hcs : ∀ c ∈ cs, IsComponent c ∧ c ≠ doubleDot) :
    walk true stack (cs.map segmentOf) = (cs.map segmentOf).reverse ++ stack := by
  have pushed : ∀ c ∈ cs, ∀ stack : List Segment, stack ≠ [] →
      enter true stack (segmentOf c) = segmentOf c :: stack ∧
        finish true stack (segmentOf c) = segmentOf c :: stack := by
    intro c hc stack hs
    have single := isSingleDot_segmentOf (hcs c hc).1.2.1
    have double := isDoubleDot_segmentOf c
    rw [decide_eq_false (hcs c hc).2] at double
    have written : writtenSegment true stack (segmentOf c) = segmentOf c := by
      have kept := encode_segmentOf c
      have below : stack.isEmpty = false := by simpa using hs
      unfold writtenSegment
      split
      · rename_i a b he
        rw [below]
        exact he ▸ kept
      · exact kept
    simp [enter, finish, double, single, written]
  induction cs generalizing stack with
  | nil => rfl
  | cons c cs ih =>
    obtain ⟨he, hf⟩ := pushed c List.mem_cons_self stack hs
    cases cs with
    | nil => simpa [walk] using hf
    | cons d cs =>
      have hn : walk true (segmentOf c :: stack) ((d :: cs).map segmentOf) =
          ((d :: cs).map segmentOf).reverse ++ segmentOf c :: stack :=
        ih (by simp) (fun e h => hcs e (List.mem_cons_of_mem c h))
          fun e h => pushed e (List.mem_cons_of_mem c h)
      simpa [walk, he] using hn

theorem ofAbsolutePath_joined (hne : cs ≠ []) (hcs : ∀ c ∈ cs, IsComponent c ∧ c ≠ doubleDot) :
    ofAbsolutePath (joined cs) = .ok ⟨localFile (.rooted (cs.map segmentOf))⟩ := by
  have ht := fileText_components (joined cs)
  rw [components_joined fun c hc => (hcs c hc).1, if_neg hne] at ht
  have hc : ∀ s ∈ cs.map segmentOf, ∀ c ∈ s, Percent.isSegmentChar c = true := by
    intro s hs
    obtain ⟨c, -, rfl⟩ := List.mem_map.mp hs
    exact segmentChar_segmentOf c
  have hw : walk true [] ([] :: cs.map segmentOf) = (cs.map segmentOf).reverse ++ [[]] := by
    rw [← walk_names (by simp) hcs]
    cases cs with
    | nil => exact absurd rfl hne
    | cons c cs => rfl
  have hp : settle true ((cs.map segmentOf).reverse ++ [[]]) = .rooted (cs.map segmentOf) := by
    rw [settle, List.reverse_append, List.reverse_reverse, if_pos rfl]
    cases cs with
    | nil => exact absurd rfl hne
    | cons c cs =>
      have he : (segmentOf c).isEmpty = false := by
        simpa using segmentOf_ne_nil (hcs c List.mem_cons_self).1
      simp [withoutLeadingEmpty, he]
  rw [ofAbsolutePath, ht, ModuleId.parse, parse_segments (by simpa using hne) hc, hw, hp]

theorem normal_shown {p : String} (h : IsNormal (NativePath.ofString p)) :
    Blank.isBlankText p = false ∧ (NativePath.ofString p).isAbsolute = true := by
  obtain ⟨cs, hne, -, hp⟩ := h
  obtain ⟨rest, hr⟩ : ∃ rest, NativePath.ofString p = slash :: rest := by
    cases cs with
    | nil => exact absurd rfl hne
    | cons c cs => exact ⟨c ++ joined cs, hp⟩
  refine ⟨?_, by simp [NativePath.isAbsolute, hr]⟩
  have he : Utf8.encode p.toList = slash :: rest := hr
  rw [Blank.isBlankText]
  cases hl : p.toList with
  | nil =>
    rw [hl] at he
    cases he
  | cons c text =>
    rw [hl] at he
    have hc : c = '/' := (Utf8.encode_head (by decide) he).mp rfl
    simp [hc, Blank.isBlank]

/-- A path without dots has an identifier, which leads back to it, unless it ends like a drive:
that identifier leads to the path with a slash at its end, and no load of it brings a text. -/
theorem named_file_read {p : String} (normal : IsNormal (NativePath.ofString p))
    (base : ModuleId) :
    ∃ id, resolveFilePath p base = .ok id ∧
      (id.toFilePath = .ok (NativePath.ofString p) ↔ endsLikeDrive (NativePath.ofString p) = false) ∧
      (endsLikeDrive (NativePath.ofString p) = false → ∀ fs : FileSystem,
        fs.loadSource id = (fs.readText (NativePath.ofString p)).mapError (.ofHost id.text)) ∧
      (endsLikeDrive (NativePath.ofString p) = true →
        id.toFilePath = .ok (NativePath.ofString p ++ [slash]) ∧
          ∀ (fs : FileSystem) (text : String), fs.loadSource id ≠ .ok text) := by
  obtain ⟨shown, absolute⟩ := normal_shown normal
  obtain ⟨cs, hne, hcs, hp⟩ := normal
  let id : ModuleId := ⟨localFile (.rooted (cs.map segmentOf))⟩
  have hid : resolveFilePath p base = .ok id := by
    rw [resolveFilePath, if_neg (by simp [shown])]
    simp only [absolute, if_true]
    rw [hp]
    exact ofAbsolutePath_joined hne hcs
  have hpath : id.toFilePath = .ok (closeDrive (joined cs)) := by
    rw [← segmentBytes_components]
    rfl
  rw [closeDrive_joined hne, ← hp] at hpath
  refine ⟨id, hid, ?_, ?_, ?_⟩
  · rw [hpath]
    cases endsLikeDrive (NativePath.ofString p) <;> simp
  · intro plain fs
    rw [plain] at hpath
    rw [FileSystem.loadSource, hpath]
    rfl
  · intro drive
    rw [drive] at hpath
    refine ⟨hpath, fun fs text h => ?_⟩
    rw [FileSystem.loadSource, hpath] at h
    cases hr : fs.readText (NativePath.ofString p ++ [slash]) with
    | ok text => exact fs.readText_slash _ text hr
    | error failure =>
      simp only [if_true, Except.bind, hr, Except.mapError] at h
      cases h

theorem encoded_name_read : ∃ id : ModuleId,
    IsNormal (NativePath.ofString "/work/%41 é?.js") ∧
    resolveFilePath "/work/%41 é?.js" default = .ok id ∧
    id.text = "file:///work/%2541%20%C3%A9%3F.js" ∧
    id.toFilePath = .ok (NativePath.ofString "/work/%41 é?.js") := by
  have normal : IsNormal (NativePath.ofString "/work/%41 é?.js") :=
    ⟨[Utf8.encodeString "work", Utf8.encodeString "%41 é?.js"], by simp, by decide +kernel,
      by decide +kernel⟩
  have plain : endsLikeDrive (NativePath.ofString "/work/%41 é?.js") = false := by decide +kernel
  obtain ⟨id, hid, back, -, -⟩ := named_file_read normal default
  have text : ∀ id, resolveFilePath "/work/%41 é?.js" default = .ok id →
      id.text = "file:///work/%2541%20%C3%A9%3F.js" := by
    have h : resolveFilePath "/work/%41 é?.js" default =
        .ok ⟨localFile (.rooted ["work".toList, "%2541%20%C3%A9%3F.js".toList])⟩ := by
      decide +kernel
    intro id hid
    rw [h] at hid
    cases hid
    decide +kernel
  exact ⟨id, normal, hid, text id hid, back.mpr plain⟩

/-- A file whose name ends with a letter and a colon is there, and its path does not load it. -/
theorem letter_before_colon_unread : ∃ (id : ModuleId) (fs : FileSystem),
    IsNormal (NativePath.ofString "/work/note:") ∧
    resolveFilePath "/work/note:" default = .ok id ∧
    id.toFilePath ≠ .ok (NativePath.ofString "/work/note:") ∧
    fs.readText (NativePath.ofString "/work/note:") = .ok "" ∧
    fs.loadSource id = .error (.io "file:///work/note:" "ENOTDIR: Not a directory (os error 20)") :=
  ⟨⟨localFile (.rooted ["work".toList, "note:".toList])⟩,
    FileSystem.empty.insert [Utf8.encodeString "work", Utf8.encodeString "note:"] (.file []),
    ⟨[Utf8.encodeString "work", Utf8.encodeString "note:"], by simp, by decide +kernel,
      by decide +kernel⟩, by decide +kernel⟩

end ModuleId

end ScriptHost
