import Mathlib.Data.List.Basic
import ScriptHost.Proofs.Module.Spelling
import ScriptHost.Proofs.Url.Written

/-!
# Identifiers of one file

A file identifier without a server and a query is known by its segments, so
two of them with the same native path can only differ in how their segments
are written: a character or its escape, an empty segment more or less, a slash
or its escape. Plainly written ones cannot, except at a path that ends with a
drive letter, which stands for the drive's root and gets the slash that the
identifier may lack.
-/

set_option autoImplicit false

namespace ScriptHost.ModuleId

open NativePath Url

/-- The identifiers that reading, resolving and converting paths can give. -/
inductive Obtained : ModuleId → Prop
  | parse {text : String} {id : ModuleId} (h : ModuleId.parse text = .ok id) : Obtained id
  | resolve {specifier : String} {base id : ModuleId} (hb : Obtained base)
      (h : ModuleId.resolve specifier base = .ok id) : Obtained id
  | resolveFilePath {path : String} {base id : ModuleId} (hb : Obtained base)
      (h : ModuleId.resolveFilePath path base = .ok id) : Obtained id
  | ofDirectoryPath {path : NativePath} {id : ModuleId}
      (h : ModuleId.ofDirectoryPath path = .ok id) : Obtained id

section Forms

variable {id : ModuleId}

theorem parse_written {text : String} (h : ModuleId.parse text = .ok id) : id.url.IsWritten := by
  unfold ModuleId.parse at h
  split at h
  · rename_i url hu
    cases h
    exact Url.parse_written hu
  · cases h

theorem Obtained.written (h : id.Obtained) : id.url.IsWritten := by
  induction h with
  | parse h => exact parse_written h
  | resolve _ h ih =>
    unfold ModuleId.resolve at h
    split at h
    · cases h
    split at h
    · cases h
    split at h
    · rename_i url hu
      cases h
      exact join_written ih hu
    · cases h
  | resolveFilePath _ h _ =>
    obtain ⟨path, hp⟩ := resolveFilePath_cases h
    exact parse_written hp
  | ofDirectoryPath h =>
    unfold ModuleId.ofDirectoryPath at h
    split at h
    · exact parse_written h
    · cases h

end Forms

section Paths

variable {id : ModuleId} {path : NativePath} {cs : List Utf8.Bytes} {segments : List Segment}

theorem toFilePath_cases (h : id.toFilePath = .ok path) :
    id.url.isFile = true ∧ id.url.host? = none ∧
      path = closeDrive (segmentBytes id.url.path.segments) := by
  unfold toFilePath at h
  split at h
  · cases h
  · rename_i hf
    split at h
    · cases h
    · rename_i hn
      cases h
      exact ⟨by simpa [ModuleId.isFile] using hf, hn, rfl⟩

theorem Obtained.eq_localFile (ho : id.Obtained) (hq : id.url.query = none)
    (h : id.toFilePath = .ok path) : id.url = localFile (.rooted id.url.path.segments) := by
  obtain ⟨hf, hn, -⟩ := toFilePath_cases h
  obtain ⟨host, segments, he, -⟩ := IsFileBase.cases ⟨ho.written, hf⟩
  have hh : host = none := by
    rw [he] at hn
    exact hn
  rw [he, hq, hh]
  rfl

theorem segmentBytes_components (cs : List Utf8.Bytes) :
    segmentBytes (cs.map segmentOf) = joined cs := by
  induction cs with
  | nil => rfl
  | cons c cs ih =>
    show slash :: Percent.decode (segmentOf c) ++ segmentBytes (cs.map segmentOf) = _
    rw [ih, decode_segmentOf]
    rfl

theorem segmentBytes_directory (cs : List Utf8.Bytes) :
    segmentBytes (cs.map segmentOf ++ [[]]) = joined cs ++ [slash] := by
  rw [segmentBytes, List.flatMap_append]
  exact congrArg (· ++ [slash]) (segmentBytes_components cs)

/-- A path of a drive's root. -/
def endsAtDrive (path : NativePath) : Bool :=
  match path.reverse with
  | last :: mark :: letter :: _ :: _ =>
    last = slash && isDriveByte mark && Ascii.isAlpha (Char.ofNat letter.toNat)
  | _ => false

theorem closeDrive_cases (path : NativePath) : closeDrive path = path ∨
    closeDrive path = path ++ [slash] ∧ endsAtDrive (path ++ [slash]) = true := by
  unfold closeDrive
  split
  · rename_i mark letter before rest hr
    split
    · rename_i hd
      have he : (path ++ [slash]).reverse = slash :: mark :: letter :: before :: rest := by
        rw [List.reverse_append, hr]
        rfl
      exact Or.inr ⟨rfl, by simpa [endsAtDrive, he] using hd⟩
    · exact Or.inl rfl
  · exact Or.inl rfl

theorem closeDrive_slash (path : NativePath) : closeDrive (path ++ [slash]) = path ++ [slash] := by
  unfold closeDrive
  rw [List.reverse_append]
  split
  · rename_i mark letter before rest hr
    have hm : mark = slash := (List.cons.inj hr).1.symm
    rw [hm]
    rfl
  · rfl

theorem getLast_joined (h : ∀ c ∈ cs, IsComponent c) : (joined cs).getLast? ≠ some slash := by
  rcases List.eq_nil_or_concat' cs with rfl | ⟨front, c, rfl⟩
  · simp [joined]
  · have hc := h c (by simp)
    rcases List.eq_nil_or_concat' c with rfl | ⟨body, b, rfl⟩
    · exact absurd rfl hc.1
    · have hj : joined (front ++ [body ++ [b]]) = (joined front ++ slash :: body) ++ [b] := by
        simp [joined]
      rw [hj, List.getLast?_concat]
      intro hl
      have hb : b = slash := Option.some.inj hl
      exact hc.2.2 (by simp [hb])

theorem isDirectory_components (h : ∀ c ∈ cs, IsComponent c)
    (hp : id.url.path = .rooted (cs.map segmentOf)) : id.isDirectory = false := by
  show id.url.isDirectory = false
  rw [Url.isDirectory, hp]
  simp only [decide_eq_false_iff_not, List.getLast?_map]
  intro hl
  obtain ⟨c, hc, he⟩ := Option.map_eq_some_iff.mp hl
  exact segmentOf_ne_nil (h c (List.mem_of_getLast? hc)) he

theorem isDirectory_directory (hp : id.url.path = .rooted (cs.map segmentOf ++ [[]])) :
    id.isDirectory = true := by
  show id.url.isDirectory = true
  rw [Url.isDirectory, hp]
  simp

theorem PlainlyWritten.cases (hp : id.PlainlyWritten) (ho : id.Obtained)
    (hq : id.url.query = none) (h : id.toFilePath = .ok path) :
    ∃ cs, (∀ c ∈ cs, IsComponent c) ∧
      (id.url.path.segments = cs.map segmentOf ∧ id.isDirectory = false ∧
          path = closeDrive (joined cs) ∨
        id.url.path.segments = cs.map segmentOf ++ [[]] ∧ id.isDirectory = true ∧
          path = joined cs ++ [slash]) := by
  obtain ⟨cs, hcs, hs⟩ := hp
  have hl := congrArg Url.path (ho.eq_localFile hq h)
  obtain ⟨-, -, hn⟩ := toFilePath_cases h
  refine ⟨cs, hcs, ?_⟩
  rcases hs with hs | hs
  · rw [hs, segmentBytes_components] at hn
    exact Or.inl ⟨hs, isDirectory_components hcs (hs ▸ hl), hn⟩
  · rw [hs, segmentBytes_directory, closeDrive_slash] at hn
    exact Or.inr ⟨hs, isDirectory_directory (hs ▸ hl), hn⟩

theorem components_closeDrive (hcs : ∀ c ∈ cs, IsComponent c) :
    components (closeDrive (joined cs)) = cs := by
  rcases closeDrive_cases (joined cs) with hc | ⟨hc, -⟩
  · rw [hc, components_joined hcs]
  · rw [hc, components_joined_slash hcs]

theorem PlainlyWritten.segments_eq (hp : id.PlainlyWritten) (ho : id.Obtained)
    (hq : id.url.query = none) (h : id.toFilePath = .ok path) :
    id.url.path.segments =
      path.components.map segmentOf ++ if id.isDirectory then [[]] else [] := by
  obtain ⟨cs, hcs, ⟨hs, hd, hn⟩ | ⟨hs, hd, hn⟩⟩ := hp.cases ho hq h
  · rw [hn, components_closeDrive hcs, hs, hd]
    exact (List.append_nil _).symm
  · rw [hn, components_joined_slash hcs, hs, hd]
    rfl

/-- Only a drive's root ends with a slash that the identifier may lack. -/
theorem PlainlyWritten.slash_iff (hp : id.PlainlyWritten) (ho : id.Obtained)
    (hq : id.url.query = none) (h : id.toFilePath = .ok path) (hd : endsAtDrive path = false) :
    path.getLast? = some slash ↔ id.isDirectory = true := by
  obtain ⟨cs, hcs, ⟨-, hi, hn⟩ | ⟨-, hi, hn⟩⟩ := hp.cases ho hq h
  · rcases closeDrive_cases (joined cs) with hc | ⟨hc, he⟩
    · simp [hn, hc, hi, getLast_joined hcs]
    · rw [hn, hc, he] at hd
      cases hd
  · simp [hn, hi]

theorem PlainlyWritten.path_eq (hp : id.PlainlyWritten) (ho : id.Obtained)
    (hq : id.url.query = none) (h : id.toFilePath = .ok path) :
    path = joined path.components ++ if path.getLast? = some slash then [slash] else [] := by
  obtain ⟨cs, hcs, ⟨-, -, hn⟩ | ⟨-, -, hn⟩⟩ := hp.cases ho hq h
  · rw [hn, components_closeDrive hcs]
    rcases closeDrive_cases (joined cs) with hc | ⟨hc, -⟩
    · rw [hc, if_neg (getLast_joined hcs), List.append_nil]
    · rw [hc, if_pos List.getLast?_concat]
  · rw [hn, components_joined_slash hcs, if_pos List.getLast?_concat]

end Paths

section Results

variable {a b : ModuleId} {p q : NativePath}

/-- The same components, and both or neither with a slash at the end. -/
def SamePath (p q : NativePath) : Prop :=
  p.components = q.components ∧ (p.getLast? = some slash ↔ q.getLast? = some slash)

theorem eq_of_segments (ha : a.Obtained) (hb : b.Obtained) (qa : a.url.query = none)
    (qb : b.url.query = none) (hp : a.toFilePath = .ok p) (hq : b.toFilePath = .ok q)
    (hs : a.url.path.segments = b.url.path.segments) : a = b := by
  have hu : a.url = b.url := by rw [ha.eq_localFile qa hp, hb.eq_localFile qb hq, hs]
  cases a
  cases b
  exact congrArg ModuleId.mk hu

/-- Of one file, the identifiers made from paths are plainly written, and another
identifier is equal to a plainly written one if it is plainly written itself. -/
theorem same_file_iff (ha : a.Obtained) (hb : b.Obtained) (qa : a.url.query = none)
    (qb : b.url.query = none) (hp : a.toFilePath = .ok p) (hq : b.toFilePath = .ok q)
    (same : SamePath p q) :
    (∀ path base, ModuleId.resolveFilePath path base = .ok b → b.PlainlyWritten) ∧
      (b.PlainlyWritten → (a = b ↔ a.PlainlyWritten ∧
        (endsAtDrive p = true → a.isDirectory = b.isDirectory))) := by
  constructor
  · intro path base h
    exact resolveFilePath_plainlyWritten h
  · intro plain
    constructor
    · intro he
      rw [he]
      exact ⟨plain, fun _ => rfl⟩
    · rintro ⟨plain', drive⟩
      have hpq : p = q := by
        rw [plain'.path_eq ha qa hp, plain.path_eq hb qb hq, same.1]
        simp only [same.2]
      have hd : a.isDirectory = b.isDirectory := by
        cases he : endsAtDrive p with
        | true => exact drive he
        | false =>
          have sa := plain'.slash_iff ha qa hp he
          have sb := plain.slash_iff hb qb hq (hpq ▸ he)
          exact Bool.eq_iff_iff.mpr (sa.symm.trans (same.2.trans sb))
      apply eq_of_segments ha hb qa qb hp hq
      rw [plain'.segments_eq ha qa hp, plain.segments_eq hb qb hq, same.1, hd]

/-- A script that is named from the directory and imported through another one. -/
theorem app_same_file : ∃ base a b : ModuleId,
    ModuleId.parse "file:///work/" = .ok base ∧
      ModuleId.resolve "./lib/../app.js" base = .ok a ∧
      ModuleId.resolveFilePath "lib/.././app.js" base = .ok b ∧ a = b := by
  let base : ModuleId := ⟨localFile (.rooted ["work".toList, []])⟩
  let app : ModuleId := ⟨localFile (.rooted ["work".toList, "app.js".toList])⟩
  have hb : ModuleId.parse "file:///work/" = .ok base := by decide +kernel
  have hr : ModuleId.resolve "./lib/../app.js" base = .ok app := by decide +kernel
  have hf : ModuleId.resolveFilePath "lib/.././app.js" base = .ok app := by decide +kernel
  have hp : app.toFilePath = .ok (NativePath.ofString "/work/app.js") := by decide +kernel
  have plain : app.PlainlyWritten := resolveFilePath_plainlyWritten hf
  have hiff := (same_file_iff (.resolve (.parse hb) hr) (.resolveFilePath (.parse hb) hf) rfl rfl
    hp hp ⟨rfl, Iff.rfl⟩).2 plain
  exact ⟨base, app, app, hb, hr, hf, hiff.mpr ⟨plain, fun _ => rfl⟩⟩

/-- A drive's root has one path and two plainly written identifiers. -/
example : (ModuleId.parse "file:///C:" >>= toFilePath) =
      (ModuleId.parse "file:///C:/" >>= toFilePath) ∧
    ModuleId.parse "file:///C:" ≠ ModuleId.parse "file:///C:/" := by decide +kernel

/-- A letter and its escape name the same file by different identifiers. -/
theorem escaped_letter_differs : ∃ a b : ModuleId, ∃ p : NativePath,
    ModuleId.parse "file:///a/A.js" = .ok a ∧ ModuleId.parse "file:///a/%41.js" = .ok b ∧
      a.url.query = none ∧ b.url.query = none ∧
      a.toFilePath = .ok p ∧ b.toFilePath = .ok p ∧ a ≠ b :=
  ⟨⟨localFile (.rooted ["a".toList, "A.js".toList])⟩,
    ⟨localFile (.rooted ["a".toList, "%41.js".toList])⟩, NativePath.ofString "/a/A.js",
    by decide +kernel⟩

end Results

end ScriptHost.ModuleId
