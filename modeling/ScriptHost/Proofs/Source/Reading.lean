import ScriptHost.Proofs.Source.Schemes
import ScriptHost.Proofs.Text.Ascii
import ScriptHost.Source.Reading

/-!
# What the reading of a source finds

Whatever a system does with the path of an identifier, the loader finds one thing
in every way it reads: that the identifier is none of a local file, that the file
is missing, that it cannot be read, that its bytes are no text, or the text. The
host reads a text exactly if the loader finds it.
-/

set_option autoImplicit false

namespace ScriptHost

theorem FaultKind.code_missing {kind : FaultKind} : kind.code = "ENOENT" ↔ kind = .notFound := by
  cases kind <;> simp [code]

namespace Utf8

theorem decode_encodeString (text : String) : decode (encodeString text) = .ok text.toList := by
  rw [decode, encodeString, pieces_encode, collect_chars]

theorem decode_eq_ok {bytes : Bytes} {chars : List Char} :
    decode bytes = .ok chars ↔ bytes = encodeString (String.ofList chars) := by
  constructor
  · intro h
    have read : text? bytes = some (String.ofList chars) := by rw [text?, h]
    exact text?_eq_some_iff.mp read
  · rintro rfl
    rw [decode_encodeString, String.toList_ofList]

end Utf8

namespace SystemRead

variable {read : SystemRead} {id : ModuleId} {path : NativePath} {found : LoadResult String}

/-- What there is to find under an identifier. -/
inductive Finds (read : SystemRead) (id : ModuleId) : LoadResult String → Prop
  | otherScheme (h : id.scheme ≠ "file") :
    Finds read id (.error (.unsupportedScheme id.text id.scheme))
  | noPath (h : id.scheme = "file") (nowhere : ∀ path, id.toFilePath ≠ .ok path) :
    Finds read id (.error (.invalidSpecifier id.text "not a local file URL"))
  | missing (path : NativePath) (fault : SystemFault) (at_ : id.toFilePath = .ok path)
      (h : read path = .error fault) (kind : fault.kind = .notFound) :
    Finds read id (.error (.notFound id.text))
  | unread (path : NativePath) (fault : SystemFault) (at_ : id.toFilePath = .ok path)
      (h : read path = .error fault) (kind : fault.kind ≠ .notFound) :
    Finds read id (.error (.io id.text s!"{fault.kind.code}: {fault.message}"))
  | notText (path : NativePath) (bytes : Utf8.Bytes) (fault : Utf8.Fault)
      (at_ : id.toFilePath = .ok path) (h : read path = .ok bytes)
      (other : ∀ text, bytes ≠ Utf8.encodeString text)
      (malformed : Utf8.decode bytes = .error fault) :
    Finds read id (.error (.io id.text s!"EILSEQ: {path.shown}: {fault.message}"))
  | text (path : NativePath) (text : String) (at_ : id.toFilePath = .ok path)
      (h : read path = .ok (Utf8.encodeString text)) : Finds read id (.ok text)

theorem isFile_iff : id.isFile = true ↔ id.scheme = "file" := by
  rw [ModuleId.isFile, Url.isFile, Url.isFileScheme, decide_eq_true_eq]
  constructor
  · intro h
    rw [ModuleId.scheme, h, String.ofList_toList]
  · intro h
    rw [← h, ModuleId.scheme, String.toList_ofList]

theorem path_cases (id : ModuleId) :
    (id.scheme ≠ "file" ∧ id.toFilePath = .error (.unsupportedScheme id.text id.scheme)) ∨
    (id.scheme = "file" ∧
      id.toFilePath = .error (.invalidSpecifier id.text "not a local file URL")) ∨
    id.scheme = "file" ∧ ∃ path, id.toFilePath = .ok path := by
  unfold ModuleId.toFilePath
  cases file : id.isFile with
  | false =>
    refine .inl ⟨fun he => ?_, rfl⟩
    rw [isFile_iff.mpr he] at file
    cases file
  | true =>
    refine .inr ?_
    cases id.url.host? with
    | some host => exact .inl ⟨isFile_iff.mp file, rfl⟩
    | none => exact .inr ⟨isFile_iff.mp file, _, rfl⟩

theorem text_ok {text : String} (h : read path = .ok (Utf8.encodeString text)) :
    read.text path = .ok text := by
  rw [SystemRead.text, h]
  simp only [Utf8.decode_encodeString, String.ofList_toList]

theorem text_unread {fault : SystemFault} (h : read path = .error fault) :
    read.text path = .error (.io fault.kind.code fault.message) := by
  rw [SystemRead.text, h]
  rfl

theorem text_malformed {bytes : Utf8.Bytes} {fault : Utf8.Fault} (h : read path = .ok bytes)
    (malformed : Utf8.decode bytes = .error fault) :
    read.text path = .error (.io "EILSEQ" s!"{path.shown}: {fault.message}") := by
  rw [SystemRead.text, h]
  simp only [malformed]
  rfl

theorem fetchInstantly_path (h : id.toFilePath = .ok path) :
    read.fetchInstantly id = (read.text path).mapError (.ofHost id.text) := by
  rw [fetchInstantly, h]
  rfl

theorem ofHost_io (module code text : String) : LoadFailure.ofHost module (.io code text) =
    if code = "ENOENT" then .notFound module else .io module s!"{code}: {text}" := rfl

theorem finds_fetchInstantly (read : SystemRead) (id : ModuleId) :
    Finds read id (read.fetchInstantly id) := by
  rcases path_cases id with ⟨other, none⟩ | ⟨file, none⟩ | ⟨file, path, at_⟩
  · rw [fetchInstantly, none]
    exact .otherScheme other
  · rw [fetchInstantly, none]
    exact .noPath file fun path at_ => by simp [at_] at none
  rw [fetchInstantly_path at_]
  cases h : read path with
  | error fault =>
    rw [text_unread h, Except.mapError, ofHost_io]
    split
    · next code => exact .missing path fault at_ h (FaultKind.code_missing.mp code)
    · next code => exact .unread path fault at_ h fun he => code (FaultKind.code_missing.mpr he)
  | ok bytes =>
    cases decoded : Utf8.decode bytes with
    | ok chars =>
      rw [Utf8.decode_eq_ok.mp decoded] at h
      rw [text_ok h]
      exact .text path _ at_ h
    | error fault =>
      have other : ∀ text, bytes ≠ Utf8.encodeString text := fun text he => by
        rw [he, Utf8.decode_encodeString] at decoded
        cases decoded
      rw [text_malformed h decoded, Except.mapError, ofHost_io, if_neg (by decide)]
      exact .notText path bytes fault at_ h other decoded

theorem eq_of_finds (h : Finds read id found) : found = read.fetchInstantly id := by
  cases h with
  | otherScheme other =>
    rcases path_cases id with ⟨-, none⟩ | ⟨file, -⟩ | ⟨file, -⟩
    · rw [fetchInstantly, none]
      rfl
    · exact (other file).elim
    · exact (other file).elim
  | noPath file nowhere =>
    rcases path_cases id with ⟨other, -⟩ | ⟨-, none⟩ | ⟨-, path, at_⟩
    · exact (other file).elim
    · rw [fetchInstantly, none]
      rfl
    · exact (nowhere path at_).elim
  | missing path fault at_ h kind =>
    rw [fetchInstantly_path at_, text_unread h, Except.mapError, ofHost_io,
      if_pos (FaultKind.code_missing.mpr kind)]
  | unread path fault at_ h kind =>
    rw [fetchInstantly_path at_, text_unread h, Except.mapError, ofHost_io,
      if_neg (FaultKind.code_missing.not.mpr kind)]
  | notText path bytes fault at_ h other malformed =>
    rw [fetchInstantly_path at_, text_malformed h malformed, Except.mapError, ofHost_io,
      if_neg (by decide)]
    rfl
  | text path text at_ h =>
    rw [fetchInstantly_path at_, text_ok h]
    rfl

theorem finds_iff : Finds read id found ↔ found = read.fetchInstantly id :=
  ⟨eq_of_finds, fun he => he ▸ finds_fetchInstantly read id⟩

theorem fetch_eq (read : SystemRead) (id : ModuleId) : read.fetch id = read.fetchInstantly id := by
  unfold fetch fetchInstantly
  cases id.toFilePath with
  | error failure => rfl
  | ok path =>
    simp only [Except.bind]
    cases read.text path <;> rfl

theorem source_eq_ok {text : String} :
    read.source id = .ok text ↔ read.fetchInstantly id = .ok text := by
  unfold source fetchInstantly ModuleId.hostPath
  cases id.toFilePath with
  | error failure => simp [Except.bind, Except.mapError]
  | ok path =>
    simp only [Except.bind, Except.mapError]
    cases read.text path <;> simp

theorem lookup_initial {P : Type} (p : P) (id : ModuleId) :
    (SchemeTable.empty.register "file" p).lookup id.scheme =
      if id.scheme = "file" then some p else none := by
  have lower : Ascii.lowerString "file" = "file" := by decide
  simp only [SchemeTable.register, lower, Association.lookup_cons]
  rfl

/-- A table in which files have the scheme of files answers like the files themselves. -/
theorem ask_initial {P X : Type} (p : P) (refuse : LoadFailure → X) (question : P → ModuleId → X)
    (h : id.scheme ≠ "file" → question p id = refuse (.unsupportedScheme id.text id.scheme)) :
    (SchemeTable.empty.register "file" p).ask refuse question id = question p id := by
  have looked := lookup_initial p id
  by_cases file : id.scheme = "file"
  · rw [if_pos file] at looked
    exact SchemeTable.ask_some looked refuse question
  · rw [if_neg file] at looked
    rw [SchemeTable.ask_none looked, h file]

theorem fetchInstantly_other (h : id.scheme ≠ "file") :
    read.fetchInstantly id = .error (.unsupportedScheme id.text id.scheme) :=
  (eq_of_finds (.otherScheme h)).symm

end SystemRead

namespace Sources

variable {s : Sources}

theorem fetch_files (h : s.provider = .single .files) (id : ModuleId) :
    s.fetch id = (SystemRead.fetchInstantly s.files.read id, []) ∧
      s.fetchInstantly id = (SystemRead.fetchInstantly s.files.read id, []) := by
  obtain ⟨provider, memory, files⟩ := s
  cases h
  exact ⟨rfl, rfl⟩

theorem fetch_initial (h : s.provider = .table Providers.initial) (id : ModuleId) :
    s.fetch id = (SystemRead.fetchInstantly s.files.read id, []) ∧
      s.fetchInstantly id = (SystemRead.fetchInstantly s.files.read id, []) := by
  obtain ⟨provider, memory, files⟩ := s
  cases h
  have direct := fetch_files (s := ⟨.single .files, memory, files⟩) rfl id
  constructor
  · refine (fetch_table ⟨.single .files, memory, files⟩ Providers.initial id).trans ?_
    refine (SystemRead.ask_initial _ _ _ fun other => ?_).trans direct.1
    exact direct.1.trans (congrArg (·, []) (SystemRead.fetchInstantly_other other))
  · refine (fetchInstantly_table ⟨.single .files, memory, files⟩ Providers.initial id).trans ?_
    refine (SystemRead.ask_initial _ _ _ fun other => ?_).trans direct.2
    exact direct.2.trans (congrArg (·, []) (SystemRead.fetchInstantly_other other))

end Sources

namespace SystemRead

/-- For every system and every identifier the files and the table of the start find one and the same
thing, with a wait and at once, and the host reads a text exactly if it is that. The host's own
sources of local files find the same. -/
theorem reads_agree (read : SystemRead) (id : ModuleId) : ∃ found,
    (∀ other, Finds read id other ↔ other = found) ∧
    read.files.fetch id = found ∧ read.files.fetchInstantly id = found ∧
    read.initial.fetch id = found ∧ read.initial.fetchInstantly id = found ∧
    (∀ text, read.source id = .ok text ↔ found = .ok text) ∧
    ∀ s : Sources, s.files.read = read →
      s.provider = .single .files ∨ s.provider = .table Providers.initial →
      s.fetch id = (found, []) ∧ s.fetchInstantly id = (found, []) ∧
        s.files.readSource id = read.source id := by
  refine ⟨read.fetchInstantly id, fun other => finds_iff, read.fetch_eq id, rfl, ?_, ?_,
    fun text => source_eq_ok, ?_⟩
  · refine (ask_initial _ _ _ fun other => ?_).trans (read.fetch_eq id)
    exact (read.fetch_eq id).trans (fetchInstantly_other other)
  · exact ask_initial _ _ _ fetchInstantly_other
  · rintro s rfl (files | table)
    · obtain ⟨fetched, instantly⟩ := Sources.fetch_files files id
      exact ⟨fetched, instantly, rfl⟩
    · obtain ⟨fetched, instantly⟩ := Sources.fetch_initial table id
      exact ⟨fetched, instantly, rfl⟩

/-- Bytes that are no text are reported with their path by all who read them. -/
theorem malformed_file_read : ∃ (s : Sources) (id : ModuleId) (found : LoadResult String),
    s.provider = .table Providers.initial ∧ ModuleId.parse "file:///%61" = .ok id ∧
    s.files.read (NativePath.ofString "/a") = .ok [0x61, 0xC3] ∧ Finds s.files.read id found ∧
    found = .error (.io "file:///%61" "EILSEQ: /a: incomplete utf-8 byte sequence from index 1") ∧
    s.fetch id = (found, []) ∧ s.fetchInstantly id = (found, []) := by
  let s : Sources := ⟨.table Providers.initial, .empty, ⟨[([[0x61]], .file [0x61, 0xC3])]⟩⟩
  let id : ModuleId := ⟨Url.localFile (.rooted ["%61".toList])⟩
  obtain ⟨found, finds, -, -, -, -, -, sources⟩ := reads_agree s.files.read id
  obtain ⟨fetched, instantly, -⟩ := sources s rfl (.inr rfl)
  have seen : s.fetch id = (.error (.io "file:///%61"
      "EILSEQ: /a: incomplete utf-8 byte sequence from index 1"), []) := by
    decide +kernel
  exact ⟨s, id, found, rfl, by decide +kernel, by decide +kernel, (finds found).mpr rfl,
    congrArg Prod.fst (fetched.symm.trans seen), fetched, instantly⟩

end SystemRead

end ScriptHost
