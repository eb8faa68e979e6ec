import ScriptHost.Engine.Instance
import ScriptHost.Proofs.Module.Fragments

/-!
# Names of imports

Between resolving an import and fetching its source, the identifier is only kept
as its text, and the text is read once more when the source is fetched and when
the module imports others. Reading it gives the identifier that was resolved, but
for one kind: the name of a file on a server whose path begins with a drive letter
leads to a local file.
-/

set_option autoImplicit false

namespace ScriptHost

namespace Url

variable {url : Url}

theorem hostedDrive_cases (h : url.hostedDrive = true) : ∃ host drive rest,
    url.host? = some host ∧ url.path = .rooted (drive :: rest) ∧ isDriveLetter drive = true ∧
      url.reread = { url with
        authority := some ⟨[], none, none⟩
        path := .rooted (writtenSegment true [] drive :: rest) } := by
  have whole := h
  simp only [hostedDrive, Bool.and_eq_true, Option.isSome_iff_exists] at h
  obtain ⟨⟨-, host, hh⟩, hd⟩ := h
  cases hp : url.path with
  | rootless text => simp [hp, Path.segments] at hd
  | rooted segments =>
    cases segments with
    | nil => simp [hp, Path.segments] at hd
    | cons drive rest =>
      refine ⟨host, drive, rest, hh, rfl, by simpa [hp, Path.segments] using hd, ?_⟩
      rw [reread, if_pos whole, onDrive, hp]

theorem writtenSegment_drive {drive : Segment} (h : isDriveLetter drive = true) :
    (writtenSegment true [] drive).length = drive.length := by
  unfold isDriveLetter at h
  split at h
  · rename_i a b
    simp [writtenSegment, isDriveLetter, h]
  · cases h

theorem reread_text (hw : url.IsWritten) (h : url.hostedDrive = true) :
    url.reread.text ≠ url.text := by
  obtain ⟨host, drive, rest, hh, hp, hd, he⟩ := hostedDrive_cases h
  have file : url.isFile = true := by
    simp only [hostedDrive, Bool.and_eq_true] at h
    exact h.1.1
  obtain ⟨host', segments, hu, named, -⟩ := IsFileBase.cases ⟨hw, file⟩
  rw [hu] at hh hp
  have same : host' = some host := hh
  have path : segments = drive :: rest := Path.rooted.inj hp
  have nonempty : host.text.length ≠ 0 := by simpa using (named host same).1.ne_nil
  rw [he, hu, same, path]
  intro ht
  have length := congrArg List.length ht
  simp only [Url.text, authorityText, Authority.text, hostText, portText, shield, Path.text,
    segmentsText, List.length_append, List.length_cons, List.length_nil,
    writtenSegment_drive hd] at length
  omega

end Url

namespace ModuleId

variable {id : ModuleId}

/-- What the text of an identifier is read as. -/
def reread (id : ModuleId) : ModuleId := ⟨id.url.reread⟩

theorem Obtained.parse_text (h : id.Obtained) : ModuleId.parse id.text = .ok id.reread := by
  have read := h.written.read none
  rw [ModuleId.parse, Url.parse, ModuleId.text, Url.toString, String.toList_ofList, read]
  rfl

theorem Obtained.resolve_text (h : id.Obtained) {base : ModuleId} (hb : base.url.canBeBase = true) :
    ModuleId.resolve id.text base = .ok id.reread := by
  have read := h.written.read (some base.url)
  have shown : Blank.isBlankText id.text = false := by
    obtain ⟨first, name, he, -⟩ := h.written.named.begins
    have hf := (Url.schemeChar_literal (h.written.named.chars first (by rw [he]; simp))).2
    simp [Blank.isBlankText, ModuleId.text, Url.toString, Url.text, he, hf]
  rw [ModuleId.resolve, shown, hb, Url.join, ModuleId.text, Url.toString, String.toList_ofList,
    read]
  rfl

end ModuleId

namespace Engine

variable {id : ModuleId} {base specifier name : String}

/-- A name is read as the identifier `read`: for itself, against a base, when its source is fetched,
and when its module imports others. -/
structure ReadsAs (name : String) (read : ModuleId) : Prop where
  parse : ModuleId.parse name = .ok read
  resolve : ∀ base : ModuleId, base.url.canBeBase = true → ModuleId.resolve name base = .ok read
  source : ∀ s : State, s.sourceOf name = s.sources.fetchInstantly read
  imports : ∀ specifier, resolution name specifier = (ModuleId.resolve specifier read).map (·.text)

theorem readsAs_reread (h : id.Obtained) : ReadsAs id.text id.reread := by
  have parse := h.parse_text
  refine ⟨parse, fun _ => h.resolve_text, fun s => ?_, fun specifier => ?_⟩
  · rw [State.sourceOf, parse]
  · rw [resolution, parse]
    rfl

theorem resolution_cases (h : resolution base specifier = .ok name) : ∃ asked id : ModuleId,
    ModuleId.parse base = .ok asked ∧ ModuleId.resolve specifier asked = .ok id ∧
      id.Obtained ∧ id.text = name := by
  obtain ⟨id, hr, rfl⟩ := ok_of_map h
  obtain ⟨asked, hb, hs⟩ := ok_of_bind hr
  exact ⟨asked, id, hb, hs, .resolve (.parse hb) hs, rfl⟩

/-- A name is the text of an identifier without a fragment, and leads back to it, unless it is the
name of a file on a server whose path begins with a drive letter: that leads to another identifier,
which has another text. -/
theorem names_read_back (name : String) :
    (∀ base specifier, resolution base specifier = .ok name → ∃ asked id : ModuleId,
      ModuleId.parse base = .ok asked ∧ ModuleId.resolve specifier asked = .ok id ∧
        id.Obtained ∧ id.text = name) ∧
    ∀ id : ModuleId, id.Obtained → id.text = name → '#' ∉ name.toList ∧
      ReadsAs name id.reread ∧ (id.url.hostedDrive = false → id.reread = id) ∧
      (id.url.hostedDrive = true → id.reread.text ≠ name) := by
  refine ⟨fun base specifier => resolution_cases, ?_⟩
  rintro id h rfl
  refine ⟨h.no_fragment, readsAs_reread h, fun plain => ?_, fun hosted he => ?_⟩
  · cases id
    exact congrArg ModuleId.mk (if_neg (by simp [plain]))
  · have text := Url.reread_text h.written hosted
    exact text (String.ofList_injective he)

/-- A module that is imported by a path with dots, a blank and a fragment. -/
theorem dotted_name_read_back : ∃ id : ModuleId,
    resolution "https://example.com/lib/app.js" "./../b c.js?x#y" =
        .ok "https://example.com/b%20c.js?x" ∧
      id.text = "https://example.com/b%20c.js?x" ∧
      ModuleId.parse "https://example.com/b%20c.js?x" = .ok id ∧
      resolution "https://example.com/b%20c.js?x" "./d.js" = .ok "https://example.com/d.js" := by
  have hr : resolution "https://example.com/lib/app.js" "./../b c.js?x#y" =
      .ok "https://example.com/b%20c.js?x" := by decide +kernel
  obtain ⟨named, read⟩ := names_read_back "https://example.com/b%20c.js?x"
  obtain ⟨asked, id, hb, hs, ho, ht⟩ := named _ _ hr
  obtain ⟨-, reads, same, -⟩ := read id ho ht
  have plain : id.url.hostedDrive = false := by
    have whole : ((ModuleId.parse "https://example.com/lib/app.js").bind
        (ModuleId.resolve "./../b c.js?x#y")).toOption.all (!·.url.hostedDrive) = true := by
      decide +kernel
    rw [hb] at whole
    change (ModuleId.resolve "./../b c.js?x#y" asked).toOption.all _ = true at whole
    rw [hs] at whole
    exact (Bool.not_eq_true' _).mp whole
  rw [same plain] at reads
  exact ⟨id, hr, ht, reads.parse, by decide +kernel⟩

/-- A server's file is resolved, and the local file is fetched. -/
theorem hosted_drive_lost : ∃ id drive : ModuleId,
    ModuleId.parse "file://host//C:/x.js" = .ok id ∧ id.text = "file://host/C:/x.js" ∧
      resolution "file:///work/" "file://host//C:/x.js" = .ok "file://host/C:/x.js" ∧
      ModuleId.parse "file://host/C:/x.js" = .ok drive ∧ drive.text = "file:///C:/x.js" ∧
      drive ≠ id := by
  refine ⟨⟨⟨Url.fileScheme, some ⟨[], some (.domain "host".toList), none⟩,
      .rooted ["C:".toList, "x.js".toList], none⟩⟩,
    ⟨Url.localFile (.rooted ["C:".toList, "x.js".toList])⟩, ?_⟩
  decide +kernel

end Engine

end ScriptHost
