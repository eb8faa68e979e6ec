import ScriptHost.CommandLine.Run
import ScriptHost.Proofs.Text.Ascii

/-!
# The layers of a configuration

Each source of a configuration is a layer that supplies some of the fields: the
file those that its object mentions, the environment a mode and a name if they are
usable, the command line a mode. Applying a source puts its layer over what is
there, so in the end every field is that of the topmost layer that supplies it. A
file that cannot be read or merged ends the loading before the layers above it are
looked at.
-/

set_option autoImplicit false

namespace ScriptHost

namespace Config

/-- The fields that a source supplies. -/
structure Layer where
  runtimeName : Option String
  description : Option String
  entryMode : Option EntryMode
  deriving DecidableEq, Repr

namespace Layer

variable {name : String} {mode : EntryMode} {value : Option Utf8.Bytes}

def empty : Layer := ⟨none, none, none⟩

def applyTo (layer : Layer) (config : Config) : Config :=
  ⟨layer.runtimeName.getD config.runtimeName, layer.description.getD config.description,
    layer.entryMode.getD config.entryMode⟩

def topmost (layers : List Layer) : Config :=
  ⟨(layers.findSome? runtimeName).getD initial.runtimeName,
    (layers.findSome? description).getD initial.description,
    (layers.findSome? entryMode).getD initial.entryMode⟩

theorem applyTo_topmost (layer : Layer) (layers : List Layer) :
    layer.applyTo (topmost layers) = topmost (layer :: layers) := by
  obtain ⟨name, description, mode⟩ := layer
  cases name <;> cases description <;> cases mode <;> rfl

/-- Putting layers over the defaults, the lowest first, leaves the fields of the topmost ones. -/
theorem foldr_applyTo (layers : List Layer) : layers.foldr applyTo initial = topmost layers := by
  induction layers with
  | nil => rfl
  | cons layer layers ih => rw [List.foldr_cons, ih, applyTo_topmost]

section Environment

def usableMode (value : Option Utf8.Bytes) : Option EntryMode :=
  (value.bind Utf8.text?).bind fun text =>
    EntryMode.ofName? (Ascii.lowerString (Blank.trimString text))

def usableName (value : Option Utf8.Bytes) : Option String :=
  (value.bind Utf8.text?).filter (!Blank.isBlankText ·)

def ofVariables (env : Variables) : Layer :=
  ⟨usableName env.runtimeName, none, usableMode env.entryMode⟩

theorem ofName?_eq_some_iff {text : String} :
    EntryMode.ofName? text = some mode ↔ text = mode.name := by
  constructor
  · intro h
    unfold EntryMode.ofName? at h
    split at h
    · cases h
      assumption
    split at h
    · cases h
      assumption
    split at h
    · cases h
      assumption
    · cases h
  · rintro rfl
    cases mode <;> rfl

theorem bind_text?_eq_some_iff {text : String} :
    value.bind Utf8.text? = some text ↔ value = some (Utf8.encodeString text) := by
  simp [Option.bind_eq_some_iff, Utf8.text?_eq_some_iff]

theorem usableMode_eq_some_iff : usableMode value = some mode ↔ ∃ text,
    value = some (Utf8.encodeString text) ∧
      Ascii.lowerString (Blank.trimString text) = mode.name := by
  rw [usableMode, Option.bind_eq_some_iff]
  simp only [bind_text?_eq_some_iff, ofName?_eq_some_iff]

theorem usableName_eq_some_iff : usableName value = some name ↔
    value = some (Utf8.encodeString name) ∧ Blank.isBlankText name = false := by
  simp [usableName, Option.filter_eq_some_iff, bind_text?_eq_some_iff]

theorem usableMode_eq_none (h : ∀ text, value = some (Utf8.encodeString text) →
    ∀ mode : EntryMode, Ascii.lowerString (Blank.trimString text) ≠ mode.name) :
    usableMode value = none := by
  rw [Option.eq_none_iff_forall_ne_some]
  intro mode he
  obtain ⟨text, set, named⟩ := usableMode_eq_some_iff.mp he
  exact h text set mode named

theorem usableName_eq_none (h : ∀ text, value = some (Utf8.encodeString text) →
    Blank.isBlankText text = true) : usableName value = none := by
  rw [Option.eq_none_iff_forall_ne_some]
  intro name he
  obtain ⟨set, shown⟩ := usableName_eq_some_iff.mp he
  rw [h name set] at shown
  cases shown

theorem overrideMode_eq (config : Config) (value : Option Utf8.Bytes) :
    config.overrideMode value =
      { config with entryMode := (usableMode value).getD config.entryMode } := by
  unfold overrideMode usableMode
  cases value.bind Utf8.text? with
  | none => rfl
  | some text =>
    simp only [EntryMode.parse, Option.bind_some]
    cases EntryMode.ofName? (Ascii.lowerString (Blank.trimString text)) <;> rfl

theorem overrideName_eq (config : Config) (value : Option Utf8.Bytes) :
    config.overrideName value =
      { config with runtimeName := (usableName value).getD config.runtimeName } := by
  unfold overrideName usableName
  cases value.bind Utf8.text? with
  | none => rfl
  | some text => cases hb : Blank.isBlankText text <;> simp [Option.filter, hb]

theorem override_eq_applyTo (config : Config) (env : Variables) :
    config.override env = (ofVariables env).applyTo config := by
  rw [override, overrideMode_eq, overrideName_eq]
  rfl

end Environment

section Documents

def supplied {α : Type} (members : List (String × Json)) (name : String)
    (read : Json → Except String α) : Except String (Option α) :=
  match Json.lookup name members with
  | some value => (read value).map some
  | none => .ok none

def ofMembers (members : List (String × Json)) : Except String Layer := do
  let description ← supplied members "description" textOf
  let entryMode ← supplied members "entry_mode" modeOf
  let runtimeName ← supplied members "runtime_name" textOf
  return ⟨runtimeName, description, entryMode⟩

def ofDocument (text : String) : Except String Layer :=
  match Json.parse text with
  | .error message => .error message
  | .ok (.object members) => ofMembers members
  | .ok _ => .error notAnObject

theorem overlaid_eq {α : Type} (members : List (String × Json)) (name : String)
    (read : Json → Except String α) (current : α) :
    overlaid members name read current = (supplied members name read).map (·.getD current) := by
  unfold overlaid supplied
  cases Json.lookup name members with
  | none => rfl
  | some value =>
    show read value = ((read value).map some).map _
    cases read value <;> rfl

theorem overlay_eq_applyTo (config : Config) (members : List (String × Json)) :
    config.overlay members = (ofMembers members).map (·.applyTo config) := by
  rw [overlay, ofMembers, overlaid_eq, overlaid_eq, overlaid_eq]
  cases supplied members "description" textOf with
  | error message => rfl
  | ok description =>
    cases supplied members "entry_mode" modeOf with
    | error message => rfl
    | ok mode => cases supplied members "runtime_name" textOf <;> rfl

theorem merge_eq_applyTo (config : Config) (text : String) :
    config.merge text = (ofDocument text).map (·.applyTo config) := by
  unfold merge ofDocument
  cases Json.parse text with
  | error message => rfl
  | ok json =>
    cases json
    case object members => exact overlay_eq_applyTo config members
    all_goals rfl

end Documents

section Files

/-- What the file at a path supplies, or why nothing is loaded. -/
inductive OfFile (fs : FileSystem) (path : NativePath) : Except ConfigFailure Layer → Prop
  | absent (h : fs.contains path = false) : OfFile fs path (.ok empty)
  | unread (fault : SystemFault) (there : fs.contains path = true)
      (h : fs.read path = .error fault) :
    OfFile fs path (.error (.read path.shown fault.message))
  | notText (bytes : Utf8.Bytes) (h : fs.read path = .ok bytes)
      (other : ∀ text, bytes ≠ Utf8.encodeString text) :
    OfFile fs path (.error (.read path.shown "stream did not contain valid UTF-8"))
  | unmerged (text message : String) (h : fs.read path = .ok (Utf8.encodeString text))
      (refused : ofDocument text = .error message) :
    OfFile fs path (.error (.parse path.shown message))
  | merged (text : String) (layer : Layer) (h : fs.read path = .ok (Utf8.encodeString text))
      (taken : ofDocument text = .ok layer) : OfFile fs path (.ok layer)

variable {fs : FileSystem} {path dir : NativePath} {found : Except ConfigFailure Layer}

theorem contains_of_read {bytes : Utf8.Bytes} (h : fs.read path = .ok bytes) :
    fs.contains path = true := by
  unfold FileSystem.read at h
  unfold FileSystem.contains
  cases found : fs.find path with
  | error fault =>
    rw [found] at h
    cases h
  | ok node => rfl

theorem exists_ofFile (fs : FileSystem) (path : NativePath) : ∃ found, OfFile fs path found := by
  cases there : fs.contains path with
  | false => exact ⟨_, .absent there⟩
  | true =>
    cases read : fs.read path with
    | error fault => exact ⟨_, .unread fault there read⟩
    | ok bytes =>
      cases decoded : Utf8.text? bytes with
      | none =>
        refine ⟨_, .notText bytes read fun text he => ?_⟩
        rw [Utf8.text?_eq_some_iff.mpr he] at decoded
        cases decoded
      | some text =>
        rw [Utf8.text?_eq_some_iff.mp decoded] at read
        cases taken : ofDocument text with
        | error message => exact ⟨_, .unmerged text message read taken⟩
        | ok layer => exact ⟨_, .merged text layer read taken⟩

theorem ofFile_absent (h : OfFile fs path found) (there : fs.contains path = false) :
    found = .ok empty := by
  have unread {bytes : Utf8.Bytes} (read : fs.read path = .ok bytes) : False := by
    rw [contains_of_read read] at there
    cases there
  cases h with
  | absent => rfl
  | unread fault other =>
    rw [other] at there
    cases there
  | notText bytes read => exact (unread read).elim
  | unmerged text message read => exact (unread read).elim
  | merged text layer read => exact (unread read).elim

theorem mergeFile_eq_applyTo (config : Config) (h : OfFile fs path found)
    (there : fs.contains path = true) :
    config.mergeFile fs path = found.map (·.applyTo config) := by
  unfold mergeFile
  cases h with
  | absent h =>
    rw [h] at there
    cases there
  | unread fault _ h =>
    rw [h]
    rfl
  | notText bytes h other =>
    have decoded : Utf8.text? bytes = none := by
      rw [Option.eq_none_iff_forall_ne_some]
      exact fun text he => other text (Utf8.text?_eq_some_iff.mp he)
    simp only [h, decoded]
    rfl
  | unmerged text message h refused =>
    simp only [h, Utf8.text?_encodeString, merge_eq_applyTo, refused]
    rfl
  | merged text layer h taken =>
    simp only [h, Utf8.text?_encodeString, merge_eq_applyTo, taken]
    rfl

theorem load_eq_applyTo (h : OfFile fs (dir.join (NativePath.ofString fileName)) found)
    (env : Variables) : load fs (.ok dir) env =
      found.map fun file => (ofVariables env).applyTo (file.applyTo initial) := by
  rw [load, loadIn]
  cases there : fs.contains (dir.join (NativePath.ofString fileName)) with
  | false =>
    rw [ofFile_absent h there, override_eq_applyTo]
    rfl
  | true =>
    rw [if_pos rfl, mergeFile_eq_applyTo initial h there]
    cases found with
    | error failure => rfl
    | ok file => exact congrArg Except.ok (override_eq_applyTo _ env)

end Files

end Layer

end Config

namespace CommandLine

open Config Config.Layer

def Arguments.layer (a : Arguments) : Layer := ⟨none, none, a.entryMode⟩

theorem Arguments.configure_eq_applyTo (a : Arguments) (config : Config) :
    a.configure config = a.layer.applyTo config := by
  unfold Arguments.configure Arguments.layer
  cases a.entryMode <;> rfl

theorem load_configure {fs : FileSystem} {dir : NativePath} {found : Except ConfigFailure Layer}
    (h : OfFile fs (dir.join (NativePath.ofString fileName)) found) (env : Variables)
    (a : Arguments) : (Config.load fs (.ok dir) env).map a.configure =
      found.map fun file => topmost [a.layer, ofVariables env, file] := by
  rw [load_eq_applyTo h]
  cases found with
  | error failure => rfl
  | ok file =>
    have layers := foldr_applyTo [a.layer, ofVariables env, file]
    rw [List.foldr_cons, List.foldr_cons, List.foldr_cons, List.foldr_nil] at layers
    exact congrArg Except.ok ((a.configure_eq_applyTo _).trans layers)

/-- A run in a directory with the configuration that was loaded, if it was. -/
def runConfigured (fs : FileSystem) (dir : NativePath) (name : String) (a : Arguments)
    (loaded : Except ConfigFailure Config) : Result :=
  match loaded with
  | .error f => failed [] f.message
  | .ok config => match Host.viewIn (a.forModule name) (.ok dir) with
    | .error f => failed [] f.message
    | .ok view => runModule fs config view

theorem runArguments_eq (fs : FileSystem) (dir : NativePath) (env : Variables) (name : String)
    (a : Arguments) : runArguments ⟨fs, .ok dir, env⟩ name a =
      runConfigured fs dir name a ((Config.load fs (.ok dir) env).map a.configure) := by
  unfold runArguments
  simp only
  cases Config.load fs (.ok dir) env <;> rfl

/-- A file that is there but cannot be read or merged ends the loading with its path. Otherwise
every field is that of the topmost layer that supplies it, and a variable that is not usable
counts as one that is not set. -/
theorem topmost_layers_loaded (fs : FileSystem) (dir : NativePath) : ∃ found,
    OfFile fs (dir.join (NativePath.ofString fileName)) found ∧
      ∀ (env : Variables) (a : Arguments),
        (Config.load fs (.ok dir) env).map a.configure =
          (found.map fun file => topmost [a.layer, ofVariables env, file]) ∧
        (∀ name, runArguments ⟨fs, .ok dir, env⟩ name a = runConfigured fs dir name a
          (found.map fun file => topmost [a.layer, ofVariables env, file])) ∧
        ((∀ text, env.entryMode = some (Utf8.encodeString text) →
            ∀ mode : EntryMode, Ascii.lowerString (Blank.trimString text) ≠ mode.name) →
          Config.load fs (.ok dir) env = Config.load fs (.ok dir) { env with entryMode := none }) ∧
        ((∀ text, env.runtimeName = some (Utf8.encodeString text) →
            Blank.isBlankText text = true) →
          Config.load fs (.ok dir) env =
            Config.load fs (.ok dir) { env with runtimeName := none }) := by
  obtain ⟨found, h⟩ := exists_ofFile fs (dir.join (NativePath.ofString fileName))
  refine ⟨found, h, fun env a => ⟨load_configure h env a, fun name => ?_, fun unusable => ?_,
    fun unusable => ?_⟩⟩
  · rw [runArguments_eq, load_configure h env a]
  · rw [load_eq_applyTo h, load_eq_applyTo h, ofVariables, ofVariables, usableMode_eq_none unusable]
    rfl
  · rw [load_eq_applyTo h, load_eq_applyTo h, ofVariables, ofVariables, usableName_eq_none unusable]
    rfl

/-- A mode in capitals is taken from the environment, and a blank name is not. -/
theorem blank_name_ignored : ∃ (fs : FileSystem) (dir : NativePath) (env : Variables)
    (a : Arguments), fs.read (dir.join (NativePath.ofString fileName)) = .ok (Utf8.encodeString
        "\x7b\"runtime_name\": \"own\", \"entry_mode\": \"raw\"\x7d") ∧
      env = ⟨some (Utf8.encodeString " BARE\n"), some (Utf8.encodeString " \t")⟩ ∧
      (∀ text, env.runtimeName = some (Utf8.encodeString text) → Blank.isBlankText text = true) ∧
      Config.load fs (.ok dir) env = Config.load fs (.ok dir) { env with runtimeName := none } ∧
      (Config.load fs (.ok dir) env).map a.configure =
        .ok ⟨"own", Config.initial.description, .bare⟩ := by
  let fs : FileSystem := ⟨[([Utf8.encodeString fileName], .file (Utf8.encodeString
    "\x7b\"runtime_name\": \"own\", \"entry_mode\": \"raw\"\x7d"))]⟩
  let dir : NativePath := NativePath.ofString "/"
  let env : Variables := ⟨some (Utf8.encodeString " BARE\n"), some (Utf8.encodeString " \t")⟩
  let a : Arguments := ⟨none, false, none, []⟩
  have blank : ∀ text, env.runtimeName = some (Utf8.encodeString text) →
      Blank.isBlankText text = true := by
    intro text set
    have same := Utf8.text?_eq_some_iff.mpr (Option.some.inj set)
    rw [Utf8.text?_encodeString] at same
    cases same
    decide
  obtain ⟨found, -, layers⟩ := topmost_layers_loaded fs dir
  exact ⟨fs, dir, env, a, by decide +kernel, rfl, blank, (layers env a).2.2.2 blank,
    by decide +kernel⟩

end CommandLine

end ScriptHost
