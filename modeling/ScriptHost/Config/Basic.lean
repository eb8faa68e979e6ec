import ScriptHost.Text.Ascii
import ScriptHost.Text.Blank

/-!
# The configuration

What a module's `main` receives, and the names shown in the usage text.
-/

set_option autoImplicit false

namespace ScriptHost

inductive EntryMode where
  | raw
  | curated
  | bare
  deriving DecidableEq, Repr, Inhabited

namespace EntryMode

def name : EntryMode → String
  | .raw => "raw"
  | .curated => "curated"
  | .bare => "bare"

def ofName? (s : String) : Option EntryMode :=
  if s = "raw" then some .raw
  else if s = "curated" then some .curated
  else if s = "bare" then some .bare
  else none

def unknownText (s : String) : String :=
  s!"unknown entry mode '{s}' (expected raw, curated or bare)"

/-- Read a mode as people write it: blanks around it and its case do not count. -/
def parse (s : String) : Except String EntryMode :=
  let wanted := Ascii.lowerString (Blank.trimString s)
  match ofName? wanted with
  | some mode => .ok mode
  | none => .error (unknownText wanted)

end EntryMode

structure Config where
  runtimeName : String
  description : String
  entryMode : EntryMode
  deriving DecidableEq, Repr

def version : String := "0.1.0"

namespace Config

def initial : Config := ⟨"zoe", "a small JavaScript host", .curated⟩

instance : Inhabited Config := ⟨initial⟩

def usage (config : Config) : String :=
  s!"{config.runtimeName} — {config.description}\n\nusage: {config.runtimeName} <filename>\n"

end Config

end ScriptHost
