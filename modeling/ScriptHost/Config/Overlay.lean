import ScriptHost.Config.Basic
import ScriptHost.Json.Kind
import ScriptHost.Json.Reader

/-!
# Overlaying a configuration

A JSON object overlays the fields it mentions, each with its last value. Either
all of them are acceptable and the overlay applies as a whole, or the first
unacceptable one is reported and nothing changes. Fields are checked in the
order of their names; unknown fields have no effect.
-/

set_option autoImplicit false

namespace ScriptHost.Config

open ScriptHost

def unknownVariant (s : String) : String :=
  s!"unknown variant `{s}`, expected one of `raw`, `curated`, `bare`"

def textOf (value : Json) : Except String String :=
  match value with
  | .string s => .ok s
  | value => .error (Json.wrongType value.kind "a string")

def modeNamed (s : String) : Except String EntryMode :=
  match EntryMode.ofName? s with
  | some mode => .ok mode
  | none => .error (unknownVariant s)

def oneKey : String := "invalid value: map, expected map with a single key"

/-- The distinct names of an object in order, with their last values. -/
def lastValues : List (String × Json) → List (String × Json)
  | [] => []
  | (name, value) :: rest =>
    if rest.any (·.1 = name) then lastValues rest else (name, value) :: lastValues rest

/-- A mode is its name, or an object with the name and no value. -/
def modeOf (value : Json) : Except String EntryMode :=
  match value with
  | .string s => modeNamed s
  | .object members => match lastValues members with
    | [(name, value)] => match modeNamed name with
      | .error text => .error text
      | .ok mode => match value with
        | .null => .ok mode
        | value => .error (Json.wrongType value.kind "unit")
    | _ => .error oneKey
  | value => .error (Json.wrongType value.kind "string or map")

/-- The new value of a field, or the current one if the object does not mention it. -/
def overlaid {α : Type} (members : List (String × Json)) (name : String)
    (read : Json → Except String α) (current : α) : Except String α :=
  match Json.lookup name members with
  | some value => read value
  | none => .ok current

def overlay (config : Config) (members : List (String × Json)) : Except String Config := do
  let description ← overlaid members "description" textOf config.description
  let entryMode ← overlaid members "entry_mode" modeOf config.entryMode
  let runtimeName ← overlaid members "runtime_name" textOf config.runtimeName
  return ⟨runtimeName, description, entryMode⟩

def notAnObject : String := "expected a JSON object"

def merge (config : Config) (text : String) : Except String Config :=
  match Json.parse text with
  | .error message => .error message
  | .ok (.object members) => config.overlay members
  | .ok _ => .error notAnObject

end ScriptHost.Config
