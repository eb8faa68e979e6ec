import ScriptHost.Json.Basic
import ScriptHost.Number.Layout
import ScriptHost.Text.Quoted

/-!
# Naming an unwanted JSON value
-/

set_option autoImplicit false

namespace ScriptHost.Json

def numberKind (n : JsonNumber) : String :=
  match n with
  | .integer negative magnitude =>
    "integer `" ++ (if negative then "-" else "") ++ toString magnitude ++ "`"
  | .real .. => "floating point `" ++ FloatLayout.json.text n.toFloat ++ "`"

def kind : Json → String
  | .null => "null"
  | .bool b => if b then "boolean `true`" else "boolean `false`"
  | .number n => numberKind n
  | .string s => "string " ++ Quoted.quote s
  | .array _ => "sequence"
  | .object _ => "map"

def wrongType (found expected : String) : String := s!"invalid type: {found}, expected {expected}"

end ScriptHost.Json
