import ScriptHost.Json.Reader
import ScriptHost.Program.Document
import ScriptHost.Program.Text

/-!
# Sources of programs

A source that is a JSON object is a program as a document; any other source is
read as text.
-/

set_option autoImplicit false

namespace ScriptHost.Program

def parse (source : String) : Except String Program :=
  match Json.parse source with
  | .ok (.object members) => .ok (ofDocument (Json.depthLimit + 1) (.object members))
  | _ => ofText source

end ScriptHost.Program
