import ScriptHost.Failure
import ScriptHost.Url.Reference

/-!
# Module identifiers

A module is known by one absolute identifier without a fragment. Specifiers are
resolved against the identifier of the module that names them.
-/

set_option autoImplicit false

namespace ScriptHost

structure ModuleId where
  url : Url
  deriving DecidableEq, Repr

namespace ModuleId

def text (id : ModuleId) : String := id.url.toString

def scheme (id : ModuleId) : String := String.ofList id.url.scheme

def isDirectory (id : ModuleId) : Bool := id.url.isDirectory

def isFile (id : ModuleId) : Bool := id.url.isFile

instance : Inhabited ModuleId := ⟨⟨⟨[], none, .rooted [], none⟩⟩⟩

def parse (text : String) : Except LoadFailure ModuleId :=
  match Url.parse text with
  | .ok url => .ok ⟨url⟩
  | .error failure => .error (.invalidSpecifier text failure.message)

def resolve (specifier : String) (base : ModuleId) : Except LoadFailure ModuleId :=
  if Blank.isBlankText specifier then .error (.invalidSpecifier specifier "empty specifier")
  else if !base.url.canBeBase then
    .error (.invalidSpecifier specifier s!"'{base.text}' cannot be used as a base")
  else match Url.join base.url specifier with
    | .ok url => .ok ⟨url⟩
    | .error failure => .error (.invalidSpecifier specifier failure.message)

end ModuleId

end ScriptHost
