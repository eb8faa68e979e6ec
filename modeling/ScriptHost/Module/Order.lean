import ScriptHost.Module.Id

/-!
# The order of identifiers

Identifiers are ordered by their texts.
-/

set_option autoImplicit false

namespace ScriptHost.ModuleId

def isUpTo (a b : ModuleId) : Bool := a.text ≤ b.text

def sort (ids : List ModuleId) : List ModuleId := ids.mergeSort isUpTo

def distinct (ids : List ModuleId) : Nat := ids.eraseDups.length

end ScriptHost.ModuleId
