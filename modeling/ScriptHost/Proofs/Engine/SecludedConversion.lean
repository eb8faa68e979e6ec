import Mathlib.Data.List.ReduceOption
import ScriptHost.Proofs.Engine.Conversion
import ScriptHost.Proofs.Engine.SecludedInstances

/-!
# The argument of `main` apart from the host

A setter is a function of the program, so the making of the argument is code of the
program where no functions of a host are granted, and it is the same beside any.
-/

set_option autoImplicit false

namespace ScriptHost.Engine

variable {α : Type}

section Calls

end Calls

section Properties

variable {name : String} {value : Value}

end Properties

end ScriptHost.Engine
