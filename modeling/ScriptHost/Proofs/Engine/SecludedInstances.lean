import ScriptHost.Proofs.Association
import ScriptHost.Proofs.Engine.SecludedCode

/-!
# Imports and evaluations apart from the host

A module body stands outside every `main`, so it has no host to name, and
declaring, linking and visiting only follow the imports. A failure that an
evaluation keeps is a value that code threw.
-/

set_option autoImplicit false

namespace ScriptHost.Engine

variable {α : Type}

section Imports

variable {class_ message name complaint : String} {failure : LoadFailure} {Q : α → Prop}

end Imports

section Declarations

variable {key : Nat} {program : Program} {name : String}

end Declarations

section Linking

end Linking

section Evaluations

variable {key : Nat}

end Evaluations

section Threads

variable {key : Nat} {thread : Thread}

end Threads

end ScriptHost.Engine
