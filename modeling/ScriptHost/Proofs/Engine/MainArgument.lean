import Mathlib.Data.List.ReduceOption
import ScriptHost.Proofs.Association
import ScriptHost.Proofs.Engine.Loop

/-!
# The argument of `main`

In curated form the working directory and the arguments of the run are all that is
set on it. Each of the two is there unless a setter took it, and all other names
are read as on any object.
-/

set_option autoImplicit false

namespace ScriptHost.Engine

section Sets

variable {α : Type} {takes : String → Prop}

theorem Sets.append {first second : List (String × α)} {kept others : List (Option (String × α))}
    (h : Sets takes first kept) (h' : Sets takes second others) :
    Sets takes (first ++ second) (kept ++ others) :=
  List.rel_append h h'

end Sets

section Granted

variable {s s' : State} {view : HostView}

end Granted

end ScriptHost.Engine
