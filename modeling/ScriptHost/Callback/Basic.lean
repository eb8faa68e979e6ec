import ScriptHost.Failure

/-!
# Callbacks

A callback takes one result. It may be called again, which has no effect, and
it may be completed, which calls it and gives it up, or dropped.
-/

set_option autoImplicit false

namespace ScriptHost

inductive Callback where
  | waiting
  | spent
  | gone
  deriving DecidableEq, Repr

inductive CallbackUse (α : Type) where
  | call (result : HostResult α)
  | complete (result : HostResult α)
  | drop

namespace Callback

def use {α : Type} : Callback → CallbackUse α → Callback × Option (HostResult α)
  | .waiting, .call result => (.spent, some result)
  | .waiting, .complete result => (.gone, some result)
  | .spent, .call _ => (.spent, none)
  | .spent, .complete _ => (.gone, none)
  | .gone, _ => (.gone, none)
  | _, .drop => (.gone, none)

def isSpent? : Callback → Option Bool
  | .waiting => some false
  | .spent => some true
  | .gone => none

def inspect (spent : Bool) : String :=
  "Callback \x7b spent: " ++ (if spent then "true" else "false") ++ " \x7d"

def trace {α : Type} (callback : Callback) :
    List (CallbackUse α) → List (Callback × Option (HostResult α))
  | [] => []
  | u :: rest => callback.use u :: trace (callback.use u).1 rest

end Callback

end ScriptHost
