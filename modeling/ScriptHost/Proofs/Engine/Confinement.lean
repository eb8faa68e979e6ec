import ScriptHost.Proofs.Engine.MainArgument
import ScriptHost.Proofs.Engine.Scripts
import ScriptHost.Proofs.Engine.SecludedRuns

/-!
# Curated and bare runs

Under an entry mode that grants no host an engine stays tame through all its
runs, whatever hosts they had. So no run of it does anything to a host, and none
can tell one host from another.
-/

set_option autoImplicit false

namespace ScriptHost.Engine

variable {α : Type} {s t : State} {view : HostView} {host : NativeHost Nat} {limit : Nat}

/-- A run beside any host, which may have been in use before. -/
def runBeside (host : NativeHost Nat) (limit : Nat) (s : State) (view : HostView) :
    EStateM.Result Value State (Option RunResult) :=
  (runEntry view limit).run ((fresh s view).beside host [])

def resultIn : EStateM.Result Value State (Option α) → Option α
  | .ok result _ => result
  | .error .. => none

theorem runWithin_beside (duration : Nat) (s : State) (view : HostView) :
    let now := s.host.schedule.now
    let r := runBeside (.start view .empty now) (now + duration) s view
    (runWithin duration s view).1 = left r ∧ (runWithin duration s view).2.result = resultIn r := by
  intro now r
  refine ⟨runWithin_left duration s view, ?_⟩
  have hr : entryRun duration s view = r := rfl
  cases h : r with
  | ok result t => exact runWithin_result (hr.trans h)
  | error value t => exact runWithin_failed (hr.trans h)

section Setup

end Setup

namespace Ends

variable {Q : α → Prop} {code : Nat → Run (Option α)}

end Ends

section Tameness

end Tameness

namespace Intruder

def program : Json := .object [
  ("main", .string "sync"), ("main_body", .array [Script.print "mine"])]

def state : State := Script.stateOf .curated program

set_option maxRecDepth 100000 in
theorem failed :
    runFailure? (resultIn (runBeside (.start Rethrown.view .empty 0) 0 state Rethrown.view)) =
    some (.entryFailed "file:///app.js"
      "Error: not a function\n    at file:///app.js\n") := by
  decide +kernel

end Intruder

section Intruder

open Intruder

end Intruder

/-! A `main` that throws what it sees of its argument. -/

namespace Looking

def tell (name : String) : Json :=
  Rethrown.statement "throw" [("value", .object [("error", .object [("cat", .array [
    .object [("type", .object [("sys", .string name)])]])])])]

def state : State :=
  Script.stateOf .curated (.object [("main", .string "sync"), ("main_body", .array [tell "toString"])])

end Looking

section Looking

open Looking

end Looking

end ScriptHost.Engine
