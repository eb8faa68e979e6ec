import ScriptHost.Config.Basic
import ScriptHost.Module.FilePath

/-!
# Running an entry module

A run loads the module that the second argument names and calls its `main` with
what the entry mode grants. Without a second argument it writes the usage text
and loads nothing.
-/

set_option autoImplicit false

namespace ScriptHost

inductive RunOutcome where
  | usage
  | completed (module : ModuleId) (isInvoked : Bool)
  deriving DecidableEq, Repr

abbrev RunResult := LoadResult RunOutcome

inductive Opening where
  | usage (text : String)
  | ended (result : RunResult)
  | load (id : ModuleId)

structure HostView where
  cwd : ModuleId
  args : List String
  deriving DecidableEq, Repr

inductive EntryArgument where
  | native (view : HostView)
  | reduced (view : HostView)
  | nothing
  deriving DecidableEq, Repr

namespace EntryArgument

def view? : EntryArgument → Option HostView
  | .native view => some view
  | .reduced view => some view
  | .nothing => none

def isNative : EntryArgument → Bool
  | .native _ => true
  | _ => false

end EntryArgument

def EntryMode.argument (mode : EntryMode) (view host : HostView) : EntryArgument :=
  match mode with
  | .raw => .native host
  | .curated => .reduced view
  | .bare => .nothing

namespace Dispatch

def opening (config : Config) (view : HostView) : Opening :=
  match view.args[1]? with
  | none => .usage config.usage
  | some target => match ModuleId.resolveFilePath target view.cwd with
    | .error failure => .ended (.error failure)
    | .ok id => .load id

inductive Continuation (M : Type) where
  | ended (result : RunResult)
  | call (main : M) (argument : EntryArgument)

def continuation {X M : Type} (config : Config) (view host : HostView) (id : ModuleId)
    (main? : X → Option M) (loaded : LoadResult X) : Continuation M :=
  match loaded with
  | .error failure => .ended (.error failure)
  | .ok exports => match main? exports with
    | none => .ended (.ok (.completed id false))
    | some main => .call main (config.entryMode.argument view host)

def closing (id : ModuleId) (ended : Except EngineFailure Unit) : RunResult :=
  match ended with
  | .ok _ => .ok (.completed id true)
  | .error failure => .error (failure.toLoad (.entryFailed id.text))

end Dispatch

end ScriptHost
