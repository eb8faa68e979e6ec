import ScriptHost.CommandLine.Report
import ScriptHost.Config.Layers
import ScriptHost.Engine.Runs
import ScriptHost.Host.Session

/-!
# Running from the command line

The arguments are read first, then the configuration of the working directory;
an entry mode among the arguments goes before the configured one. The module
sees the name of the program, the script and what follows it.
-/

set_option autoImplicit false

namespace ScriptHost.CommandLine

structure Result where
  code : Nat
  output : Utf8.Bytes
  report : String
  deriving DecidableEq, Repr

structure Surroundings where
  files : FileSystem
  dir : Except SystemFault NativePath
  env : Config.Variables

def programName : String := "zoe"

def success : Nat := 0

def failure : Nat := 1

def misuse : Nat := 2

def stopped : Stop → Result
  | .help => ⟨success, Utf8.encodeString helpText, ""⟩
  | .version => ⟨success, Utf8.encodeString versionText, ""⟩
  | .refused refusal => ⟨misuse, [], refusal.report⟩

def failed (output : Utf8.Bytes) (message : String) : Result := ⟨failure, output, failureReport message⟩

def Arguments.forModule (name : String) (a : Arguments) : List String :=
  name :: a.script.toList ++ a.rest

def Arguments.configure (a : Arguments) (config : Config) : Config :=
  match a.entryMode with
  | some mode => { config with entryMode := mode }
  | none => config

def unlimited : Nat := Nat.pow 2 64

def runModule (files : FileSystem) (config : Config) (view : HostView) : Result :=
  let sources : Sources := ⟨.table Providers.initial, .empty, files⟩
  let (state, seen) := Engine.runWithin unlimited (Engine.start config sources view) view
  let output := state.host.sink.content
  match seen.result with
  | some (.error f) => failed output f.message
  | _ => ⟨success, output, ""⟩

def runArguments (s : Surroundings) (name : String) (a : Arguments) : Result :=
  match Config.load s.files s.dir s.env with
  | .error f => failed [] f.message
  | .ok config => match Host.viewIn (a.forModule name) s.dir with
    | .error f => failed [] f.message
    | .ok view => runModule s.files (a.configure config) view

def run (s : Surroundings) (name : String) (arguments : List Utf8.Bytes) : Result :=
  match Arguments.parse arguments with
  | .error stop => stopped stop
  | .ok a => runArguments s name a

end ScriptHost.CommandLine
