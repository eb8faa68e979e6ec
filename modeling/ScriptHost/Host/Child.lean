import ScriptHost.Host.Shell
import ScriptHost.Native.FileSystem
import ScriptHost.Failure

/-!
# Child programs

What a system does with a command is a parameter. The system here has a few
programs installed: a command without a slash names one of them, one with a
slash the path of a file. Files of the file system are not executable.
-/

set_option autoImplicit false

namespace ScriptHost

/-- How a child ended: its status, or none if a signal ended it. -/
structure ChildExit where
  code : Option Nat
  deriving DecidableEq, Repr

/-- A child that was started: its number, unless it ended before that was read, and what waiting
for its end brings. -/
structure StartedChild where
  number : Option Nat
  ended : Except SystemFault ChildExit

/-- What a system does with a command and its arguments in a directory. -/
abbrev SystemStart := NativePath → String → List String → Except SystemFault StartedChild

def SystemStart.endedUnread : String := "child exited before its id was read"

/-- The number of a child and how it ends, or why it did not start. -/
def SystemStart.child (system : SystemStart) (dir : NativePath) (command : String)
    (args : List String) : HostResult (Nat × HostResult ChildExit) :=
  match system dir command args with
  | .error fault => .error (.spawn command fault.message)
  | .ok ⟨none, _⟩ => .error (.spawn command endedUnread)
  | .ok ⟨some number, ended⟩ => .ok (number, ended.mapError .ofFault)

namespace ChildExit

def isSuccess (exit : ChildExit) : Bool := exit.code = some 0

def ofEnding : Shell.Ending → ChildExit
  | .status n => ⟨some n⟩
  | .signal => ⟨none⟩

end ChildExit

namespace Child

def installed? (name : String) (args : List String) : Option ChildExit :=
  match name with
  | "true" => some ⟨some 0⟩
  | "false" => some ⟨some 1⟩
  | "test" => some ⟨some (Shell.test args)⟩
  | "sh" => some (match args with
    | "-c" :: line :: rest => .ofEnding (Shell.runLine (if rest.isEmpty then ["sh"] else rest) line)
    | _ => ⟨some 0⟩)
  | _ => none

def programDirectories : List String := ["/bin/", "/usr/bin/"]

def installedName? (command : String) : Option String :=
  programDirectories.findSome? fun dir =>
    if dir.toList.isPrefixOf command.toList then
      some (String.ofList (command.toList.drop dir.length))
    else none

def nulInText : SystemFault := ⟨.invalidInput, "nul byte found in provided data"⟩

def refusal (fs : FileSystem) (path : NativePath) : SystemFault :=
  match fs.find path with
  | .error fault => fault
  | .ok _ => SystemFault.ofNumber 13

def number : Nat := 1

def started (exit : ChildExit) : StartedChild := ⟨some number, .ok exit⟩

def startAt (fs : FileSystem) (dir : NativePath) (command : String) (args : List String) :
    Except SystemFault StartedChild :=
  match (installedName? command).bind (installed? · args) with
  | some exit => .ok (started exit)
  | none => .error (refusal fs (dir.join (NativePath.ofString command)))

def start (fs : FileSystem) : SystemStart := fun dir command args =>
  if (command :: args).any (·.toList.contains '\x00') then .error nulInText
  else if command.toList.contains '/' then startAt fs dir command args
  else match installed? command args with
    | some exit => .ok (started exit)
    | none => .error .missing

end Child

end ScriptHost
