import ScriptHost.Module.FilePath
import ScriptHost.Native.FileSystem

/-!
# Sources in files

The source of a `file` identifier is the text of the file at its path. The host
and the loader read it in the same way and report failures each in its own
terms.
-/

set_option autoImplicit false

namespace ScriptHost

/-- What a system does with the path of a file: it brings the bytes or fails. -/
abbrev SystemRead := NativePath → Except SystemFault Utf8.Bytes

def SystemRead.text (read : SystemRead) (path : NativePath) : HostResult String :=
  match read path with
  | .error fault => .error (.ofFault fault)
  | .ok bytes => match Utf8.decode bytes with
    | .ok text => .ok (String.ofList text)
    | .error fault => .error (.io FaultKind.invalidData.code s!"{path.shown}: {fault.message}")

def FileSystem.readText (fs : FileSystem) (path : NativePath) : HostResult String :=
  SystemRead.text fs.read path

/-- The path of an identifier for the host, which names a file or is refused. -/
def ModuleId.hostPath (id : ModuleId) : HostResult NativePath :=
  id.toFilePath.mapError fun _ => .notAFileUrl id.text

namespace FileSystem

def readSource (fs : FileSystem) (id : ModuleId) : HostResult String :=
  id.hostPath.bind fs.readText

def loadSource (fs : FileSystem) (id : ModuleId) : LoadResult String :=
  id.toFilePath.bind fun path => (fs.readText path).mapError (.ofHost id.text)

end FileSystem

end ScriptHost
