import ScriptHost.CommandLine.Run

/-!
# The program

The files below the working directory are read once; the run itself only
computes what it writes.
-/

set_option autoImplicit false

open ScriptHost

def readNode (fs : FileSystem) (path : String) (isDirectory : Bool) (content : ByteArray) :
    FileSystem :=
  fs.insert (NativePath.ofString path).components
    (if isDirectory then .directory else .file content.toList)

def readVariable (name : String) : IO (Option Utf8.Bytes) := do
  return (← IO.getEnv name).map Utf8.encodeString

def readFiles : IO (FileSystem × NativePath) := do
  let dir ← IO.currentDir
  let mut fs := readNode .empty dir.toString true .empty
  for path in ← dir.walkDir do
    if ← path.isDir then fs := readNode fs path.toString true .empty
    else fs := readNode fs path.toString false (← IO.FS.readBinFile path)
  return (fs, NativePath.ofString dir.toString)

def main (args : List String) : IO UInt32 := do
  let (files, dir) ← readFiles
  let env : Config.Variables :=
    ⟨← readVariable "ZOE_ENTRY_MODE", ← readVariable "ZOE_RUNTIME_NAME"⟩
  let result := CommandLine.run ⟨files, .ok dir, env⟩ CommandLine.programName
    (args.map Utf8.encodeString)
  (← IO.getStdout).write (ByteArray.mk result.output.toArray)
  if !result.report.isEmpty then IO.eprintln result.report
  return UInt32.ofNat result.code
