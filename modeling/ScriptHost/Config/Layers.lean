import ScriptHost.Config.Overlay
import ScriptHost.Failure
import ScriptHost.Native.FileSystem

/-!
# Layers of configuration

The defaults come first, then the file in the working directory, then the
environment, then a choice on the command line.
-/

set_option autoImplicit false

namespace ScriptHost.Config

structure Variables where
  entryMode : Option Utf8.Bytes
  runtimeName : Option Utf8.Bytes
  deriving DecidableEq, Repr

def Variables.none : Variables := ⟨Option.none, Option.none⟩

def overrideMode (config : Config) (value : Option Utf8.Bytes) : Config :=
  match value.bind Utf8.text? with
  | none => config
  | some text => match EntryMode.parse text with
    | .ok mode => { config with entryMode := mode }
    | .error _ => config

def overrideName (config : Config) (value : Option Utf8.Bytes) : Config :=
  match value.bind Utf8.text? with
  | none => config
  | some text => if Blank.isBlankText text then config else { config with runtimeName := text }

/-- Apply the environment. A value that is not text or not usable changes nothing. -/
def override (config : Config) (env : Variables) : Config :=
  (config.overrideMode env.entryMode).overrideName env.runtimeName

def fileName : String := "zoe.json"

def mergeFile (config : Config) (fs : FileSystem) (path : NativePath) :
    Except ConfigFailure Config :=
  match fs.read path with
  | .error fault => .error (.read path.shown fault.message)
  | .ok bytes => match Utf8.text? bytes with
    | none => .error (.read path.shown "stream did not contain valid UTF-8")
    | some text => (config.merge text).mapError (.parse path.shown)

def loadIn (fs : FileSystem) (dir : NativePath) (env : Variables) :
    Except ConfigFailure Config :=
  let path := dir.join (NativePath.ofString fileName)
  if fs.contains path then
    (initial.mergeFile fs path).map (·.override env)
  else .ok (initial.override env)

def load (fs : FileSystem) (dir : Except SystemFault NativePath) (env : Variables) :
    Except ConfigFailure Config :=
  match dir with
  | .error fault => .error (.read "." fault.message)
  | .ok dir => loadIn fs dir env

end ScriptHost.Config
