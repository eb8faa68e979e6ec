import ScriptHost.Native.Fault

/-!
# Failures

Every failure is a cause with the data that its text shows. Failures of loading
keep their cause through every layer: a host failure becomes a missing module or
a failed read, and an engine failure hands on the loading failure behind it.
-/

set_option autoImplicit false

namespace ScriptHost

instance decidableEqExcept {E A : Type} [DecidableEq E] [DecidableEq A] : DecidableEq (Except E A)
  | .ok a, .ok b => decidable_of_iff (a = b) ⟨congrArg _, Except.ok.inj⟩
  | .error a, .error b => decidable_of_iff (a = b) ⟨congrArg _, Except.error.inj⟩
  | .ok _, .error _ => isFalse nofun
  | .error _, .ok _ => isFalse nofun

inductive LoadFailure where
  | invalidSpecifier (specifier reason : String)
  | notFound (module : String)
  | io (module text : String)
  | unsupportedScheme (module scheme : String)
  | evaluation (text : String)
  | entryFailed (module text : String)
  deriving DecidableEq, Repr, Inhabited

def LoadFailure.message : LoadFailure → String
  | .invalidSpecifier specifier reason => s!"Invalid module specifier '{specifier}': {reason}"
  | .notFound module => s!"Cannot find module '{module}'"
  | .io module text => s!"Error reading module '{module}': {text}"
  | .unsupportedScheme module scheme => s!"Unsupported scheme '{scheme}' in module '{module}'"
  | .evaluation text => text
  | .entryFailed module text => s!"Entry point of '{module}' failed: {text}"

abbrev LoadResult (α : Type) := Except LoadFailure α

inductive HostFailure where
  | io (code text : String)
  | badHandle (handle : String)
  | notAFileUrl (id : String)
  | callbackDropped
  | spawn (command text : String)
  deriving DecidableEq, Repr, Inhabited

def HostFailure.message : HostFailure → String
  | .io code text => s!"{code}: {text}"
  | .badHandle handle => s!"Bad handle: {handle}"
  | .notAFileUrl id => s!"Not a file URL: {id}"
  | .callbackDropped => "Host callback dropped before completion"
  | .spawn command text => s!"Failed to spawn '{command}': {text}"

abbrev HostResult (α : Type) := Except HostFailure α

def FaultKind.code : FaultKind → String
  | .notFound => "ENOENT"
  | .permissionDenied => "EACCES"
  | .alreadyExists => "EEXIST"
  | .invalidInput => "EINVAL"
  | .invalidData => "EILSEQ"
  | .notADirectory => "ENOTDIR"
  | .isADirectory => "EISDIR"
  | .interrupted => "EINTR"
  | _ => "EIO"

def HostFailure.ofFault (fault : SystemFault) : HostFailure := .io fault.kind.code fault.message

def LoadFailure.ofHost (module : String) : HostFailure → LoadFailure
  | .io code text =>
    if code = "ENOENT" then .notFound module else .io module (HostFailure.io code text).message
  | failure => .io module failure.message

inductive ConfigFailure where
  | read (path text : String)
  | parse (path text : String)
  deriving DecidableEq, Repr, Inhabited

def ConfigFailure.message : ConfigFailure → String
  | .read path text => s!"Cannot read config '{path}': {text}"
  | .parse path text => s!"Invalid config '{path}': {text}"

structure EngineFailure where
  message : String
  cause : Option LoadFailure
  deriving DecidableEq, Repr, Inhabited

namespace EngineFailure

def ofText (text : String) : EngineFailure := ⟨text, none⟩

def ofLoad (failure : LoadFailure) : EngineFailure := ⟨failure.message, some failure⟩

def toLoad (failure : EngineFailure) (otherwise : String → LoadFailure) : LoadFailure :=
  match failure.cause with
  | some cause => cause
  | none => otherwise failure.message

end EngineFailure

end ScriptHost
