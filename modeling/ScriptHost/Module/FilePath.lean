import ScriptHost.Module.Id
import ScriptHost.Native.Path

/-!
# File paths and identifiers

A path becomes a `file` identifier by writing each component as a segment, and
an identifier of a local file becomes a path by decoding its segments. Going
through an identifier also removes single and double dots.
-/

set_option autoImplicit false

namespace ScriptHost.ModuleId

def segmentOf (component : Utf8.Bytes) : List Char := Percent.encodeBytes .pathSegment component

def fileText (path : NativePath) : List Char :=
  "file://".toList ++ match path.components with
    | [] => ['/']
    | components => Url.segmentsText (components.map segmentOf)

def ofAbsolutePath (path : NativePath) : Except LoadFailure ModuleId :=
  parse (String.ofList (fileText path))

def directoryText (path : NativePath) : List Char :=
  let text := fileText path
  if text.getLast? = some '/' then text else text ++ ['/']

def ofDirectoryPath (path : NativePath) : Except LoadFailure ModuleId :=
  if path.isAbsolute then parse (String.ofList (directoryText path))
  else .error (.invalidSpecifier path.shown "not an absolute path")

def isDriveByte (b : UInt8) : Bool := b = 0x3A || b = 0x7C

/-- A path that ends in a drive letter names the drive's root. -/
def closeDrive (path : NativePath) : NativePath :=
  match path.reverse with
  | mark :: letter :: _ :: _ =>
    if isDriveByte mark && Ascii.isAlpha (Char.ofNat letter.toNat) then path ++ [NativePath.slash]
    else path
  | _ => path

def segmentBytes (segments : List Url.Segment) : NativePath :=
  segments.flatMap fun s => NativePath.slash :: Percent.decode s

def toFilePath (id : ModuleId) : Except LoadFailure NativePath :=
  if !id.isFile then .error (.unsupportedScheme id.text id.scheme)
  else match id.url.host? with
    | some _ => .error (.invalidSpecifier id.text "not a local file URL")
    | none => .ok (closeDrive (segmentBytes id.url.path.segments))

def directoryOf (base : ModuleId) : Except LoadFailure NativePath :=
  base.toFilePath.map fun path =>
    if base.isDirectory || path.components.isEmpty then path else path.parent

/-- The identifier of the file that a path names in the module `base`. -/
def resolveFilePath (path : String) (base : ModuleId) : Except LoadFailure ModuleId :=
  if Blank.isBlankText path then .error (.invalidSpecifier path "empty path")
  else
    let native := NativePath.ofString path
    if native.isAbsolute then ofAbsolutePath native
    else match base.directoryOf with
      | .error failure => .error failure
      | .ok dir => ofAbsolutePath (dir.join native)

end ScriptHost.ModuleId
