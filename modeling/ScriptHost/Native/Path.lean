import ScriptHost.Text.Utf8

/-!
# Native paths

A path is a sequence of bytes. Its components are the texts between slashes,
without the empty ones and single dots; double dots are kept, because only the
file system knows what they mean.
-/

set_option autoImplicit false

namespace ScriptHost

abbrev NativePath := Utf8.Bytes

namespace NativePath

def slash : UInt8 := 0x2F

def dot : Utf8.Bytes := [0x2E]

def doubleDot : Utf8.Bytes := [0x2E, 0x2E]

def ofString (text : String) : NativePath := Utf8.encodeString text

def shown (path : NativePath) : String := Utf8.textLossy path

def isAbsolute (path : NativePath) : Bool := path.head? = some slash

def components (path : NativePath) : List Utf8.Bytes :=
  (path.splitOn slash).filter fun c => !c.isEmpty && c ≠ dot

def ofComponents : List Utf8.Bytes → NativePath
  | [] => [slash]
  | [c] => slash :: c
  | c :: rest => slash :: c ++ ofComponents rest

/-- The directory that holds the last component; the root holds itself. -/
def parent (path : NativePath) : NativePath := ofComponents path.components.dropLast

/-- Go from a directory to a path, which may be absolute. -/
def join (dir path : NativePath) : NativePath :=
  if isAbsolute path then path
  else if dir.getLast? = some slash then dir ++ path
  else dir ++ slash :: path

end NativePath

end ScriptHost
