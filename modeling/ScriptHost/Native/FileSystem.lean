import ScriptHost.Native.Fault
import ScriptHost.Native.Path

/-!
# The file system

Files and directories below one root. Looking a path up goes from the root
component by component: an empty component or a single dot asks for a
directory, a double dot goes back, and a name has to be there.
-/

set_option autoImplicit false

namespace ScriptHost

abbrev FileName := Utf8.Bytes

inductive FileNode where
  | file (content : Utf8.Bytes)
  | directory
  deriving DecidableEq, Repr

/-- The nodes below the root by their names from the root on. -/
structure FileSystem where
  nodes : List (List FileName × FileNode)
  deriving Repr

namespace FileSystem

def empty : FileSystem := ⟨[]⟩

def node? (fs : FileSystem) (place : List FileName) : Option FileNode :=
  if place.isEmpty then some .directory else fs.nodes.lookup place

/-- Put a node in place, with the directories above it. -/
def insert (fs : FileSystem) (place : List FileName) (node : FileNode) : FileSystem :=
  let above := (List.range place.length).filterMap fun n =>
    if n = 0 || (fs.node? (place.take n)).isSome then none else some (place.take n, FileNode.directory)
  ⟨(fs.nodes.filter (·.1 ≠ place)) ++ above ++ [(place, node)]⟩

def remove (fs : FileSystem) (place : List FileName) : FileSystem :=
  ⟨fs.nodes.filter (!place.isPrefixOf ·.1)⟩

def longestName : Nat := 255

def longestPath : Nat := 4095

def nameTooLong : SystemFault := SystemFault.ofNumber 36

def follow (fs : FileSystem) (place : List FileName) :
    List FileName → Except SystemFault (List FileName × FileNode)
  | [] => match fs.node? place with
    | some node => .ok (place, node)
    | none => .error .missing
  | name :: rest => match fs.node? place with
    | none => .error .missing
    | some (.file _) => .error .notADirectory
    | some .directory =>
      if name.isEmpty || name = NativePath.dot then follow fs place rest
      else if name = NativePath.doubleDot then follow fs place.dropLast rest
      else if longestName < name.length then .error nameTooLong
      else match fs.node? (place ++ [name]) with
        | none => .error .missing
        | some _ => follow fs (place ++ [name]) rest

/-- The place and the node that an absolute path leads to. -/
def find (fs : FileSystem) (path : NativePath) :
    Except SystemFault (List FileName × FileNode) :=
  if path.contains 0 then .error .nulInPath
  else if path.isEmpty then .error .missing
  else if longestPath < path.length then .error nameTooLong
  else follow fs [] (path.splitOn NativePath.slash)

def contains (fs : FileSystem) (path : NativePath) : Bool := (fs.find path).isOk

def read (fs : FileSystem) (path : NativePath) : Except SystemFault Utf8.Bytes :=
  match fs.find path with
  | .error fault => .error fault
  | .ok (_, .directory) => .error .isADirectory
  | .ok (_, .file content) => .ok content

def nameBelow? (place : List FileName) (other : List FileName) : Option FileName :=
  if other.length = place.length + 1 && place.isPrefixOf other then other.getLast? else none

def namesBelow (fs : FileSystem) (place : List FileName) : List FileName :=
  fs.nodes.filterMap (nameBelow? place ·.1)

def nameLe : FileName → FileName → Bool
  | [], _ => true
  | _ :: _, [] => false
  | a :: r, b :: s => if a = b then nameLe r s else a < b

/-- The names in a directory in byte order. -/
def list (fs : FileSystem) (path : NativePath) : Except SystemFault (List FileName) :=
  match fs.find path with
  | .error fault => .error fault
  | .ok (_, .file _) => .error .notADirectory
  | .ok (place, .directory) => .ok ((fs.namesBelow place).mergeSort nameLe)

end FileSystem

end ScriptHost
