import ScriptHost.Source.File
import ScriptHost.Source.Table

/-!
# Reading sources from a system

The loader retrieves the source of a `file` identifier in two ways, with a wait
for a job that reads the file and at once, and the host reads it in its own
terms. All three ask the system, whatever it does with the path.
-/

set_option autoImplicit false

namespace ScriptHost.SystemRead

/-- What the loader makes of the end of a job that read a file. A job that breaks down has no
result. -/
def ofJob (id : ModuleId) : Except String (HostResult String) → LoadResult String
  | .ok (.ok source) => .ok source
  | .ok (.error failure) => .error (.ofHost id.text failure)
  | .error text => .error (.io id.text text)

def fetch (read : SystemRead) (id : ModuleId) : LoadResult String :=
  match id.toFilePath with
  | .error failure => .error failure
  | .ok path => ofJob id (.ok (read.text path))

def fetchInstantly (read : SystemRead) (id : ModuleId) : LoadResult String :=
  id.toFilePath.bind fun path => (read.text path).mapError (.ofHost id.text)

def source (read : SystemRead) (id : ModuleId) : HostResult String := id.hostPath.bind read.text

def files (read : SystemRead) : Retrieval (LoadResult String) (LoadResult String) where
  fetch := read.fetch
  fetchInstantly := read.fetchInstantly

def initial (read : SystemRead) : Retrieval (LoadResult String) (LoadResult String) :=
  (SchemeTable.empty.register "file" read.files).retrieval .error .error

end ScriptHost.SystemRead
