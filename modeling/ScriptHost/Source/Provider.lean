import ScriptHost.Source.File
import ScriptHost.Source.Memory
import ScriptHost.Source.Table

/-!
# Source providers

A store answers for identifiers, and a table sends each identifier to the
provider registered last for its scheme. So an identifier leads to one store,
which is asked the same way whether or not the asker can wait; a store that
has to be waited for refuses one that cannot.
-/

set_option autoImplicit false

namespace ScriptHost

inductive Store where
  /-- Modules in memory, with a label, and whether they are there at once. -/
  | memory (label : Option String) (isInstant : Bool)
  | files
  deriving DecidableEq, Repr

inductive Provider where
  | single (store : Store)
  | table (entries : List (String × Provider))

namespace Provider

mutual

def store? : Provider → ModuleId → LoadResult Store
  | .single store, _ => .ok store
  | .table entries, id => storeIn entries id

def storeIn : List (String × Provider) → ModuleId → LoadResult Store
  | [], id => .error (unsupported id)
  | (scheme, provider) :: rest, id =>
    if scheme = id.scheme then provider.store? id else storeIn rest id

end

end Provider

abbrev Providers := SchemeTable Provider

namespace Providers

def empty : Providers := []

/-- Register a provider for a scheme, in any case, in place of the one before. -/
def register (providers : Providers) (scheme : String) (provider : Provider) : Providers :=
  SchemeTable.register providers scheme provider

def initial : Providers := empty.register "file" (.single .files)

end Providers

/-- An identifier that a store in memory was asked for, and whether it had to answer at once. -/
structure Enquiry where
  id : ModuleId
  label : Option String
  isInstant : Bool
  deriving DecidableEq, Repr

structure Sources where
  provider : Provider
  memory : Memory
  files : FileSystem

namespace Sources

def read (s : Sources) (store : Store) (id : ModuleId) : LoadResult String :=
  match store with
  | .memory .. => s.memory.read id
  | .files => s.files.loadSource id

/-- Retrieve a source, with a wait if need be. -/
def fetch (s : Sources) (id : ModuleId) : LoadResult String × List Enquiry :=
  match s.provider.store? id with
  | .error failure => (.error failure, [])
  | .ok .files => (s.read .files id, [])
  | .ok (.memory label isInstant) => (s.read (.memory label isInstant) id, [⟨id, label, false⟩])

/-- Retrieve a source without a wait. -/
def fetchInstantly (s : Sources) (id : ModuleId) : LoadResult String × List Enquiry :=
  match s.provider.store? id with
  | .error failure => (.error failure, [])
  | .ok .files => (s.read .files id, [])
  | .ok (.memory label true) => (s.read (.memory label true) id, [⟨id, label, true⟩])
  | .ok (.memory _ false) => (.error (Provider.unsupported id), [])

end Sources

end ScriptHost
