import ScriptHost.Module.Id

/-!
# Sources in memory

Modules that are kept by the texts of their identifiers. Each has a source or
the failure that its retrieval ends with, and may stand behind a gate.
-/

set_option autoImplicit false

namespace ScriptHost

structure MemoryModule where
  answer : LoadResult String
  gate : Option String

structure Memory where
  modules : List (String × MemoryModule)

namespace Memory

def empty : Memory := ⟨[]⟩

def find? (m : Memory) (id : ModuleId) : Option MemoryModule := m.modules.lookup id.text

/-- Add a module or replace the one with its name. -/
def define (m : Memory) (name : String) (module : MemoryModule) : Memory :=
  ⟨m.modules.filter (·.1 ≠ name) ++ [(name, module)]⟩

def read (m : Memory) (id : ModuleId) : LoadResult String :=
  match m.find? id with
  | some module => module.answer
  | none => .error (.notFound id.text)

def gate? (m : Memory) (id : ModuleId) : Option String := (m.find? id).bind (·.gate)

end Memory

end ScriptHost
