import ScriptHost.Module.Id
import ScriptHost.Text.Ascii

/-!
# Tables of providers

A table has one provider for a scheme, the one registered last, and hands every
question about an identifier on to the provider of its scheme. It does not matter
what the providers are and what asking them comes to: an answer, a computation
that may have to wait, or one that leaves traces.
-/

set_option autoImplicit false

namespace ScriptHost

def Provider.unsupported (id : ModuleId) : LoadFailure := .unsupportedScheme id.text id.scheme

/-- The two ways to retrieve a source, with a wait and at once. -/
structure Retrieval (A B : Type) where
  fetch : ModuleId → A
  fetchInstantly : ModuleId → B

abbrev SchemeTable (P : Type) := List (String × P)

namespace SchemeTable

variable {P A B : Type}

def empty : SchemeTable P := []

/-- Register a provider for a scheme, in any case, in place of the one before. -/
def register (table : SchemeTable P) (scheme : String) (provider : P) : SchemeTable P :=
  let scheme := Ascii.lowerString scheme
  (scheme, provider) :: table.filter (·.1 ≠ scheme)

def provider (table : SchemeTable P) (id : ModuleId) : LoadResult P :=
  match table.lookup id.scheme with
  | some provider => .ok provider
  | none => .error (Provider.unsupported id)

/-- Ask the provider that answers for an identifier, if there is one. -/
def ask (table : SchemeTable P) (refuse : LoadFailure → A) (question : P → ModuleId → A)
    (id : ModuleId) : A :=
  match table.provider id with
  | .error failure => refuse failure
  | .ok provider => question provider id

def retrieval (table : SchemeTable (Retrieval A B)) (refuse : LoadFailure → A)
    (refuseInstantly : LoadFailure → B) : Retrieval A B where
  fetch := table.ask refuse (·.fetch)
  fetchInstantly := table.ask refuseInstantly (·.fetchInstantly)

end SchemeTable

end ScriptHost
