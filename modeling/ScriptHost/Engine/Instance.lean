import ScriptHost.Engine.Statement
import ScriptHost.Program.Source

/-!
# Module instances

An import is resolved against the module that asks, which gives a name. It finds
the earliest instance with that name or fetches the source that the name leads
to. A new instance is kept once all its imports are there. Linking binds imported
names; evaluation runs the bodies, those of the imports first, and an instance
whose body waits holds up those that import it.
-/

set_option autoImplicit false

namespace ScriptHost.Engine

def contextOf (name : String) : Context := ⟨name, none⟩

def remember (name : String) (failure : LoadFailure) : Run Unit :=
  modify fun s => { s with failure := some ⟨name, failure⟩ }

/-- A complaint about an import while no code runs. -/
def complaintValue (class_ message : String) : Run Value :=
  errorValue class_ (cut message) (some Value.noTrace) none

def complain {α : Type} (class_ message : String) : Run α := do
  throw (← complaintValue class_ message)

def failedImport {α : Type} (name : String) (failure : LoadFailure) (complaint : String) : Run α := do
  remember name failure
  let error ← complaintValue "ReferenceError" s!"{complaint}: {failure.message}"
  mark (.importFailed ⟨name, failure⟩ error)
  throw error

def resolution (base specifier : String) : LoadResult String :=
  ((ModuleId.parse base).bind (ModuleId.resolve specifier)).map (·.text)

def resolveImport (base specifier : String) : Run String := do
  match resolution base specifier with
  | .ok name => return name
  | .error failure =>
    failedImport specifier failure s!"Error resolving module '{specifier}' from '{base}'"

def State.sourceOf (s : State) (name : String) : LoadResult String × List Enquiry :=
  match ModuleId.parse name with
  | .ok id => s.sources.fetchInstantly id
  | .error failure => (.error failure, [])

def fetchImport (name : String) : Run String := do
  let (source, enquiries) := (← get).sourceOf name
  enquiries.forM fun enquiry => note (.enquired enquiry)
  match source with
  | .ok source => return source
  | .error failure => failedImport name failure s!"Error loading module '{name}'"

/-- The instance that an import names, declared if it is not there. -/
def importInstance (declare : String → String → Run Nat) (base specifier : String) : Run Nat := do
  let name ← resolveImport base specifier
  match (← get).instances.find? (·.name = name) with
  | some i => return i.key
  | none => declare name (← fetchImport name)

def moduleScope (key : Nat) (program : Program) : Run Scope := do
  let scope ← enter [] program.body
  if program.main.isSome then
    bind Program.mainName (some (.function (← issue) (.main key))) scope
  else return scope

def addInstance (name : String) (program : Program) : Run Nat := do
  let key ← issue
  let scope ← moduleScope key program
  modify fun s =>
    { s with instances := s.instances ++ [⟨key, name, program, scope, [], false, .fresh, []⟩] }
  return key

def removeInstance (key : Nat) : Run Unit :=
  modify fun s => { s with instances := s.instances.filter (·.key ≠ key) }

/-- Make an instance from a source, with all it imports, as deep as the fuel allows. -/
def declare : Nat → String → String → Run Nat
  | 0, name, _ => throwNew (contextOf name) "RangeError" "Maximum call stack size exceeded"
  | fuel + 1, name, source => do
    match Program.parse source with
    | .error complaint => throwNew (contextOf name) "SyntaxError" (cut complaint)
    | .ok program =>
      let key ← addInstance name program
      match ← attempted (program.imports.mapM fun i => importInstance (declare fuel) name i.specifier) with
      | .ok imports => do
        changeInstance key ({ · with imports })
        return key
      | .error value => do
        removeInstance key
        throw value

def importedBinding (name : String) (from_ : Instance) : Run Binding := do
  match from_.exportCell? name with
  | some cell => return ⟨cell, true⟩
  | none => complain "SyntaxError" s!"Could not find export '{name}' in module '{from_.name}'"

def bindImports (scope : Scope) : List (Import × Nat) → Run Scope
  | [] => return scope
  | (i, key) :: rest => do
    match i.binding, ← instance? key with
    | some (name, local_), some from_ =>
      bindImports ((local_, ← importedBinding name from_) :: scope) rest
    | _, _ => bindImports scope rest

/-- Link an instance and those it imports; an instance that cannot be linked stays as it was. -/
def link : Nat → Nat → Run Unit
  | 0, _ => return ()
  | fuel + 1, key => do
    match ← instance? key with
    | none => return ()
    | some i =>
      if i.isLinked then return ()
      changeInstance key ({ · with isLinked := true })
      let linked := do
        i.imports.forM (link fuel)
        bindImports i.scope (i.program.imports.zip i.imports)
      match ← attempted linked with
      | .ok scope => changeInstance key ({ · with scope })
      | .error value => do
        changeInstance key ({ · with isLinked := false })
        throw value

def park (key : Nat) (thread : Thread) (await : Await) (cell : Option Cell) (frames : List Frame) :
    Run Unit := do
  let promise := match await with
    | .promise p => some p
    | _ => none
  modify fun s =>
    { s with threads := (key, { thread with promise, cell, frames }) :: s.threads.filter (·.1 ≠ key) }
  match await with
  | .promise _ => return ()
  | .settled result => enqueue (.resume key result)
  | .load base specifier => enqueue (.load key base specifier)

def endMain (result : Except Value Unit) : Run Unit := modify fun s => { s with ended := some result }

def settled : Except Value Outcome → Except Value Unit
  | .ok _ => .ok ()
  | .error value => .error value

/-- Whether an instance holds up those that import it. -/
def isPending (key : Nat) : Run Bool := do
  match ← stageOf key with
  | .blocked | .running => return true
  | _ => return false

def failureOf? (key : Nat) : Run (Option Value) := do
  match ← stageOf key with
  | .failed value => return some value
  | _ => return none

def notify (key : Nat) (result : Except Value Unit) : Run Unit := do
  match ← instance? key with
  | none => return ()
  | some i =>
    changeInstance key ({ · with waiters := [] })
    i.waiters.forM fun thread => enqueue (.resume thread (result.map fun _ => .namespace key))

def conclude (key : Nat) (result : Except Value Unit) : Run Unit := do
  setStage key (match result with
    | .ok _ => .done
    | .error value => .failed value)
  notify key result

def startBody (key : Nat) (i : Instance) : Run Unit := do
  tell (.executed i.name key)
  let thread : Thread := ⟨.body key, contextOf i.name, none, none, []⟩
  match ← attempted (execBlock thread.context i.scope i.program.body) with
  | .ok (.waits await cell frames) => do
    setStage key .running
    park (← issue) thread await cell frames
  | result => conclude key (settled result)

/-- Start an instance unless an import failed or is not evaluated yet. -/
def startIfReady (key : Nat) : Run Unit := do
  match ← instance? key with
  | none => return ()
  | some i =>
    match (← i.imports.mapM failureOf?).findSome? id with
    | some value => conclude key (.error value)
    | none =>
      if (← i.imports.mapM isPending).any id then setStage key .blocked
      else startBody key i

/-- Evaluate an instance: its imports in order, then itself. -/
def visit : Nat → Nat → Run Unit
  | 0, _ => return ()
  | fuel + 1, key => do
    match ← instance? key with
    | none => return ()
    | some i => match i.stage with
      | .fresh => do
        setStage key .entering
        i.imports.forM fun other => do
          if (← (i.imports.takeWhile (· ≠ other)).mapM failureOf?).any Option.isSome then return ()
          visit fuel other
        startIfReady key
      | _ => return ()

def release : Nat → Run Unit
  | 0 => return ()
  | fuel + 1 => do
    let ready := (← get).instances.filter fun i => match i.stage with
      | .blocked => true
      | _ => false
    ready.forM fun i => startIfReady i.key
    let left := (← get).instances.filter fun i => match i.stage with
      | .blocked => true
      | _ => false
    if left.length < ready.length then release fuel

def instanceCount : Run Nat := do return (← get).instances.length

def evaluateInstance (key : Nat) : Run Unit := do
  let count ← instanceCount
  link (count + 1) key
  visit (count + 1) key

def endThread (key : Nat) (thread : Thread) (result : Except Value Outcome) : Run Unit := do
  modify fun s => { s with threads := s.threads.filter (·.1 ≠ key) }
  match thread.owner with
  | .main => endMain (settled result)
  | .body i => do
    conclude i (settled result)
    release ((← instanceCount) + 1)

def advance (key : Nat) (thread : Thread) (code : Run Outcome) : Run Unit := do
  match ← attempted code with
  | .ok (.waits await cell frames) => park key thread await cell frames
  | result => endThread key thread result

def deepest : Nat := 1000

/-- A dynamic import: what it brings if the module is evaluated at once. -/
def loadInstance (thread : Nat) (base specifier : String) : Run (Option (Except Value Value)) := do
  let code := do
    let key ← importInstance (declare deepest) base specifier
    tell (.loaded base specifier key)
    evaluateInstance key
    return key
  match ← attempted code with
  | .error value => return some (.error value)
  | .ok key => match ← stageOf key with
    | .done | .entering => return some (.ok (.namespace key))
    | .failed value => return some (.error value)
    | _ => do
      changeInstance key fun i => { i with waiters := i.waiters ++ [thread] }
      return none

def runJob : Job → Run Unit
  | .resume key result => do
    match (← get).threads.lookup key with
    | none => return ()
    | some thread =>
      advance key thread (resumeFrames thread.context thread.cell thread.frames result)
  | .load key base specifier => do
    match ← loadInstance key base specifier with
    | some result => enqueue (.resume key result)
    | none => return ()

end ScriptHost.Engine
