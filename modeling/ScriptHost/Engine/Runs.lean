import ScriptHost.Engine.Loop
import ScriptHost.Module.Order

/-!
# Runs of programs

An engine evaluates entry modules and calls their `main`. The `main` of a
module is kept under its identifier when an evaluation exports one. What nobody
caught becomes a failure: the one of the last failed import if its name is in
the text, and otherwise the text itself. After `main` the run lasts until
nothing is left that could call back. A run that lasts too long has no result.
-/

set_option autoImplicit false

namespace ScriptHost.Engine

structure RunSeen where
  result : Option RunResult
  log : List Entry
  records : List (ModuleId × RecordState)
  at_ : Nat

def occursIn (part : List Char) : List Char → Bool
  | [] => part.isEmpty
  | c :: rest => part.isPrefixOf (c :: rest) || occursIn part rest

def contains (text part : String) : Bool := occursIn part.toList text.toList

/-- The failure that a thrown value is, given the last failed import. -/
def failureOf (last : Option ImportFailure) (value : Value) : EngineFailure :=
  let text := value.report
  match last with
  | some i => if contains text i.name then .ofLoad i.failure else .ofText text
  | none => .ofText text

def forget : Run Unit := modify fun s => { s with failure := none }

def setOut (module : ModuleId) (isMain : Bool) : Run Unit := do
  forget
  mark (.begun module isMain)

/-- What becomes of a value that nobody caught. -/
def describe (value : Value) : Run EngineFailure := do
  let last := (← get).failure
  forget
  mark (.escaped value)
  return failureOf last value

def exportedMain? (key : Nat) : Run (Option Callable) := do
  match (← instance? key).bind (·.exportCell? Program.mainName) with
  | none => return none
  | some cell => match ← cell? cell with
    | some (.function _ f) => return some f
    | _ => return none

def isEvaluated (key : Nat) (s : State) : Bool :=
  (s.instances.find? (·.key = key)).any (·.stage.isOver)

/-- Evaluate an entry module: its exported `main`, if it has one. Without an end in time there
is no outcome. -/
def evaluateEntry (id : ModuleId) (source : String) (limit : Nat) :
    Run (Option (Except Value (Option Callable))) := do
  let code := do
    let key ← declare deepest id.text source
    tell (.entered id key)
    evaluateInstance key
    return key
  match ← attempted code with
  | .error value => return some (.error value)
  | .ok key =>
    if ← await (isEvaluated key) limit patience then
      match ← failureOf? key with
      | some value => return some (.error value)
      | none => return some (.ok (← exportedMain? key))
    else return none

def keepMain (id : ModuleId) (f : Callable) : Run Unit :=
  modify fun s => { s with mains := (id, f) :: s.mains.filter (·.1 ≠ id) }

def evaluateSource (id : ModuleId) (source : String) (limit : Nat) :
    Run (Option (LoadResult ModuleId)) := do
  setOut id false
  match ← evaluateEntry id source limit with
  | none => return none
  | some (.ok main?) => do
    main?.forM (keepMain id)
    return some (.ok id)
  | some (.error value) => return some (.error ((← describe value).toLoad .evaluation))

def settleRecord (id : ModuleId) (outcome : LoadResult ModuleId) : Run Unit :=
  modify fun s => { s with registry := (s.registry.settle id outcome).1 }

def outcomeOf (id : ModuleId) (source : LoadResult String) (limit : Nat) :
    Run (Option (LoadResult ModuleId)) :=
  match source with
  | .error failure => return some (.error failure)
  | .ok source => evaluateSource id source limit

def loadEntry (id : ModuleId) (limit : Nat) : Run (Option (LoadResult ModuleId)) := do
  let s ← get
  match s.registry.load id () with
  | (_, .settled outcome) => return some outcome
  | (_, .joined) => return none
  | (registry, .first) => do
    let (source, enquiries) := s.sources.fetch id
    set { s with registry := registry.begin id, log := s.log ++ enquiries.map Entry.enquired }
    let outcome ← outcomeOf id source limit
    outcome.forM (settleRecord id)
    return outcome

def mainThread (context : Context) : Thread := ⟨.main, context, none, none, []⟩

def enterMain (f : Callable) (argument : MainArgument) : Run Unit := do
  match f with
  | .main key => do
    match ← instance? key with
    | none => endMain (.ok ())
    | some i => do
      let context : Context := ⟨i.name, some argument⟩
      let body := i.program.main.getD []
      advance (← issue) (mainThread context) (do execBlock context (← enter i.scope body) body)
  | f => do
    match ← attempted (callBackWith f argument.value?.toList) with
    | .ok _ => endMain (.ok ())
    | .error value => endMain (.error value)

def startMain (f : Callable) (argument : EntryArgument) : Run Unit := do
  match ← attempted (grant argument) with
  | .ok argument => enterMain f argument
  | .error value => endMain (.error value)

def hasEnded (s : State) : Bool := s.ended.isSome

def awaitMain (f : Callable) (argument : EntryArgument) (limit : Nat) :
    Run (Option (Except Value Unit)) := do
  modify fun s => { s with ended := none }
  startMain f argument
  if ← await hasEnded limit patience then return (← get).ended else return none

def finish (id : ModuleId) (limit : Nat) : Run (Option RunResult) := do
  if ← await isIdle limit patience then return some (Dispatch.closing id (.ok ())) else return none

def callMain (id : ModuleId) (f : Callable) (argument : EntryArgument) (limit : Nat) :
    Run (Option RunResult) := do
  setOut id true
  match ← awaitMain f argument limit with
  | none => return none
  | some (.ok _) => finish id limit
  | some (.error value) => return some (Dispatch.closing id (.error (← describe value)))

def runLoaded (view : HostView) (id : ModuleId) (limit : Nat) (loaded : LoadResult ModuleId) :
    Run (Option RunResult) := do
  let s ← get
  match Dispatch.continuation s.config view s.host.view id (fun id => s.mains.lookup id) loaded with
  | .ended result => return some result
  | .call main argument => callMain id main argument limit

def runEntry (view : HostView) (limit : Nat) : Run (Option RunResult) := do
  match Dispatch.opening (← get).config view with
  | .usage text => do
    writeText text
    return some (.ok .usage)
  | .ended result => return some result
  | .load id => do
    match ← loadEntry id limit with
    | none => return none
    | some loaded => runLoaded view id limit loaded

def startIn (system : SystemStart) (config : Config) (sources : Sources) (view : HostView) :
    State :=
  { config, sources, system, registry := .empty, mains := [], instances := [], moduleEvents := []
    failure := none, trail := [], cells := #[], setters := [], issued := Value.firstRef
    threads := [], jobs := [], host := .start view .empty 0, callbacks := [], timerCallbacks := []
    woken := [], history := [], log := [], ended := none }

def start (config : Config) (sources : Sources) (view : HostView) : State :=
  startIn (Child.start sources.files) config sources view

/-- An engine with a new host for its next run. -/
def fresh (s : State) (view : HostView) : State :=
  { s with
    host := .start view .empty s.host.schedule.now
    threads := [], jobs := [], callbacks := [], timerCallbacks := [], woken := [], history := []
    log := [] }

def records (s : State) : List (ModuleId × RecordState) :=
  (ModuleId.sort s.registry.ids).filterMap fun id => (s.registry.state? id).map (id, ·)

def runWithin (duration : Nat) (s : State) (view : HostView) : State × RunSeen :=
  let s := fresh s view
  let limit := s.host.schedule.now + duration
  match (runEntry view limit).run s with
  | .ok result s =>
    (s, ⟨result, s.log, records s, if result.isSome then s.host.schedule.now else limit⟩)
  | .error _ s => (s, ⟨none, s.log, records s, limit⟩)

/-- Runs one after the other, up to one without a result. -/
def runsWithin (duration : Nat) (s : State) : List HostView → List RunSeen
  | [] => []
  | view :: rest =>
    let (s, seen) := runWithin duration s view
    seen :: if seen.result.isSome then runsWithin duration s rest else []

def longestRun : Nat := 60000

def runs (s : State) (views : List HostView) : List RunSeen := runsWithin longestRun s views

end ScriptHost.Engine
