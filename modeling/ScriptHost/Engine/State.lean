import ScriptHost.Engine.Value
import ScriptHost.Host.Basic
import ScriptHost.Registry.Basic
import ScriptHost.Source.Provider

/-!
# The state of an engine

Variables live in cells. A module instance is kept with what it imports and how
far its evaluation came. A thread is code that waits for a promise; settled
promises are jobs in a queue of their own, and callbacks of the host that have
their answers are called in the order in which these came. What becomes of
callbacks is told in a history, the newest event first.
-/

set_option autoImplicit false

namespace ScriptHost.Engine

/-- What is left of a block, or the rescue of an attempt that is under way. -/
inductive Frame where
  | block (todo : List Stmt) (scope : Scope)
  | rescue (body : List Stmt) (scope : Scope)

/-- Whose end a thread's end is. -/
inductive Owner where
  | main
  | body (instance_ : Nat)
  deriving DecidableEq, Repr

structure Thread where
  owner : Owner
  context : Context
  promise : Option Nat
  /-- The cell for what the promise brings. -/
  cell : Option Cell
  frames : List Frame

inductive Job where
  | resume (thread : Nat) (result : Except Value Value)
  | load (thread : Nat) (base specifier : String)

inductive Stage where
  | fresh
  | entering
  | blocked
  | running
  | done
  | failed (value : Value)

def Stage.isOver : Stage → Bool
  | .done | .failed _ => true
  | _ => false

structure Instance where
  key : Nat
  name : String
  program : Program
  scope : Scope
  imports : List Nat
  isLinked : Bool
  stage : Stage
  /-- The threads that wait for its evaluation. -/
  waiters : List Nat

inductive Entry where
  | enquired (enquiry : Enquiry)
  | wrote (text : String) (at_ : Nat)

/-- The failure of the last import that failed, with the name it was asked for. -/
structure ImportFailure where
  name : String
  failure : LoadFailure
  deriving DecidableEq, Repr

/-- What an engine tells of the failures of its programs: the evaluation of a module or its `main`
begins, an import fails with the error that is thrown for it, a value escapes that nobody
caught. -/
inductive Milestone where
  | begun (module : ModuleId) (isMain : Bool)
  | importFailed (failure : ImportFailure) (error : Value)
  | escaped (value : Value)

/-- What a callback was handed to: a timer, or a primitive that answers once. -/
inductive CallbackSource where
  | timer (handle : Nat)
  | primitive (key : Nat)
  deriving DecidableEq, Repr

/-- What becomes of callbacks: a timer is started with one, stopped or fires, a primitive accepts
one and answers, one is called, or its call is given up as making the arguments threw a value. -/
inductive CallbackEvent where
  | started (timer interval : Nat) (f : Callable)
  | stopped (timer : Nat)
  | fired (timer : Nat)
  | accepted (key : Nat) (f : Callable)
  | answered (key : Nat) (answer : HostAnswer)
  | called (source : CallbackSource) (f : Callable) (args : List Value)
  | givenUp (source : CallbackSource) (value : Value)

/-- What becomes of modules: one is evaluated as the entry, a dynamic import brings one, a body is
executed. Each tells the instance by its key. -/
inductive ModuleEvent where
  | entered (id : ModuleId) (key : Nat)
  | loaded (base specifier : String) (key : Nat)
  | executed (name : String) (key : Nat)
  deriving DecidableEq, Repr

/-- A callback that is to be called, for an answer if a primitive gave one. -/
abbrev Waking := CallbackSource × Callable × Option HostAnswer

structure State where
  config : Config
  sources : Sources
  system : SystemStart
  registry : Registry ModuleId Unit
  mains : List (ModuleId × Callable)
  instances : List Instance
  moduleEvents : List ModuleEvent
  failure : Option ImportFailure
  trail : List Milestone
  cells : Array (Option Value)
  /-- The setters that all objects inherit. -/
  setters : List (String × Callable)
  issued : Nat
  threads : List (Nat × Thread)
  jobs : List Job
  host : NativeHost Nat
  /-- Callbacks of primitives that were not answered yet. -/
  callbacks : List (Nat × Callable)
  /-- Callbacks of timers that may still fire. -/
  timerCallbacks : List (Nat × Callable)
  woken : List Waking
  history : List CallbackEvent
  log : List Entry
  /-- How `main` ended, once it has. -/
  ended : Option (Except Value Unit)

abbrev Run (α : Type) := EStateM Value State α

def issue : Run Nat := modifyGet fun s => (s.issued + 1, { s with issued := s.issued + 1 })

def newCell (value : Option Value) : Run Cell :=
  modifyGet fun s => (s.cells.size, { s with cells := s.cells.push value })

def writeCell (cell : Cell) (value : Value) : Run Unit :=
  modify fun s => { s with cells := s.cells.set! cell (some value) }

def cell? (cell : Cell) : Run (Option Value) := do
  let s ← get
  return (s.cells[cell]?).join

def errorValue (class_ message : String) (trace code : Option String) : Run Value := do
  return .error (← issue) ⟨class_, message, code, trace⟩

def traceLine (context : Context) : String := s!"    at {context.module}\n"

/-- A value as it is thrown by code: an error gets its trace if it has none. -/
def Value.thrownBy (context : Context) : Value → Value
  | .error ref e => .error ref { e with trace := some (e.trace.getD (traceLine context)) }
  | value => value

def longestComplaint : Nat := 255

def cut (text : String) : String := Utf8.textLossy ((Utf8.encodeString text).take longestComplaint)

def throwNew {α : Type} (context : Context) (class_ message : String) : Run α := do
  throw (← errorValue class_ message (some (traceLine context)) none)

def throwType {α : Type} (context : Context) (message : String) : Run α :=
  throwNew context "TypeError" (cut message)

def throwReference {α : Type} (context : Context) (message : String) : Run α :=
  throwNew context "ReferenceError" (cut message)

def throwFailure {α : Type} (context : Context) (message : String) : Run α :=
  throwNew context "Error" message

def enqueue (job : Job) : Run Unit := modify fun s => { s with jobs := s.jobs ++ [job] }

def mark (milestone : Milestone) : Run Unit :=
  modify fun s => { s with trail := s.trail ++ [milestone] }

def tell (event : ModuleEvent) : Run Unit :=
  modify fun s => { s with moduleEvents := s.moduleEvents ++ [event] }

def note (entry : Entry) : Run Unit := modify fun s => { s with log := s.log ++ [entry] }

def instance? (key : Nat) : Run (Option Instance) := do
  return (← get).instances.find? (·.key = key)

def changeInstance (key : Nat) (change : Instance → Instance) : Run Unit :=
  modify fun s =>
    { s with instances := s.instances.map fun i => if i.key = key then change i else i }

def stageOf (key : Nat) : Run Stage := do
  match ← instance? key with
  | some i => return i.stage
  | none => return .done

def setStage (key : Nat) (stage : Stage) : Run Unit := changeInstance key ({ · with stage })

/-- The thread that waits for a promise goes on in a job of its own. -/
def settlePromise (promise : Nat) (result : Except Value Value) : Run Unit := do
  let s ← get
  match s.threads.find? (·.2.promise = some promise) with
  | none => return ()
  | some (key, thread) =>
    set { s with
      threads := (key, { thread with promise := none }) :: s.threads.filter (·.1 ≠ key)
      jobs := s.jobs ++ [Job.resume key result] }

end ScriptHost.Engine
