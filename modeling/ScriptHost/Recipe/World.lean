import ScriptHost.Dispatch.Runs
import ScriptHost.Recipe.Basic
import ScriptHost.Schedule
import ScriptHost.Source.Provider

/-!
# Tasks of recipes

Loads, tickets that wait for them and runs of entry modules are tasks in one
queue. A task keeps what it still has to do and what it waits for: a gate, the
outcome of a load or a moment. A gate lets everybody through once it is open.
The registry and the runs are those of a dispatcher, of which a world takes the
turns: calls return when their outcome is there, and a task goes on with it in
its own turn.
-/

set_option autoImplicit false

namespace ScriptHost.Recipe

abbrev TaskId := Nat

inductive Waiting where
  | nothing
  | outcome (isTolerant : Bool)
  | gate (name : String)
  | clock (since : Nat)
  deriving DecidableEq, Repr

/-- The rest of a body of the module `home`, with what its first step waits for. -/
structure Rest where
  home : ModuleId
  isNative : Bool
  waiting : Waiting
  todo : List Instruction
  deriving DecidableEq, Repr

/-- What a task does. The task of a load goes by the call that started it. -/
inductive Activity where
  | queued (call : CallId) (id : ModuleId)
  | fetching (call : CallId) (id : ModuleId)
  | evaluating (call : CallId) (exports : Exports) (rest : Rest)
  | asking (ticket : Nat)
  | opening (run : RunId) (id : ModuleId) (view : HostView)
  | calling (run : RunId) (rest : Rest)
  deriving DecidableEq, Repr

structure Task where
  activity : Activity
  delivered : Option (LoadResult Exports)

structure Gate where
  isOpen : Bool
  waiters : List TaskId

inductive Entry where
  | enquired (enquiry : Enquiry)
  | evaluated (id : ModuleId)
  | invalidated (id : ModuleId) (isDropped : Bool)
  | logged (text : String)
  | waited (ms : Nat)
  | called (id : ModuleId) (argument : EntryArgument)
  | done (ticket : Nat) (outcome : LoadResult Exports)

abbrev Turn := Dispatcher.Step Exports (List Instruction)

structure World where
  dispatcher : Dispatcher Exports (List Instruction)
  sources : Sources
  /-- The calls that wait, with the tasks that made them. -/
  callers : List (CallId × TaskId)
  schedule : Schedule TaskId
  tasks : List (TaskId × Task)
  issued : TaskId
  gates : List (String × Gate)
  evaluations : Nat
  log : List Entry
  output : String
  /-- The result of the last run, once it is there. -/
  result : Option RunResult

namespace World

def start (config : Config) (sources : Sources) : World :=
  { dispatcher := .start config, sources, callers := [], schedule := .start, tasks := [], issued := 0
    gates := [], evaluations := 0, log := [], output := "", result := none }

def config (w : World) : Config := w.dispatcher.config

def loads (w : World) : Loads Exports := w.dispatcher.loads

def dispatch (w : World) (a : Turn) : World :=
  { w with dispatcher := (w.dispatcher.step a).getD w.dispatcher }

def take (w : World) (a : LoadStep Exports) : World := w.dispatch (.load a)

def registry (w : World) : Registry Exports CallId := w.loads.registry

def note (w : World) (entry : Entry) : World := { w with log := w.log ++ [entry] }

def task? (w : World) (t : TaskId) : Option Task := w.tasks.lookup t

def put (w : World) (t : TaskId) (task : Task) : World :=
  { w with tasks := w.tasks.filter (·.1 ≠ t) ++ [(t, task)] }

def become (w : World) (t : TaskId) (activity : Activity) : World := w.put t ⟨activity, none⟩

def remove (w : World) (t : TaskId) : World := { w with tasks := w.tasks.filter (·.1 ≠ t) }

def issue (w : World) : World × TaskId := ({ w with issued := w.issued + 1 }, w.issued + 1)

def wake (w : World) (t : TaskId) : World :=
  if t ∈ w.schedule.ready then w else { w with schedule := w.schedule.spawn t }

def spawnAs (w : World) (t : TaskId) (activity : Activity) : World := (w.become t activity).wake t

def spawn (w : World) (activity : Activity) : World :=
  let (w, t) := w.issue
  w.spawnAs t activity

/-- A task waits for a call. -/
def await (w : World) (call : CallId) (t : TaskId) : World :=
  { w with callers := w.callers ++ [(call, t)] }

/-- Begin or join the load of a module in a turn; the outcome if it is there already. -/
def loadBy (w : World) (a : Turn) (id : ModuleId) (t : TaskId) :
    World × Option (LoadResult Exports) :=
  let call := w.loads.issued
  match (w.registry.load id call).2 with
  | .settled outcome => (w.dispatch a, some outcome)
  | .joined => ((w.dispatch a).await call t, none)
  | .first => (((w.dispatch a).await call t).spawn (.queued call id), none)

def load (w : World) (id : ModuleId) (t : TaskId) : World × Option (LoadResult Exports) :=
  w.loadBy (.load (.load id)) id t

def gate (w : World) (name : String) : Gate := (w.gates.lookup name).getD ⟨false, []⟩

def setGate (w : World) (name : String) (gate : Gate) : World :=
  { w with gates := (name, gate) :: w.gates.filter (·.1 ≠ name) }

def enter (w : World) (name : String) (t : TaskId) : World × Bool :=
  let gate := w.gate name
  if gate.isOpen then (w, true)
  else (w.setGate name { gate with waiters := gate.waiters ++ [t] }, false)

def release (w : World) (name : String) : World × Nat :=
  let waiters := (w.gate name).waiters
  (waiters.foldl wake (w.setGate name ⟨true, []⟩), waiters.length)

def deliver (outcome : LoadResult Exports) (w : World) (t : TaskId) : World :=
  match w.task? t with
  | none => w
  | some task => (w.put t { task with delivered := some outcome }).wake t

def hand (w : World) (call : CallId) : World :=
  let outcome := (w.loads.call? call).bind (·.delivered)
  let w := w.take .resume
  match outcome, w.callers.lookup call with
  | some outcome, some t =>
    deliver outcome { w with callers := w.callers.filter (·.1 ≠ call) } t
  | _, _ => w

/-- A load task ends, and everybody who waits is handed the outcome. -/
def close (w : World) (t : TaskId) : World := w.loads.queue.foldl hand (w.remove t)

inductive Effect where
  | next
  | ends (failure : EngineFailure)
  | waits (waiting : Waiting)

def afterLoad (isTolerant : Bool) : LoadResult Exports → Effect
  | .ok _ => .next
  | .error failure => if isTolerant then .next else .ends (.ofLoad failure)

def performLoad (w : World) (t : TaskId) (home : ModuleId) (specifier : String)
    (isTolerant : Bool) : World × Effect :=
  match ModuleId.resolve specifier home with
  | .error failure =>
    (w.take (.loadSpecifier specifier home), afterLoad isTolerant (.error failure))
  | .ok id => match w.load id t with
    | (w, some outcome) => (w, afterLoad isTolerant outcome)
    | (w, none) => (w, .waits (.outcome isTolerant))

def performInvalidate (w : World) (home : ModuleId) (specifier : String) : World × Effect :=
  match ModuleId.resolve specifier home with
  | .error failure => (w, .ends (.ofLoad failure))
  | .ok id =>
    let isDropped := (w.registry.invalidate id).2
    ((w.take (.invalidate id)).note (.invalidated id isDropped), .next)

def performWait (w : World) (t : TaskId) (ms : Nat) : World × Effect :=
  if ms = 0 then (w.note (.waited 0), .next)
  else ({ w with schedule := w.schedule.sleep ms t }, .waits (.clock w.schedule.now))

def instruct (w : World) (t : TaskId) (home : ModuleId) (isNative : Bool) :
    Instruction → World × Effect
  | .fail text => (w, .ends (.ofText text))
  | .load specifier isTolerant => w.performLoad t home specifier isTolerant
  | .invalidate specifier => w.performInvalidate home specifier
  | .gate name => match w.enter name t with
    | (w, true) => (w, .next)
    | (w, false) => (w, .waits (.gate name))
  | .log text => (w.note (.logged text), .next)
  | .print text => (if isNative then { w with output := w.output ++ text ++ "\n" } else w, .next)
  | .wait ms => if isNative then w.performWait t ms else (w, .next)
  | .nothing => (w, .next)

inductive Progress where
  | ended (result : Except EngineFailure Unit)
  | waits (rest : Rest)

def perform (w : World) (t : TaskId) (home : ModuleId) (isNative : Bool) :
    List Instruction → World × Progress
  | [] => (w, .ended (.ok ()))
  | instruction :: todo => match w.instruct t home isNative instruction with
    | (w, .next) => perform w t home isNative todo
    | (w, .ends failure) => (w, .ended (.error failure))
    | (w, .waits waiting) => (w, .waits ⟨home, isNative, waiting, todo⟩)

/-- What a wait comes to when its task runs again. -/
def awaited (w : World) (delivered : Option (LoadResult Exports)) : Waiting → World × Effect
  | .outcome isTolerant => match delivered with
    | some outcome => (w, afterLoad isTolerant outcome)
    | none => (w, .waits (.outcome isTolerant))
  | .gate name => (w, if (w.gate name).isOpen then .next else .waits (.gate name))
  | .clock since => (w.note (.waited (w.schedule.now - since)), .next)
  | .nothing => (w, .next)

def resume (w : World) (t : TaskId) (delivered : Option (LoadResult Exports)) (rest : Rest) :
    World × Progress :=
  match w.awaited delivered rest.waiting with
  | (w, .next) => w.perform t rest.home rest.isNative rest.todo
  | (w, .ends failure) => (w, .ended (.error failure))
  | (w, .waits waiting) => (w, .waits { rest with waiting })

def afterBody (t : TaskId) (call : CallId) (exports : Exports) : World × Progress → World
  | (w, .waits rest) => w.become t (.evaluating call exports rest)
  | (w, .ended result) => (w.take (.endEvaluation call (result.map fun _ => exports))).close t

def evaluate (w : World) (t : TaskId) (call : CallId) (id : ModuleId) (source : String) : World :=
  let script := Script.parse source
  let serial := w.evaluations + 1
  let w := { w with evaluations := serial }.note (.evaluated id)
  afterBody t call ⟨id, serial, script.main⟩ (w.perform t id false script.body)

def fetched (w : World) (t : TaskId) (call : CallId) (id : ModuleId) (source : LoadResult String) :
    World :=
  let w := w.take (.endFetch call source)
  match source with
  | .error _ => w.close t
  | .ok source => w.evaluate t call id source

def gateOf (s : Sources) (id : ModuleId) : Option String :=
  match s.provider.store? id with
  | .ok (.memory ..) => s.memory.gate? id
  | _ => none

def retrieve (w : World) (t : TaskId) (call : CallId) (id : ModuleId) : World :=
  let (source, enquiries) := w.sources.fetch id
  let w := { w with log := w.log ++ enquiries.map Entry.enquired }.take (.begin call)
  match gateOf w.sources id with
  | none => w.fetched t call id source
  | some name => match w.enter name t with
    | (w, true) => w.fetched t call id source
    | (w, false) => w.become t (.fetching call id)

def finish (w : World) (t : TaskId) (run : RunId) : World :=
  { (w.remove t) with result := w.dispatcher.result? run }

def afterMain (t : TaskId) (run : RunId) : World × Progress → World
  | (w, .waits rest) => w.become t (.calling run rest)
  | (w, .ended result) => (w.dispatch (.endMain run result)).finish t run

def afterOpening (w : World) (t : TaskId) (run : RunId) (id : ModuleId) (view : HostView)
    (loaded : LoadResult Exports) : World :=
  let next := w.dispatch (.goOn run Exports.main)
  match Dispatch.continuation w.config view view id Exports.main loaded with
  | .ended _ => next.finish t run
  | .call main argument =>
    afterMain t run ((next.note (.called id argument)).perform t id argument.isNative main)

def advance (w : World) (t : TaskId) (task : Task) : World :=
  match task.activity, task.delivered with
  | .queued call id, _ => w.retrieve t call id
  | .fetching call id, _ => w.fetched t call id (w.sources.fetch id).1
  | .evaluating call exports rest, delivered =>
    afterBody t call exports (w.resume t delivered rest)
  | .asking ticket, some outcome => (w.remove t).note (.done ticket outcome)
  | .asking _, none => w
  | .opening run id view, some loaded => w.afterOpening t run id view loaded
  | .opening .., none => w
  | .calling run rest, delivered => afterMain t run (w.resume t delivered rest)

def runOf (task : TaskId × Task) : Option RunId :=
  match task.2.activity with
  | .opening run .. | .calling run _ => some run
  | _ => none

def abandon (w : World) (isGone : TaskId × Task → Bool) : World :=
  let gone := (w.tasks.filter isGone).map (·.1)
  let runs := (w.tasks.filter isGone).filterMap runOf
  let calls := (w.callers.filter (·.2 ∈ gone)).map (·.1)
  let w := { w with
    tasks := w.tasks.filter (!isGone ·)
    callers := w.callers.filter (·.2 ∉ gone) }
  calls.foldl (fun w call => w.take (.giveUp call))
    (runs.foldl (fun w run => w.dispatch (.giveUp run)) w)

/-- The task whose turn it is runs until it has to wait; a task that is gone is passed over. -/
def turn? (w : World) : Option World :=
  match w.schedule.next? with
  | none => none
  | some (t, schedule) =>
    let w := { w with schedule }
    match w.task? t with
    | none => some w
    | some task => some (w.advance t task)

/-- Run until nothing can run, or until a run has its result. -/
def settleAll (fuel : Nat) (w : World) : World :=
  match fuel with
  | 0 => w
  | fuel + 1 =>
    if w.result.isSome then w
    else match w.turn? with
      | some w => settleAll fuel w
      | none => match w.schedule.earliest? with
        | some deadline => settleAll fuel { w with schedule := w.schedule.wakeAt deadline }
        | none => w

def settled (w : World) : World := settleAll patience w

end World

end ScriptHost.Recipe
