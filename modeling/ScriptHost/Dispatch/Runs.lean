import ScriptHost.Dispatch.Basic
import ScriptHost.Registry.Loads

/-!
# Runs under way

A dispatcher runs entry modules over loads that others use too, and any number
of runs may be under way. A run asks for its module and waits for the call to
return, then asks the engine for `main`, and ends with what `main` comes to.
The engine answers anything, and may take any turns of the loads in between.
-/

set_option autoImplicit false

namespace ScriptHost

abbrev RunId := Nat

inductive RunPhase (X : Type) where
  | loading (call : CallId)
  | loaded (outcome : LoadResult X)
  | calling

/-- A run with the arguments and the directory that it was started with, and the view of the host
that it was given. -/
structure EntryRun (X : Type) where
  view : HostView
  host : HostView
  id : ModuleId
  phase : RunPhase X

inductive RunEvent (X M : Type) where
  | began (view host : HostView)
  | wrote (text : String)
  | asked (id : ModuleId) (call : CallId)
  | loaded (outcome : LoadResult X)
  /-- The engine is asked for the `main` of some exports, to be called with an argument. -/
  | invoked (exports : X) (argument : EntryArgument) (main : Option M)
  | returned (ended : Except EngineFailure Unit)
  | ended (result : RunResult)
  | givenUp
  deriving DecidableEq

structure Dispatcher (X M : Type) where
  config : Config
  loads : Loads X
  runs : List (RunId × EntryRun X)
  issued : RunId
  /-- What happened to the runs, oldest first. -/
  history : List (RunId × RunEvent X M)

namespace Dispatcher

variable {X M : Type}

def start (config : Config) : Dispatcher X M := ⟨config, .start, [], 0, []⟩

def note (d : Dispatcher X M) (run : RunId) (events : List (RunEvent X M)) : Dispatcher X M :=
  { d with history := d.history ++ events.map (run, ·) }

def remove (d : Dispatcher X M) (run : RunId) : Dispatcher X M :=
  { d with runs := d.runs.filter (·.1 ≠ run) }

def awaits (call : CallId) (r : EntryRun X) : Bool :=
  match r.phase with
  | .loading other => other = call
  | _ => false

def receive (call : CallId) (outcome : LoadResult X) (r : EntryRun X) : EntryRun X :=
  if awaits call r then { r with phase := .loaded outcome } else r

/-- A call returned, to the run that waits for it. -/
def hand (d : Dispatcher X M) (call : CallId) (outcome : LoadResult X) : Dispatcher X M :=
  { d with
    runs := d.runs.map fun entry => (entry.1, receive call outcome entry.2)
    history := d.history ++
      (d.runs.filter (awaits call ·.2)).map fun entry => (entry.1, .loaded outcome) }

def returnIn : LoadEvent X → Option (CallId × LoadResult X)
  | .returned call outcome => some (call, outcome)
  | _ => none

/-- The call that returned between two states of the loads, if one did. -/
def newReturn? (before after : Loads X) : Option (CallId × LoadResult X) :=
  (after.history.drop before.history.length).findSome? returnIn

def follow (d : Dispatcher X M) (loads : Loads X) : Dispatcher X M :=
  match newReturn? d.loads loads with
  | none => { d with loads }
  | some (call, outcome) => { d with loads }.hand call outcome

def ask (d : Dispatcher X M) (run : RunId) (view host : HostView) (id : ModuleId) :
    Dispatcher X M :=
  let call := d.loads.issued
  ({ d with runs := d.runs ++ [(run, EntryRun.mk view host id (.loading call))] }.note run
    [.asked id call]).follow (d.loads.load id)

def begin (d : Dispatcher X M) (view host : HostView) : Dispatcher X M :=
  let run := d.issued
  let d := { d with issued := run + 1 }.note run [.began view host]
  match Dispatch.opening d.config view with
  | .usage text => d.note run [.wrote text, .ended (.ok .usage)]
  | .ended result => d.note run [.ended result]
  | .load id => d.ask run view host id

def enterMain (d : Dispatcher X M) (run : RunId) : Dispatcher X M :=
  { d with
    runs := d.runs.map fun entry =>
      (entry.1, if entry.1 = run then { entry.2 with phase := .calling } else entry.2) }

def goOn (d : Dispatcher X M) (run : RunId) (r : EntryRun X) (outcome : LoadResult X)
    (main? : X → Option M) : Dispatcher X M :=
  let asked := match outcome with
    | .ok exports =>
      [.invoked exports (d.config.entryMode.argument r.view r.host) (main? exports)]
    | .error _ => []
  match Dispatch.continuation d.config r.view r.host r.id main? outcome with
  | .ended result => (d.remove run).note run (asked ++ [.ended result])
  | .call _ _ => (d.enterMain run).note run asked

def endMain (d : Dispatcher X M) (run : RunId) (id : ModuleId) (ended : Except EngineFailure Unit) :
    Dispatcher X M :=
  (d.remove run).note run [.returned ended, .ended (Dispatch.closing id ended)]

def giveUp (d : Dispatcher X M) (run : RunId) (r : EntryRun X) : Dispatcher X M :=
  let loads := match r.phase with
    | .loading call => (d.loads.giveUp call).getD d.loads
    | _ => d.loads
  ({ d with loads }.remove run).note run [.givenUp]

/-- Whether a turn of the loads gives up the call of a run. -/
def isOwn (d : Dispatcher X M) : LoadStep X → Bool
  | .giveUp call => d.runs.any (awaits call ·.2)
  | _ => false

inductive Step (X M : Type) where
  | begin (view host : HostView)
  | load (a : LoadStep X)
  | goOn (run : RunId) (main? : X → Option M)
  | endMain (run : RunId) (ended : Except EngineFailure Unit)
  | giveUp (run : RunId)

def step (d : Dispatcher X M) : Step X M → Option (Dispatcher X M)
  | .begin view host => some (d.begin view host)
  | .load a => if d.isOwn a then none else (d.loads.step a).map d.follow
  | .goOn run main? => match d.runs.lookup run with
    | some r => match r.phase with
      | .loaded outcome => some (d.goOn run r outcome main?)
      | _ => none
    | none => none
  | .endMain run ended => match d.runs.lookup run with
    | some r => match r.phase with
      | .calling => some (d.endMain run r.id ended)
      | _ => none
    | none => none
  | .giveUp run => (d.runs.lookup run).map (d.giveUp run)

def run (d : Dispatcher X M) : List (Step X M) → Option (Dispatcher X M)
  | [] => some d
  | a :: rest => (d.step a).bind (run · rest)

def trace (d : Dispatcher X M) (run : RunId) : List (RunEvent X M) :=
  d.history.filterMap fun entry => if entry.1 = run then some entry.2 else none

def textIn : RunEvent X M → Option String
  | .wrote text => some text
  | _ => none

def written (d : Dispatcher X M) (run : RunId) : String :=
  String.join ((d.trace run).filterMap textIn)

def resultIn : RunEvent X M → Option RunResult
  | .ended result => some result
  | _ => none

def result? (d : Dispatcher X M) (run : RunId) : Option RunResult :=
  (d.trace run).findSome? resultIn

end Dispatcher

end ScriptHost
