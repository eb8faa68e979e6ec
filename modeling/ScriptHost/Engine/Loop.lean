import ScriptHost.Engine.Conversion

/-!
# The event loop

Callbacks that have their answers are called first, then the jobs of settled
promises run until there are none, then the host works through its queue, and
only then does time pass. Two events of the host at one moment are both there
before the first callback is called.
-/

set_option autoImplicit false

namespace ScriptHost.Engine

def State.afterNext (s : State) (event : CallbackEvent) : State :=
  { s with woken := s.woken.tail, history := event :: s.history }

/-- Call the callback that is next, or give the call up if making its arguments throws. What the
callback throws changes nothing else. -/
def callNext : Run Unit := do
  match (← get).woken with
  | [] => return ()
  | (source, f, answer?) :: _ => match ← attempted (argumentsFor answer?) with
    | .error value => modify (·.afterNext (.givenUp source value))
    | .ok args => do
      modify (·.afterNext (.called source f args))
      let _ ← attempted (callBackWith f args)

def runNextJob : Run Unit := do
  let s ← get
  match s.jobs with
  | [] => return ()
  | job :: jobs => do
    set { s with jobs }
    runJob job

/-- The state after a timer fired: its callback is to be called, and nobody waits for it any more
if that was the last fire. -/
def State.withFire (s : State) (timer : Nat) : State :=
  { s with
    timerCallbacks :=
      if s.host.timers.isActive timer then s.timerCallbacks
      else s.timerCallbacks.filter (·.1 ≠ timer)
    woken := s.woken ++ (s.timerCallbacks.lookup timer).toList.map (.timer timer, ·, none)
    history := .fired timer :: s.history }

def happened : HostEvent Nat → Run Unit
  | .fired timer => modify (·.withFire timer)
  | .answered key answer => do
    let s ← get
    match s.callbacks.lookup key with
    | some f => set ({ s with callbacks := s.callbacks.filter (·.1 ≠ key) }.withAnswer key f answer)
    | none => return ()

def hostTurn : Run Unit := do
  let s ← get
  match s.host.turn? s.sources.files with
  | none => return ()
  | some (host, event) => do
    set { s with host }
    match event with
    | some event => happened event
    | none => return ()

def exhaust (hasMore : State → Bool) (step : Run Unit) : Nat → Run Unit
  | 0 => return ()
  | fuel + 1 => do
    if hasMore (← get) then
      step
      exhaust hasMore step fuel

def hasWoken (s : State) : Bool := !s.woken.isEmpty

def hasJobs (s : State) : Bool := !s.jobs.isEmpty

def hasHostJobs (s : State) : Bool := !s.host.schedule.ready.isEmpty

def callAll : Run Unit := exhaust hasWoken callNext patience

def runJobs : Run Unit := exhaust hasJobs runNextJob patience

def runHost : Run Unit := exhaust hasHostJobs hostTurn patience

def pass (limit : Nat) : Run Bool := do
  let s ← get
  match s.host.schedule.earliest? with
  | none => return false
  | some deadline =>
    if deadline < limit then
      set { s with host := { s.host with schedule := s.host.schedule.wakeAt deadline } }
      return true
    else return false

/-- Go round the loop once; whether anything happened. -/
def round (limit : Nat) : Run Bool := do
  let s ← get
  if hasWoken s || hasJobs s then
    callAll
    runJobs
    return true
  else if hasHostJobs s then
    runHost
    return true
  else pass limit

/-- Go round the loop until a condition holds; whether it came to hold. -/
def await (isOver : State → Bool) (limit : Nat) : Nat → Run Bool
  | 0 => return false
  | fuel + 1 => do
    if isOver (← get) then return true
    if ← round limit then await isOver limit fuel else return false

/-- Nothing is left that could still call back. -/
def isIdle (s : State) : Bool :=
  s.woken.isEmpty && s.jobs.isEmpty && s.callbacks.isEmpty && s.timerCallbacks.isEmpty

end ScriptHost.Engine
