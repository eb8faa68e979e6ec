import ScriptHost.Timers.Course

/-!
# Programs over a set of timers

Timers are started, stopped and dropped from outside and from their callbacks,
and the clock advances between. A callback is a list of actions, each for one
of its fires or for all of them.
-/

set_option autoImplicit false

namespace ScriptHost.Timers

inductive Action where
  | start (delay interval : Nat) (callback : List (Option Nat × Action))
  /-- Stop a timer; a callback that names none stops its own. -/
  | stop (handle : Option Nat)
  | drop
  deriving Inhabited

abbrev CallbackActions := List (Option Nat × Action)

inductive Result where
  | started (handle : Nat)
  | stopped (handle : Nat)
  | dropped
  deriving DecidableEq, Repr

inductive Entry where
  | fired (handle at_ : Nat) (active : Option Nat)
  | did (result : Result)
  deriving DecidableEq, Repr

structure Attached where
  handle : Nat
  callback : CallbackActions
  fires : Nat

structure Scenario where
  course : Course
  attached : List Attached
  isDropped : Bool
  log : List Entry

namespace Scenario

def start : Scenario := ⟨Course.start, [], false, []⟩

def active? (s : Scenario) : Option Nat :=
  if s.isDropped then none else some s.course.timers.activeCount

def perform (s : Scenario) (own : Nat) : Action → Scenario × Result
  | .start delay interval callback =>
    if s.isDropped then (s, .dropped)
    else
      let (course, handle) := s.course.add delay interval
      ({ s with course, attached := s.attached ++ [⟨handle, callback, 0⟩] }, .started handle)
  | .stop handle =>
    let handle := handle.getD own
    ({ s with course := s.course.stop handle }, .stopped handle)
  | .drop => ({ s with course := s.course.drop, isDropped := true }, .dropped)

def note (s : Scenario) (entry : Entry) : Scenario := { s with log := s.log ++ [entry] }

def performNoted (own : Nat) (s : Scenario) (action : Action) : Scenario :=
  let (s, result) := s.perform own action
  s.note (.did result)

/-- The actions of a callback at its next call, and the callbacks after it. -/
def callbackOf (handle : Nat) : List Attached → List Action × List Attached
  | [] => ([], [])
  | a :: rest =>
    if a.handle = handle then
      let count := a.fires + 1
      let wanted := a.callback.filter fun (fire, _) => fire.isNone || fire = some count
      (wanted.map (·.2), { a with fires := count } :: rest)
    else
      let (actions, rest) := callbackOf handle rest
      (actions, a :: rest)

def fired (s : Scenario) (handle : Nat) : Scenario :=
  let s := s.note (.fired handle s.course.now s.active?)
  let (actions, attached) := callbackOf handle s.attached
  actions.foldl (performNoted handle) { s with attached }

def turn? (s : Scenario) : Option Scenario :=
  match s.course.turn? with
  | none => none
  | some (course, none) => some { s with course }
  | some (course, some handle) => some (fired { s with course } handle)

def advance (fuel limit : Nat) (s : Scenario) : Scenario :=
  match fuel with
  | 0 => s
  | fuel + 1 => match s.turn? with
    | some s => advance fuel limit s
    | none => match s.course.wake? limit with
      | some course => advance fuel limit { s with course }
      | none => { s with course := (s.course.rest? limit).getD s.course }

inductive Step where
  | act (action : Action)
  | wait (ms : Nat)

def step (s : Scenario) : Step → Scenario × Option Result
  | .act action =>
    let (s, result) := s.perform 0 action
    (s, some result)
  | .wait ms => (advance patience (s.course.now + ms) s, none)

structure Seen where
  result : Option Result
  log : List Entry
  now : Nat
  active : Option Nat
  deriving DecidableEq, Repr

def run (s : Scenario) : List Step → List Seen
  | [] => []
  | step_ :: rest =>
    let (s, result) := s.step step_
    ⟨result, s.log, s.course.now, s.active?⟩ :: run { s with log := [] } rest

end Scenario

end ScriptHost.Timers
