import ScriptHost.Schedule

/-!
# Timers

A timer fires once after its delay, or again and again at its interval. Its
first sleep begins when its job first runs, and a sleep of no length does not
happen at all. A one-shot timer is inactive from its fire on; a job of a timer
that is not active any more does nothing.
-/

set_option autoImplicit false

namespace ScriptHost

structure Timer where
  handle : Nat
  interval : Nat
  deriving DecidableEq, Repr

/-- The handles given out so far and the timers that may still fire. -/
structure Timers where
  issued : Nat
  active : List Timer
  deriving DecidableEq, Repr

inductive TimerJob where
  | begin (handle delay : Nat)
  | due (handle : Nat)
  deriving DecidableEq, Repr

namespace Timers

def empty : Timers := ⟨0, []⟩

def name (handle : Nat) : String := s!"timer#{handle}"

def find? (t : Timers) (handle : Nat) : Option Timer := t.active.find? (·.handle = handle)

def isActive (t : Timers) (handle : Nat) : Bool := t.active.any (·.handle = handle)

def activeCount (t : Timers) : Nat := t.active.length

def stop (t : Timers) (handle : Nat) : Timers :=
  { t with active := t.active.filter (·.handle ≠ handle) }

def drop (t : Timers) : Timers := { t with active := [] }

variable {Job : Type}

def start (t : Timers) (s : Schedule Job) (embed : TimerJob → Job) (delay interval : Nat) :
    Nat × Timers × Schedule Job :=
  let handle := t.issued + 1
  (handle, ⟨handle, t.active ++ [⟨handle, interval⟩]⟩, s.spawn (embed (.begin handle delay)))

/-- Fire an active timer. A repeating one begins its next sleep at once. -/
def fire (t : Timers) (s : Schedule Job) (embed : TimerJob → Job) (timer : Timer) :
    Timers × Schedule Job :=
  if timer.interval = 0 then (t.stop timer.handle, s)
  else (t, s.sleep timer.interval (embed (.due timer.handle)))

def run (t : Timers) (s : Schedule Job) (embed : TimerJob → Job) (job : TimerJob) :
    Option Nat × Timers × Schedule Job :=
  match job with
  | .begin handle delay => match t.find? handle with
    | none => (none, t, s)
    | some timer =>
      if delay = 0 then (some handle, t.fire s embed timer)
      else (none, t, s.sleep delay (embed (.due handle)))
  | .due handle => match t.find? handle with
    | none => (none, t, s)
    | some timer => (some handle, t.fire s embed timer)

end Timers

end ScriptHost
