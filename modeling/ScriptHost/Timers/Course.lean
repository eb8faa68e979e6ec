import ScriptHost.Timers.Basic

/-!
# The course of a set of timers

A set of timers at work. Timers are started, stopped and dropped at any moment,
from outside or in the callback of a timer that fired just before. The job at
the front of the queue has its turn, and only when no job can run does the clock
go on: to the next deadline, or to a moment before it.
-/

set_option autoImplicit false

namespace ScriptHost

inductive TimerEvent where
  | started (handle delay interval : Nat)
  /-- The job of a timer has its first turn. -/
  | begun (handle : Nat)
  | fired (handle : Nat)
  | stopped (handle : Nat)
  | dropped
  deriving DecidableEq, Repr

namespace Timers

structure Course where
  timers : Timers
  schedule : Schedule TimerJob
  /-- What happened and when, oldest first. -/
  history : List (Nat × TimerEvent)

def eventsOf (t : Timers) (job : TimerJob) (fired : Option Nat) : List TimerEvent :=
  let first := match job with
    | .begin handle _ => if t.isActive handle then [.begun handle] else []
    | .due _ => []
  first ++ fired.toList.map .fired

namespace Course

def start : Course := ⟨Timers.empty, .start, []⟩

def now (c : Course) : Nat := c.schedule.now

def note (c : Course) (events : List TimerEvent) : Course :=
  { c with history := c.history ++ events.map (c.now, ·) }

def add (c : Course) (delay interval : Nat) : Course × Nat :=
  let (handle, timers, schedule) := c.timers.start c.schedule id delay interval
  ({ c with timers, schedule }.note [.started handle delay interval], handle)

def stop (c : Course) (handle : Nat) : Course :=
  { c with timers := c.timers.stop handle }.note [.stopped handle]

def drop (c : Course) : Course := { c with timers := c.timers.drop }.note [.dropped]

def turn? (c : Course) : Option (Course × Option Nat) :=
  match c.schedule.next? with
  | none => none
  | some (job, schedule) =>
    let (fired, timers, schedule) := c.timers.run schedule id job
    some ({ c with timers, schedule }.note (eventsOf c.timers job fired), fired)

/-- When no job can run, time passes up to the earliest deadline that is not after a limit. -/
def wake? (c : Course) (limit : Nat) : Option Course :=
  if c.schedule.ready.isEmpty then
    (c.schedule.wake? limit).map fun schedule => { c with schedule }
  else none

def rest? (c : Course) (moment : Nat) : Option Course :=
  if c.schedule.ready.isEmpty && (c.schedule.wake? moment).isNone && c.now ≤ moment then
    some { c with schedule := { c.schedule with now := moment } }
  else none

inductive Move where
  | add (delay interval : Nat)
  | stop (handle : Nat)
  | drop
  | turn
  | wake (limit : Nat)
  | rest (moment : Nat)
  deriving DecidableEq, Repr

def move? (c : Course) : Move → Option Course
  | .add delay interval => some (c.add delay interval).1
  | .stop handle => some (c.stop handle)
  | .drop => some c.drop
  | .turn => c.turn?.map (·.1)
  | .wake limit => c.wake? limit
  | .rest moment => c.rest? moment

def run (c : Course) : List Move → Option Course
  | [] => some c
  | a :: rest => (c.move? a).bind (run · rest)

end Course

/-! ## The life of a timer -/

structure Start where
  moment : Nat
  delay : Nat
  interval : Nat
  deriving DecidableEq, Repr

/-- What a history tells of one timer, with the moments at which it happened. A timer ends when it
is stopped after its start, or when the set is dropped. -/
structure Life where
  start : Option Start
  begun : Option Nat
  fires : List Nat
  ended : Option Nat
  /-- The fires after the end. -/
  late : List Nat
  deriving DecidableEq, Repr

namespace Life

def unborn : Life := ⟨none, none, [], none, []⟩

def close (l : Life) (moment : Nat) : Life :=
  if l.start.isSome && l.ended.isNone then { l with ended := some moment } else l

def fire (l : Life) (moment : Nat) : Life :=
  if l.ended.isNone then { l with fires := l.fires ++ [moment] }
  else { l with late := l.late ++ [moment] }

def note (handle : Nat) (l : Life) : Nat × TimerEvent → Life
  | (moment, .started other delay interval) =>
    if other = handle then { l with start := some ⟨moment, delay, interval⟩ } else l
  | (moment, .begun other) => if other = handle then { l with begun := some moment } else l
  | (moment, .fired other) => if other = handle then l.fire moment else l
  | (moment, .stopped other) => if other = handle then l.close moment else l
  | (moment, .dropped) => l.close moment

end Life

def Course.life (c : Course) (handle : Nat) : Life := c.history.foldl (Life.note handle) .unborn

end Timers

end ScriptHost
