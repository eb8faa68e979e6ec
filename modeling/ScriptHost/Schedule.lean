/-!
# Cooperative jobs on a virtual clock

Jobs that can run stand in one queue, first in first out. A job that sleeps has
a deadline; when no job can run the clock goes to the earliest deadline, and
the jobs with that deadline join the queue in the order in which they went to
sleep.
-/

set_option autoImplicit false

namespace ScriptHost

/-- More turns than anything of tractable size takes. -/
def patience : Nat := Nat.pow 2 40

structure Schedule (Job : Type) where
  now : Nat
  ready : List Job
  asleep : List (Nat × Job)

namespace Schedule

variable {Job : Type}

def start : Schedule Job := ⟨0, [], []⟩

def spawn (s : Schedule Job) (job : Job) : Schedule Job := { s with ready := s.ready ++ [job] }

def sleep (s : Schedule Job) (ms : Nat) (job : Job) : Schedule Job :=
  { s with asleep := s.asleep ++ [(s.now + ms, job)] }

def next? (s : Schedule Job) : Option (Job × Schedule Job) :=
  match s.ready with
  | [] => none
  | job :: rest => some (job, { s with ready := rest })

def earliest : List (Nat × Job) → Option Nat
  | [] => none
  | (deadline, _) :: rest => match earliest rest with
    | none => some deadline
    | some other => some (min deadline other)

def earliest? (s : Schedule Job) : Option Nat := earliest s.asleep

def wakeAt (s : Schedule Job) (deadline : Nat) : Schedule Job :=
  { now := deadline
    ready := s.ready ++ (s.asleep.filter (·.1 = deadline)).map (·.2)
    asleep := s.asleep.filter (·.1 ≠ deadline) }

def wake? (s : Schedule Job) (limit : Nat) : Option (Schedule Job) :=
  match s.earliest? with
  | some deadline => if deadline ≤ limit then some (s.wakeAt deadline) else none
  | none => none

end Schedule

end ScriptHost
