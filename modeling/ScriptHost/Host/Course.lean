import ScriptHost.Callback.Adapt
import ScriptHost.Host.Basic

/-!
# The course of a host

A host at work. Its primitives are called at any moment, with callbacks that are
numbered in the order of the calls, and tasks have their turns between the calls.
A task that waits for the system, as the opening of a directory and a child do,
lets the tasks behind it pass. A read can be suspended before each entry, and
others begin and go on in the meantime.
-/

set_option autoImplicit false

namespace ScriptHost

inductive HostCall where
  | open (id : ModuleId)
  | read (handle count : Nat)
  | close (handle : Nat)
  | spawn (command : String) (args : List String)

inductive HostWord where
  /-- The call returned a failure. -/
  | refused (failure : HostFailure)
  /-- The callback was called. -/
  | answered (answer : HostAnswer)

inductive HostValue where
  | handle (handle : Nat)
  | page (names : List String)
  | nothing
  | exit (exit : ChildExit)
  deriving DecidableEq, Repr

def HostAnswer.result : HostAnswer → HostResult HostValue
  | .opened result => result.map .handle
  | .read result => result.map .page
  | .closed result => result.map fun _ => .nothing
  | .exited result => result.map .exit

/-- The callback that a job calls at its end. -/
def HostJob.callback? {K : Type} : HostJob K → Option K
  | .timer _ => none
  | .open _ callback | .read _ callback | .exit _ callback => some callback

def HostJob.read? {K : Type} : HostJob K → Option Nat
  | .read n _ => some n
  | .timer _ | .open _ _ | .exit _ _ => none

namespace NativeHost

def ask {K : Type} (h : NativeHost K) (system : SystemStart) (callback : K) :
    HostCall → NativeHost K × Option HostWord
  | .open id =>
    let (h, answer) := h.openDirectory id callback
    (h, answer.map .answered)
  | .read handle count =>
    let (h, answer) := h.readDirectory handle count callback
    (h, answer.map .answered)
  | .close handle =>
    let (h, answer) := h.closeDirectory handle
    (h, some (.answered answer))
  | .spawn command args => match h.spawn system command args callback with
    | (h, .error failure) => (h, some (.refused failure))
    | (h, .ok _) => (h, none)

structure Course where
  host : NativeHost Nat
  /-- The calls and their moments. The callback of a call is its number. -/
  calls : List (Nat × HostCall)
  /-- The reads that began and were suspended, with their callbacks. -/
  reading : List (Nat × Nat)
  /-- What was told of each callback and when, oldest first. -/
  told : List (Nat × Nat × HostWord)

namespace Course

def start (view : HostView) (sink : Sink) (now : Nat) : Course :=
  ⟨.start view sink now, [], [], []⟩

def now (c : Course) : Nat := c.host.schedule.now

def tell (c : Course) (callback : Nat) (word : Option HostWord) : Course :=
  { c with told := c.told ++ word.toList.map (c.now, callback, ·) }

def call (c : Course) (system : SystemStart) (call : HostCall) : Course :=
  let (host, word) := c.host.ask system c.calls.length call
  { c with host, calls := c.calls ++ [(c.now, call)] }.tell c.calls.length word

def happened (c : Course) : Option (HostEvent Nat) → Course
  | some (.answered callback answer) => c.tell callback (some (.answered answer))
  | some (.fired _) | none => c

/-- The read that a job leaves under way, if its turn brought no page. -/
def leaves : HostJob Nat → Option (HostEvent Nat) → List (Nat × Nat)
  | .read read callback, none => [(read, callback)]
  | _, _ => []

def turn? (c : Course) (fs : FileSystem) : Option Course :=
  match c.host.schedule.next? with
  | none => none
  | some (job, schedule) =>
    let (host, event) := { c.host with schedule }.run fs job
    some ({ c with host, reading := c.reading ++ leaves job event }.happened event)

def wait? (c : Course) : Option Course :=
  match c.host.schedule.next? with
  | some (.open path callback, schedule) =>
    some { c with host := { c.host with schedule }.queue (.open path callback) }
  | some (.exit ended callback, schedule) =>
    some { c with host := { c.host with schedule }.queue (.exit ended callback) }
  | _ => none

/-- The job at the front is a read that begins and is suspended. -/
def begin? (c : Course) : Option Course :=
  match c.host.schedule.next? with
  | some (.read read callback, schedule) =>
    (c.host.directories.begin read).map fun directories =>
      { c with
        host := { c.host with schedule, directories }
        reading := c.reading ++ [(read, callback)] }
  | _ => none

def pull? (c : Course) (read : Nat) : Option Course :=
  match c.reading.lookup read, c.host.directories.pull read with
  | some callback, some (directories, page) =>
    some ({ c with
      host := { c.host with directories }
      reading := if page.isSome then c.reading.filter (·.1 ≠ read) else c.reading }.tell callback
        (page.map fun page => .answered (.read page)))
  | _, _ => none

def pass (c : Course) (moment : Nat) : Course :=
  let schedule := match c.host.schedule.wake? moment with
    | some schedule => schedule
    | none => { c.host.schedule with now := max c.now moment }
  { c with host := { c.host with schedule } }

inductive Move where
  | call (system : SystemStart) (call : HostCall)
  | startTimer (delay interval : Nat)
  | stopTimer (handle : Nat)
  | write (text : String)
  | turn (fs : FileSystem)
  | wait
  | begin
  | pull (read : Nat)
  | pass (moment : Nat)

def move? (c : Course) : Move → Option Course
  | .call system call => some (c.call system call)
  | .startTimer delay interval => some { c with host := (c.host.startTimer delay interval).1 }
  | .stopTimer handle => some { c with host := c.host.stopTimer handle }
  | .write text => some { c with host := c.host.write text }
  | .turn fs => c.turn? fs
  | .wait => c.wait?
  | .begin => c.begin?
  | .pull read => c.pull? read
  | .pass moment => some (c.pass moment)

def run (c : Course) : List Move → Option Course
  | [] => some c
  | a :: rest => (c.move? a).bind (run · rest)

/-! ## What a course tells of a callback -/

def answerIn (callback : Nat) : Nat × Nat × HostWord → Option (Nat × HostAnswer)
  | (moment, other, .answered answer) => if other = callback then some (moment, answer) else none
  | _ => none

def refusalIn (callback : Nat) : Nat × Nat × HostWord → Option HostFailure
  | (_, other, .refused failure) => if other = callback then some failure else none
  | _ => none

def answersOf (c : Course) (callback : Nat) : List (Nat × HostAnswer) :=
  c.told.filterMap (answerIn callback)

def refusalsOf (c : Course) (callback : Nat) : List HostFailure :=
  c.told.filterMap (refusalIn callback)

/-- The callbacks that tasks are going to call. -/
def owing (c : Course) : List Nat :=
  c.host.schedule.ready.filterMap HostJob.callback? ++ c.reading.map (·.2)

def usesOf (c : Course) (callback : Nat) (moment : Nat) : List (HostMove HostValue) :=
  (c.answersOf callback).flatMap fun (at_, answer) =>
    [.wait (at_ - moment), .use (.complete answer.result)]

end Course

end NativeHost

end ScriptHost
