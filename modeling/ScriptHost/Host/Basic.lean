import ScriptHost.Dispatch.Basic
import ScriptHost.Host.Child
import ScriptHost.Host.Directories
import ScriptHost.Host.Output
import ScriptHost.Source.File
import ScriptHost.Timers.Basic

/-!
# The native host

Everything a program can do outside its engine: write text, start timers, read
directories, run children. A primitive that takes a callback answers it at once
if it refuses, and otherwise queues one job whose turn brings the one answer.
`K` names the callbacks.
-/

set_option autoImplicit false

namespace ScriptHost

inductive HostAnswer where
  | opened (result : HostResult Nat)
  | read (result : HostResult (List String))
  | closed (result : HostResult Unit)
  | exited (result : HostResult ChildExit)

inductive HostJob (K : Type) where
  | timer (job : TimerJob)
  | open (path : NativePath) (callback : K)
  | read (read : Nat) (callback : K)
  | exit (ended : HostResult ChildExit) (callback : K)

inductive HostEvent (K : Type) where
  | fired (timer : Nat)
  | answered (callback : K) (answer : HostAnswer)

structure NativeHost (K : Type) where
  view : HostView
  sink : Sink
  timers : Timers
  directories : Directories
  schedule : Schedule (HostJob K)

namespace NativeHost

variable {K : Type}

def start (view : HostView) (sink : Sink) (now : Nat) : NativeHost K :=
  ⟨view, sink, .empty, .empty, { Schedule.start with now }⟩

def write (h : NativeHost K) (text : String) : NativeHost K := { h with sink := h.sink.write text }

def counts (h : NativeHost K) : String :=
  s!"timers: {h.timers.activeCount}, directories: {h.directories.openCount}"

def startTimer (h : NativeHost K) (delay interval : Nat) : NativeHost K × Nat :=
  let (handle, timers, schedule) := h.timers.start h.schedule .timer delay interval
  ({ h with timers, schedule }, handle)

def stopTimer (h : NativeHost K) (handle : Nat) : NativeHost K :=
  { h with timers := h.timers.stop handle }

def queue (h : NativeHost K) (job : HostJob K) : NativeHost K :=
  { h with schedule := h.schedule.spawn job }

def openDirectory (h : NativeHost K) (id : ModuleId) (callback : K) :
    NativeHost K × Option HostAnswer :=
  match id.hostPath with
  | .error failure => (h, some (.opened (.error failure)))
  | .ok path => (h.queue (.open path callback), none)

def readDirectory (h : NativeHost K) (handle count : Nat) (callback : K) :
    NativeHost K × Option HostAnswer :=
  let (directories, started) := h.directories.read handle count
  let h := { h with directories }
  match started with
  | .error failure => (h, some (.read (.error failure)))
  | .ok read => (h.queue (.read read callback), none)

def closeDirectory (h : NativeHost K) (handle : Nat) : NativeHost K × HostAnswer :=
  let (directories, result) := h.directories.close handle
  ({ h with directories }, .closed result)

def workingPath (h : NativeHost K) : NativePath := (h.view.cwd.toFilePath.toOption).getD [NativePath.slash]

/-- Start a child. A failure to start is the result of the call; otherwise that is the child's
number, and the callback gets the child's end. -/
def spawn (h : NativeHost K) (system : SystemStart) (command : String) (args : List String)
    (callback : K) : NativeHost K × HostResult Nat :=
  match system.child h.workingPath command args with
  | .error failure => (h, .error failure)
  | .ok (number, ended) => (h.queue (.exit ended callback), .ok number)

def opened (h : NativeHost K) (fs : FileSystem) (path : NativePath) :
    NativeHost K × HostResult Nat :=
  match fs.list path with
  | .error fault => (h, .error (.ofFault fault))
  | .ok names =>
    let (directories, handle) := h.directories.issue (names.map .ok)
    ({ h with directories }, .ok handle)

def run (h : NativeHost K) (fs : FileSystem) : HostJob K → NativeHost K × Option (HostEvent K)
  | .timer job =>
    let (fired, timers, schedule) := h.timers.run h.schedule .timer job
    ({ h with timers, schedule }, fired.map .fired)
  | .open path callback =>
    let (h, result) := h.opened fs path
    (h, some (.answered callback (.opened result)))
  | .read read callback =>
    let (directories, page) := h.directories.serve read
    ({ h with directories }, page.map fun page => .answered callback (.read page))
  | .exit ended callback => (h, some (.answered callback (.exited ended)))

/-- The job whose turn it is, run. -/
def turn? (h : NativeHost K) (fs : FileSystem) : Option (NativeHost K × Option (HostEvent K)) :=
  match h.schedule.next? with
  | none => none
  | some (job, schedule) => some ({ h with schedule }.run fs job)

end NativeHost

end ScriptHost
