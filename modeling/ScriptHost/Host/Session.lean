import ScriptHost.Host.Basic

/-!
# Sessions with a native host

A session uses the primitives of a host step by step and waits for their
answers. Its timers write a text each time they fire. Time passes only in the
steps that wait.
-/

set_option autoImplicit false

namespace ScriptHost.Host

inductive Step where
  | write (text : String)
  | deposit (bytes : Utf8.Bytes)
  | contents
  | clone
  | view
  | counts
  | readSource (specifier : String)
  | resolvePath (path : String) (base : Option String)
  | open (specifier : String)
  | read (handle count : Nat)
  | readAll (handle count : Nat)
  | readBoth (handle count : Nat)
  | readThenClose (handle count : Nat)
  | close (handle : Nat)
  | wait (ms : Nat)
  | startTimer (delay interval : Nat) (text : String)
  | stopTimer (handle : Nat)
  | spawn (command : String) (args : List String)

inductive Answer where
  | nothing
  | count (n : Nat)
  | text (s : String)
  | view (view : HostView)
  | source (result : HostResult String)
  | id (result : LoadResult ModuleId)
  | timer (handle : Nat)
  | host (answer : HostAnswer)
  | pages (result : HostResult (List (List String)))
  | both (first second : HostAnswer)
  | waited
  | spawned (started : HostResult Nat) (exit : HostResult ChildExit)

structure Fire where
  text : String
  at_ : Nat
  deriving DecidableEq, Repr

/-- A host with the texts of its timers, the answers that came and the fires since the last
step. -/
structure Session where
  host : NativeHost Nat
  files : FileSystem
  system : SystemStart
  texts : List (Nat × String)
  answers : List (Nat × HostAnswer)
  log : List Fire

namespace Session

def start (view : HostView) (sink : Sink) (files : FileSystem) : Session :=
  ⟨.start view sink 0, files, Child.start files, [], [], []⟩

def fired (s : Session) (timer : Nat) : Session :=
  match s.texts.lookup timer with
  | none => s
  | some text =>
    { s with host := s.host.write text, log := s.log ++ [⟨text, s.host.schedule.now⟩] }

def happened (s : Session) : Option (HostEvent Nat) → Session
  | none => s
  | some (.fired timer) => s.fired timer
  | some (.answered callback answer) => { s with answers := s.answers ++ [(callback, answer)] }

def turn? (s : Session) : Option Session :=
  match s.host.turn? s.files with
  | none => none
  | some (host, event) => some ({ s with host }.happened event)

def advance (fuel limit : Nat) (s : Session) : Session :=
  match fuel with
  | 0 => s
  | fuel + 1 => match s.turn? with
    | some s => advance fuel limit s
    | none => match s.host.schedule.wake? limit with
      | some schedule => advance fuel limit { s with host := { s.host with schedule } }
      | none => { s with host := { s.host with schedule := { s.host.schedule with now := limit } } }

def pass (s : Session) (ms : Nat) : Session := advance patience (s.host.schedule.now + ms) s

/-- The answer of a callback after everything that can run now; a callback without one was
dropped. -/
def answer (s : Session) (callback : Nat) (lost : HostAnswer) : HostAnswer :=
  (s.answers.lookup callback).getD lost

def lostRead : HostAnswer := .read (.error .callbackDropped)

def lostOpen : HostAnswer := .opened (.error .callbackDropped)

def note (callback : Nat) (s : Session) (started : NativeHost Nat × Option HostAnswer) : Session :=
  { s with host := started.1, answers := s.answers ++ started.2.toList.map (callback, ·) }

def read (s : Session) (handle count callback : Nat) : Session :=
  s.note callback (s.host.readDirectory handle count callback)

def resolve (s : Session) (specifier : String) : LoadResult ModuleId :=
  ModuleId.resolve specifier s.host.view.cwd

def readAll (fuel : Nat) (s : Session) (handle count : Nat) :
    Session × HostResult (List (List String)) :=
  match fuel with
  | 0 => (s, .ok [])
  | fuel + 1 =>
    let s := ({ s with answers := [] }.read handle count 0).pass 0
    match s.answer 0 lostRead with
    | .read (.ok []) => (s, .ok [[]])
    | .read (.ok names) =>
      let (s, rest) := readAll fuel s handle count
      (s, rest.map (names :: ·))
    | .read (.error failure) => (s, .error failure)
    | _ => (s, .ok [])

def spawn (s : Session) (command : String) (args : List String) : Session × Answer :=
  let (host, started) := s.host.spawn s.system command args 0
  let s := { s with host }.pass 0
  match s.answer 0 (.exited (.error .callbackDropped)) with
  | .exited exit => (s, .spawned started exit)
  | _ => (s, .nothing)

def step (s : Session) : Step → Session × Answer
  | .write text => ({ s with host := s.host.write text }, .nothing)
  | .deposit bytes =>
    ({ s with host := { s.host with sink := s.host.sink.deposit bytes } }, .count bytes.length)
  | .contents => (s, .text s.host.sink.text)
  | .clone => (s, .nothing)
  | .view => (s, .view s.host.view)
  | .counts => (s, .text s.host.counts)
  | .readSource specifier => match s.resolve specifier with
    | .error failure => (s, .id (.error failure))
    | .ok id => (s, .source (s.files.readSource id))
  | .resolvePath path base => match (base.map ModuleId.parse).getD (.ok s.host.view.cwd) with
    | .error failure => (s, .id (.error failure))
    | .ok base => (s, .id (ModuleId.resolveFilePath path base))
  | .open specifier => match s.resolve specifier with
    | .error failure => (s, .id (.error failure))
    | .ok id =>
      let s := (s.note 0 (s.host.openDirectory id 0)).pass 0
      (s, .host (s.answer 0 lostOpen))
  | .read handle count =>
    let s := (s.read handle count 0).pass 0
    (s, .host (s.answer 0 lostRead))
  | .readAll handle count =>
    let (s, pages) := s.readAll ((s.host.directories.left handle).length + 1) handle count
    (s, .pages pages)
  | .readBoth handle count =>
    let s := ((s.read handle count 0).read handle count 1).pass 0
    (s, .both (s.answer 0 lostRead) (s.answer 1 lostRead))
  | .readThenClose handle count =>
    let s := s.read handle count 0
    let (host, closed) := s.host.closeDirectory handle
    let s := { s with host }.pass 0
    (s, .both (s.answer 0 lostRead) closed)
  | .close handle =>
    let (host, closed) := s.host.closeDirectory handle
    ({ s with host }, .host closed)
  | .wait ms =>
    let (host, _) := s.host.startTimer ms 0
    ({ s with host }.pass ms, .waited)
  | .startTimer delay interval text =>
    let (host, handle) := s.host.startTimer delay interval
    ({ s with host, texts := (handle, text) :: s.texts }, .timer handle)
  | .stopTimer handle => ({ s with host := s.host.stopTimer handle }, .nothing)
  | .spawn command args => s.spawn command args

def run (s : Session) : List Step → List (Answer × List Fire)
  | [] => []
  | step_ :: rest =>
    let (s, answer) := s.step step_
    (answer, s.log) :: run { s with log := [], answers := [] } rest

end Session

def viewIn (args : List String) (dir : Except SystemFault NativePath) : HostResult HostView :=
  match dir with
  | .error fault => .error (.ofFault fault)
  | .ok dir => match ModuleId.ofDirectoryPath dir with
    | .ok cwd => .ok ⟨cwd, args⟩
    | .error _ => .error (.notAFileUrl dir.shown)

end ScriptHost.Host
