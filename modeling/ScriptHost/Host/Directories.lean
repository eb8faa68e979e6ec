import ScriptHost.Failure
import ScriptHost.Text.Utf8

/-!
# Open directories

An open directory has a handle that was never used before and a stream of the
entries it still has to give. A read that is accepted starts a task, and tasks
begin in the order in which they were started. One that begins joins the line
of its stream; the first of a line holds the stream and takes entries from it,
one at a time, until its page is full or the stream ends. Closing forgets the
handle; a read that was accepted before has its stream and gives its page in its
turn.
-/

set_option autoImplicit false

namespace ScriptHost

abbrev DirectoryEntry := Except SystemFault Utf8.Bytes

abbrev DirectoryPage := HostResult (List String)

structure DirectoryStream where
  entries : List DirectoryEntry
  /-- The reads that wait for the stream, of which the first holds it. -/
  line : List Nat

/-- A read under way, with the names it has so far. -/
structure DirectoryRead where
  handle : Nat
  count : Nat
  names : List String
  deriving DecidableEq, Repr

def DirectoryRead.add (name : String) (r : DirectoryRead) : DirectoryRead :=
  { r with names := r.names ++ [name] }

inductive DirectoryEvent where
  | opened (handle : Nat) (entries : List DirectoryEntry)
  | refused (handle count : Nat) (failure : HostFailure)
  | accepted (read handle count : Nat)
  | delivered (read handle : Nat) (page : DirectoryPage)
  | closed (handle : Nat) (result : HostResult Unit)

structure Directories where
  issued : Nat
  handles : List Nat
  streams : List (Nat × DirectoryStream)
  accepted : Nat
  reads : List (Nat × DirectoryRead)
  /-- The reads that have not begun. -/
  spawned : List Nat
  /-- What happened, oldest first. -/
  history : List DirectoryEvent

namespace Directories

def empty : Directories := ⟨0, [], [], 0, [], [], []⟩

def name (handle : Nat) : String := s!"dir#{handle}"

def note (d : Directories) (event : DirectoryEvent) : Directories :=
  { d with history := d.history ++ [event] }

def isOpen (d : Directories) (handle : Nat) : Bool := handle ∈ d.handles

def openCount (d : Directories) : Nat := d.handles.length

def left (d : Directories) (handle : Nat) : List DirectoryEntry :=
  ((d.streams.lookup handle).map (·.entries)).getD []

def issue (d : Directories) (entries : List DirectoryEntry) : Directories × Nat :=
  let handle := d.issued + 1
  ({ d with
    issued := handle
    handles := d.handles ++ [handle]
    streams := d.streams ++ [(handle, DirectoryStream.mk entries [])] }.note (.opened handle entries), handle)

def badHandle {α : Type} (handle : Nat) : HostResult α := .error (.badHandle (name handle))

def emptyPage : HostFailure :=
  .io FaultKind.invalidInput.code "max_count must be at least 1"

def accept (d : Directories) (handle count : Nat) : HostResult Unit :=
  if count = 0 then .error emptyPage
  else if d.isOpen handle then .ok ()
  else badHandle handle

def read (d : Directories) (handle count : Nat) : Directories × HostResult Nat :=
  match d.accept handle count with
  | .error failure => (d.note (.refused handle count failure), .error failure)
  | .ok _ =>
    ({ d with
      accepted := d.accepted + 1
      reads := d.reads ++ [(d.accepted, DirectoryRead.mk handle count [])]
      spawned := d.spawned ++ [d.accepted] }.note (.accepted d.accepted handle count),
      .ok d.accepted)

def close (d : Directories) (handle : Nat) : Directories × HostResult Unit :=
  let result := if d.isOpen handle then .ok () else badHandle handle
  ({ d with handles := d.handles.erase handle }.note (.closed handle result), result)

def changed {V : Type} (key : Nat) (change : V → V) (table : List (Nat × V)) : List (Nat × V) :=
  table.map fun (n, value) => (n, if n = key then change value else value)

def setStream (d : Directories) (handle : Nat) (stream : DirectoryStream) : Directories :=
  { d with streams := changed handle (fun _ => stream) d.streams }

/-- The read that was started first among those that have not begun joins the line of its
stream. -/
def begin (d : Directories) (read : Nat) : Option Directories :=
  match d.spawned, d.reads.lookup read with
  | first :: spawned, some r => match d.streams.lookup r.handle with
    | some stream =>
      if first = read then
        some ({ d with spawned }.setStream r.handle { stream with line := stream.line ++ [read] })
      else none
    | none => none
  | _, _ => none

/-- A read ends with its page and leaves its stream to the next in line. -/
def deliver (d : Directories) (read handle : Nat) (stream : DirectoryStream)
    (page : DirectoryPage) : Directories :=
  ({ d with reads := d.reads.filter (·.1 ≠ read) }.setStream handle
    { stream with line := stream.line.tail }).note (.delivered read handle page)

/-- A read takes a name from its stream. -/
def take (d : Directories) (read handle : Nat) (stream : DirectoryStream) (name : String) :
    Directories :=
  { d with reads := changed read (.add name) d.reads }.setStream handle stream

/-- The read that holds its stream goes on: to the next entry, or to its end with its page. -/
def pull (d : Directories) (read : Nat) : Option (Directories × Option DirectoryPage) :=
  match d.reads.lookup read with
  | none => none
  | some r => match d.streams.lookup r.handle with
    | none => none
    | some stream =>
      if stream.line.head? = some read then
        if r.names.length < r.count then
          match stream.entries with
          | [] => some (d.deliver read r.handle stream (.ok r.names), some (.ok r.names))
          | .ok bytes :: entries =>
            some (d.take read r.handle { stream with entries } (Utf8.textLossy bytes), none)
          | .error fault :: entries =>
            some (d.deliver read r.handle { stream with entries } (.error (.ofFault fault)),
              some (.error (.ofFault fault)))
        else some (d.deliver read r.handle stream (.ok r.names), some (.ok r.names))
      else none

def pullAll (fuel : Nat) (d : Directories) (read : Nat) : Directories × Option DirectoryPage :=
  match fuel with
  | 0 => (d, none)
  | fuel + 1 => match d.pull read with
    | none => (d, none)
    | some (d, some page) => (d, some page)
    | some (d, none) => pullAll fuel d read

/-- What is left to do: reads begin, take entries and end. -/
def work (d : Directories) : Nat :=
  d.spawned.length + d.reads.length + (d.streams.flatMap (·.2.entries)).length

def serve (d : Directories) (read : Nat) : Directories × Option DirectoryPage :=
  match d.begin read with
  | none => (d, none)
  | some d => d.pullAll d.work read

def sorted (names : List String) : List String := names.mergeSort fun a b => a ≤ b

inductive Step where
  | open (entries : List DirectoryEntry)
  | read (handle count : Nat)
  | close (handle : Nat)
  | begin (read : Nat)
  | pull (read : Nat)

def step (d : Directories) : Step → Option Directories
  | .open entries => some (d.issue entries).1
  | .read handle count => some (d.read handle count).1
  | .close handle => some (d.close handle).1
  | .begin read => d.begin read
  | .pull read => (d.pull read).map (·.1)

def run (d : Directories) : List Step → Option Directories
  | [] => some d
  | a :: rest => (d.step a).bind (run · rest)

/-! ## What a history tells -/

def startIn (handle : Nat) : DirectoryEvent → Option (Nat × Nat)
  | .accepted read other count => if other = handle then some (read, count) else none
  | _ => none

def deliveryIn (handle : Nat) : DirectoryEvent → Option (Nat × DirectoryPage)
  | .delivered read other page => if other = handle then some (read, page) else none
  | _ => none

def startsOf (d : Directories) (handle : Nat) : List (Nat × Nat) :=
  d.history.filterMap (startIn handle)

def deliveriesOf (d : Directories) (handle : Nat) : List (Nat × DirectoryPage) :=
  d.history.filterMap (deliveryIn handle)

end Directories

end ScriptHost
