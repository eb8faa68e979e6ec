import ScriptHost.Engine.State

/-!
# The argument of `main`

It shows the working directory and the arguments; in native form it also has
the functions of the host. What it does not have it inherits, as all objects do.
A function of the host checks how many arguments it has, then the kind of each
in order, and only then does something. A callback never runs inside the call
that was given it.
-/

set_option autoImplicit false

namespace ScriptHost.Engine

inductive Kind where
  | any
  | text
  | number
  | texts
  | function
  deriving DecidableEq, Repr

def hostFunctions : List (String × List Kind) := [
  ("stdout", [.any]),
  ("resolveURL", [.text, .text]),
  ("resolveFilePath", [.text, .text]),
  ("readSourceSync", [.text]),
  ("startTimer", [.number, .number, .function]),
  ("stopTimer", [.number]),
  ("openDirectory", [.text, .function]),
  ("readDirectory", [.number, .number, .function]),
  ("closeDirectory", [.number, .function]),
  ("spawnProcess", [.text, .texts, .function])]

def MainArgument.names : MainArgument → List String
  | .nothing => []
  | .object _ own => own.map (·.1)

/-- The items of a list with gaps, which read as undefined. -/
def places (items : List (Option Value)) : List Value := items.map (·.getD .undefined)

def Granted.value : Granted → Value
  | .text s => .string s
  | .texts ref items => .array ref (places (items.map (·.map .string)))
  | .function ref name => .function ref (.host name)

def MainArgument.value? : MainArgument → Option Value
  | .nothing => none
  | .object ref own => some (.object ref (own.map fun (name, granted) => (name, granted.value)))

def argumentProperty (own : List (String × Granted)) (name : String) : Value :=
  ((own.lookup name).map Granted.value).getD (.inherited name)

def unreadable (name of_ : String) : String := s!"cannot read property '{name}' of {of_}"

/-- The argument of `main`, which only code inside a `main` can name. -/
def theArgument (context : Context) : Run MainArgument :=
  match context.argument with
  | some argument => return argument
  | none => throwReference context "sys is not defined"

def hostProperty (context : Context) (name : String) : Run Value := do
  match ← theArgument context with
  | .nothing => throwType context (unreadable name "undefined")
  | .object _ own => return argumentProperty own name

def hasProperty (context : Context) (name : String) : Run Bool := do
  match ← theArgument context with
  | .nothing => return false
  | .object _ own => match argumentProperty own name with
    | .undefined => return false
    | _ => return true

inductive Argument where
  | any (value : Value)
  | text (s : String)
  | number (x : Float)
  | texts (items : List String)
  | function (f : Callable)

def wrongKind {α : Type} (context : Context) (value : Value) (wanted : String) : Run α :=
  throwType context s!"Error converting from js '{value.kindName}' into type '{wanted}'"

def textOf (context : Context) (value : Value) : Run String :=
  match value with
  | .string s => return s
  | value => wrongKind context value "string"

def argumentOf (context : Context) (kind : Kind) (value : Value) : Run Argument :=
  match kind, value with
  | .any, value => return .any value
  | .text, value => return .text (← textOf context value)
  | .number, value => match value.number? with
    | some x => return .number x
    | none => wrongKind context value "f64"
  | .texts, .array _ items => return .texts (← items.mapM (textOf context))
  | .texts, value => wrongKind context value "array"
  | .function, .function _ f => return .function f
  | .function, value => wrongKind context value "function"

def argumentsOf (context : Context) : List Kind → List Value → Run (List Argument)
  | kind :: kinds, value :: values => do
    let first ← argumentOf context kind value
    return first :: (← argumentsOf context kinds values)
  | _, _ => return []

def unshowable {α : Type} (context : Context) : Run α :=
  throwType context "cannot convert symbol to string"

def valueText (context : Context) (value : Value) : Run String :=
  match value.text? with
  | some text => return text
  | none => unshowable context

def orThrow {α : Type} (context : Context) : LoadResult α → Run α
  | .ok a => return a
  | .error failure => throwFailure context failure.message

def orThrowHost {α : Type} (context : Context) : HostResult α → Run α
  | .ok a => return a
  | .error failure => throwFailure context failure.message

def writeText (text : String) : Run Unit := do
  let s ← get
  set { s with host := s.host.write text }
  if !text.isEmpty then note (.wrote text s.host.schedule.now)

def resolveUrl (context : Context) (specifier base : String) : Run Value := do
  let id ← orThrow context ((ModuleId.parse base).bind (ModuleId.resolve specifier))
  return .string id.text

def resolvePath (context : Context) (path base : String) : Run Value := do
  let id ← orThrow context ((ModuleId.parse base).bind (ModuleId.resolveFilePath path))
  return .string id.text

def readSource (context : Context) (url : String) : Run Value := do
  let id ← orThrow context (ModuleId.parse url)
  return .string (← orThrowHost context ((← get).sources.files.readSource id))

def State.withTimer (s : State) (delay interval : Nat) (f : Callable) : State :=
  let (host, handle) := s.host.startTimer delay interval
  { s with
    host
    timerCallbacks := (handle, f) :: s.timerCallbacks
    history := .started handle interval f :: s.history }

def State.withoutTimer (s : State) (handle : Nat) : State :=
  { s with
    host := s.host.stopTimer handle
    timerCallbacks := s.timerCallbacks.filter (·.1 ≠ handle)
    history := .stopped handle :: s.history }

def startTimer (delay interval : Float) (f : Callable) : Run Value := do
  let s ← get
  let (delay, interval) := (Value.toCount delay, Value.toCount interval)
  set (s.withTimer delay interval f)
  return .float (Float.ofNat (s.host.startTimer delay interval).2)

def stopTimer (handle : Float) : Run Value := do
  modify (·.withoutTimer (Value.toCount handle))
  return .undefined

def State.withAnswer (s : State) (key : Nat) (f : Callable) (answer : HostAnswer) : State :=
  { s with
    woken := s.woken ++ [(.primitive key, f, some answer)]
    history := .answered key answer :: s.history }

/-- What a primitive does when it is called: it refuses, or it gives a value, and answers at once or
in its own time. -/
abbrev Primitive := NativeHost Nat → Nat → HostResult (Value × NativeHost Nat × Option HostAnswer)

/-- Hand a callback to a primitive. It is kept until the answer comes, or is to be called if the
answer came already. -/
def attend (context : Context) (f : Callable) (primitive : Primitive) : Run Value := do
  let key ← issue
  let s ← get
  let (value, host, answer?) ← orThrowHost context (primitive s.host key)
  let accepted : State := { s with host, history := .accepted key f :: s.history }
  set (match answer? with
    | some answer => accepted.withAnswer key f answer
    | none => { accepted with callbacks := (key, f) :: s.callbacks })
  return value

def openDirectory (context : Context) (url : String) (f : Callable) : Run Value := do
  let id ← orThrow context (ModuleId.parse url)
  attend context f fun host key => .ok (.undefined, host.openDirectory id key)

def readDirectory (context : Context) (handle count : Float) (f : Callable) : Run Value :=
  attend context f fun host key =>
    .ok (.undefined, host.readDirectory (Value.toCount handle) (Value.toCount count) key)

def closeDirectory (context : Context) (handle : Float) (f : Callable) : Run Value :=
  attend context f fun host _ =>
    let (host, answer) := host.closeDirectory (Value.toCount handle)
    .ok (.undefined, host, some answer)

def spawn (context : Context) (command : String) (args : List String) (f : Callable) : Run Value := do
  let system := (← get).system
  attend context f fun host key =>
    let (host, started) := host.spawn system command args key
    started.map fun (number : Nat) => (.ofSum number, host, none)

def performHost (context : Context) (name : String) (args : List Argument) : Run Value :=
  match name, args with
  | "stdout", [.any value] => do
    writeText (← valueText context value)
    return .undefined
  | "resolveURL", [.text specifier, .text base] => resolveUrl context specifier base
  | "resolveFilePath", [.text path, .text base] => resolvePath context path base
  | "readSourceSync", [.text url] => readSource context url
  | "startTimer", [.number delay, .number interval, .function f] => startTimer delay interval f
  | "stopTimer", [.number handle] => stopTimer handle
  | "openDirectory", [.text url, .function f] => openDirectory context url f
  | "readDirectory", [.number handle, .number count, .function f] => readDirectory context handle count f
  | "closeDirectory", [.number handle, .function f] => closeDirectory context handle f
  | "spawnProcess", [.text command, .texts args, .function f] => spawn context command args f
  | _, _ => return .undefined

def tooFew (given wanted : Nat) : String :=
  s!"Error calling function with {given} argument(s) while {wanted} where expected"

/-- Call a function of the host; arguments that it does not take are ignored. -/
def callHost (context : Context) (name : String) (args : List Value) : Run Value := do
  let kinds := (hostFunctions.lookup name).getD []
  if args.length < kinds.length then throwType context (tooFew args.length kinds.length)
  performHost context name (← argumentsOf context kinds args)

def callOnArgument (context : Context) (name : String) (args : List Value) : Run Value := do
  let argument ← theArgument context
  match name, args[0]?.getD .undefined with
  | "toString", _ | "toLocaleString", _ => return .string Value.objectText
  | "valueOf", _ => return argument.value?.getD .undefined
  | "hasOwnProperty", .symbol _ | "propertyIsEnumerable", .symbol _ => return .bool false
  | "hasOwnProperty", value | "propertyIsEnumerable", value =>
    return .bool (argument.names.contains (← valueText context value))
  | "isPrototypeOf", _ => return .bool false
  | _, _ => return .undefined

def callValue (context : Context) (value : Value) (args : List Value) : Run Value :=
  match value with
  | .function _ (.host name) => callHost context name args
  | .function _ (.inherited name) => callOnArgument context name args
  | _ => throwType context "not a function"

end ScriptHost.Engine
