import ScriptHost.Engine.Expression

/-!
# Running statements

A block runs to its end, to a value that it gives, to a throw, or to a
statement that waits. What is left then is a list of frames, which go on when
the promise is settled, or are unwound to the nearest rescue when it fails.
-/

set_option autoImplicit false

namespace ScriptHost.Engine

inductive Await where
  | promise (key : Nat)
  | settled (result : Except Value Value)
  | load (base specifier : String)

inductive Outcome where
  | ended
  | given (value : Value)
  | waits (await : Await) (cell : Option Cell) (frames : List Frame)

def Outcome.inside (frame : Frame) : Outcome → Outcome
  | .waits await cell frames => .waits await cell (frames ++ [frame])
  | outcome => outcome

def bind (name : String) (value : Option Value) (scope : Scope) : Run Scope := do
  return (name, ⟨← newCell value, false⟩) :: scope

def declareAll (scope : Scope) : List String → Run Scope
  | [] => return scope
  | name :: rest => do declareAll (← bind name none scope) rest

/-- Enter a block: its variables are in sight from its start on. -/
def enter (scope : Scope) (block : List Stmt) : Run Scope :=
  declareAll scope (block.filterMap Stmt.declared?)

def cellOf? (scope : Scope) (name : Option String) : Option Cell :=
  name.bind fun name => (scope.lookup name).map (·.cell)

def store (cell : Option Cell) (value : Value) : Run Unit :=
  match cell with
  | some cell => writeCell cell value
  | none => return ()

def attempted {α : Type} (code : Run α) : Run (Except Value α) :=
  tryCatch (do return .ok (← code)) fun value => return .error value

/-- Call the host with a function that settles a promise; a throw settles it at once. -/
def promised (tellsFailure : Bool) (call : Value → Run Value) : Run Await := do
  let key ← issue
  match ← attempted (call (.function (← issue) (.settle key tellsFailure))) with
  | .ok _ => return .promise key
  | .error value => return .settled (.error value)

def awaitCall (context : Context) (scope : Scope) (call : String) (args : List Expr) : Run Await :=
  promised true fun callback => do
    let function ← hostProperty context call
    let values ← evalAll context scope args
    callValue context function (values ++ [callback])

def startTimerOf (context : Context) (delay interval callback : Value) : Run Value := do
  callValue context (← hostProperty context "startTimer") [delay, interval, callback]

def sleep (context : Context) (scope : Scope) (ms : Expr) : Run Await :=
  promised false fun callback => do
    let function ← hostProperty context "startTimer"
    callValue context function [← eval context scope ms, .int 0, callback]

def callBack (context : Context) (scope : Scope) (call : String) (args : List Expr)
    (parameters : List String) (body : List Stmt) : Run Value := do
  let function ← hostProperty context call
  let values ← evalAll context scope args
  let callback := Value.function (← issue) (.closure parameters body scope context)
  callValue context function (values ++ [callback])

/-- Let all objects inherit a setter. One that they inherit already stays. -/
def addSetter (context : Context) (name : String) (setter : Callable) : Run Unit := do
  let s ← get
  match s.setters.lookup name with
  | some _ => throwType context "property is not configurable"
  | none => set { s with setters := (name, setter) :: s.setters }

/-- The names under which a callback knows its arguments, and a rescue what was thrown. -/
def callbackParameters : List String := ["v_err", "v_result"]

def rescueParameter : String := "v_e"

mutual

def exec (context : Context) (scope : Scope) : Stmt → Run Outcome
  | .print value => do
    let function ← hostProperty context "stdout"
    let _ ← callValue context function [← eval context scope value]
    return .ended
  | .eval value => do
    let _ ← eval context scope value
    return .ended
  | .declare name value => do
    store (cellOf? scope (some name)) (← eval context scope value)
    return .ended
  | .assign name value => do
    assign context scope name (← eval context scope value)
    return .ended
  | .throw value => do throw ((← eval context scope value).thrownBy context)
  | .give value => return .given (← eval context scope value)
  | .await value name => do
    return .waits (.settled (.ok (← eval context scope value))) (cellOf? scope name) []
  | .awaitCall call args name => do
    return .waits (← awaitCall context scope call args) (cellOf? scope name) []
  | .callBack call args body name => do
    store (cellOf? scope name) (← callBack context scope call args callbackParameters body)
    return .ended
  | .timer delay interval body name => do
    let args := [delay, interval]
    store (cellOf? scope name) (← callBack context scope "startTimer" args [] body)
    return .ended
  | .sleep ms => return .waits (← sleep context scope ms) none []
  | .never => return .waits (.promise (← issue)) none []
  | .load specifier name => do
    match ← attempted (do valueText context (← eval context scope specifier)) with
    | .ok text => return .waits (.load context.module text) (cellOf? scope name) []
    | .error value => return .waits (.settled (.error value)) none []
  | .branch condition yes no => do
    if (← eval context scope condition).isTruthy then execBlock context (← enter scope yes) yes
    else execBlock context (← enter scope no) no
  | .attempt body rescue => do
    let inner ← enter scope body
    match ← attempted (execBlock context inner body) with
    | .ok outcome => return outcome.inside (.rescue rescue scope)
    | .error value => do
      let outer ← bind rescueParameter (some value) scope
      execBlock context (← enter outer rescue) rescue
  | .setter name parameter body => do
    addSetter context name.name (.closure [parameter] body scope context)
    return .ended

def execBlock (context : Context) (scope : Scope) : List Stmt → Run Outcome
  | [] => return .ended
  | statement :: rest => do
    match ← exec context scope statement with
    | .ended => execBlock context scope rest
    | .given value => return .given value
    | .waits await cell frames => return .waits await cell (frames ++ [.block rest scope])

end

def rescue (context : Context) (scope : Scope) (body : List Stmt) (value : Value) : Run Outcome := do
  let outer ← bind rescueParameter (some value) scope
  execBlock context (← enter outer body) body

/-- Go on with frames, or unwind them to the nearest rescue after a throw. -/
def proceed (context : Context) (thrown : Option Value) : List Frame → Run Outcome
  | [] => match thrown with
    | some value => throw value
    | none => return .ended
  | frame :: rest => do
    let result ← match frame, thrown with
      | .block todo scope, none => attempted (execBlock context scope todo)
      | .block .., some value => pure (.error value)
      | .rescue .., none => pure (.ok .ended)
      | .rescue body scope, some value => attempted (rescue context scope body value)
    match result with
    | .ok .ended => proceed context none rest
    | .ok (.given value) => return .given value
    | .ok (.waits await cell frames) => return .waits await cell (frames ++ rest)
    | .error value => proceed context (some value) rest

def resumeFrames (context : Context) (cell : Option Cell) (frames : List Frame)
    (result : Except Value Value) : Run Outcome :=
  match result with
  | .ok value => do
    store cell value
    proceed context none frames
  | .error value => proceed context (some (value.thrownBy context)) frames

end ScriptHost.Engine
