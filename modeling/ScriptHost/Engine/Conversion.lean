import ScriptHost.Engine.Instance

/-!
# What the host hands to programs

The host makes new objects for programs: the argument of `main`, and the results
and errors that callbacks are called with. It sets their properties one after
the other. A setter that all objects inherit is called instead, and then the
object does not have the property, or there is no object if the setter throws.
-/

set_option autoImplicit false

namespace ScriptHost.Engine

def bindAll (scope : Scope) : List (String × Value) → Run Scope
  | [] => return scope
  | (name, value) :: rest => do bindAll (← bind name (some value) scope) rest

def withArguments (args : List Value) (parameters : List String) : List (String × Value) :=
  parameters.zipIdx.map fun (name, i) => (name, args[i]?.getD .undefined)

def settleWith (promise : Nat) (tellsFailure : Bool) (args : List Value) : Run Unit :=
  let first := args[0]?.getD .undefined
  if tellsFailure then
    settlePromise promise
      (if first.isTruthy then .error first else .ok (args[1]?.getD .undefined))
  else settlePromise promise (.ok first)

def isObject : Value → Bool
  | .array .. | .object .. | .error .. | .namespace _ | .function .. => true
  | _ => false

def callOnNothing (name : String) (args : List Value) : Run Unit :=
  let refused : Run Unit := throwType (contextOf "") "cannot convert to object"
  match name with
  | "toString" | "constructor" => return ()
  | "toLocaleString" => throwType (contextOf "") (unreadable "toString" "undefined")
  | "isPrototypeOf" => if isObject (args[0]?.getD .undefined) then refused else return ()
  | _ => refused

def callBackWith (f : Callable) (args : List Value) : Run Unit := do
  match f with
  | .arrow body _ scope context => do
    let _ ← eval context scope body
  | .closure parameters body scope context => do
    let outer ← bindAll scope (withArguments args parameters)
    let _ ← execBlock context (← enter outer body) body
  | .settle promise tellsFailure => settleWith promise tellsFailure args
  | .host name => do
    let _ ← callHost (contextOf "") name args
  | .inherited name => callOnNothing name args
  | .main _ => return ()

/-- Set a property of a new object, or call the setter that the object inherits; whether the object
has the property then. -/
def setProperty (name : String) (value : Value) : Run Bool := do
  match (← get).setters.lookup name with
  | none => return true
  | some setter => do
    callBackWith setter [value]
    return false

section Properties

variable {α : Type}

/-- Set properties in turn; one that a setter took is missing. -/
def setEach (value : α → Value) : List (String × α) → Run (List (Option (String × α)))
  | [] => return []
  | property :: rest => do
    let isKept ← setProperty property.1 (value property.2)
    return (if isKept then some property else none) :: (← setEach value rest)

def indexed (items : List α) : List (String × α) :=
  items.zipIdx.map fun (item, i) => (toString i, item)

/-- The items of a list whose properties were set. Missing ones at its end do not count. -/
def itemsOf (properties : List (Option (String × α))) : List (Option α) :=
  ((properties.map (·.map (·.2))).reverse.dropWhile Option.isNone).reverse

end Properties

def failureCode? : HostFailure → Option String
  | .io code _ => some code
  | _ => none

def codeName : String := "code"

def failureProperties (failure : HostFailure) : List (String × Value) :=
  (failureCode? failure).toList.map fun code => (codeName, .string code)

def exitProperties (exit : ChildExit) : List (String × Value) := [
  (codeName, (exit.code.map fun n => Value.int n).getD .undefined),
  ("success", .bool exit.isSuccess)]

def failureArguments (failure : HostFailure) : Run (List Value) := do
  let kept ← setEach id (failureProperties failure)
  let code := if kept.any Option.isNone then none else failureCode? failure
  return [← errorValue "Error" failure.message none code, .undefined]

def resultArguments {α : Type} (convert : α → Run Value) : HostResult α → Run (List Value)
  | .error failure => failureArguments failure
  | .ok a => return [.null, ← convert a]

def namesValue (names : List String) : Run Value := do
  let kept ← setEach Value.string (indexed names)
  return .array (← issue) (places ((itemsOf kept).map (·.map .string)))

def exitValue (exit : ChildExit) : Run Value := do
  let kept ← setEach id (exitProperties exit)
  return .object (← issue) kept.reduceOption

def answerArguments : HostAnswer → Run (List Value)
  | .opened result => resultArguments (fun handle => return .float (Float.ofNat handle)) result
  | .read result => resultArguments namesValue result
  | .closed result => resultArguments (fun _ => return .undefined) result
  | .exited result => resultArguments exitValue result

def argumentsFor : Option HostAnswer → Run (List Value)
  | none => return []
  | some answer => answerArguments answer

def hostFunctionValues : Run (List (String × Granted)) :=
  hostFunctions.mapM fun (name, _) => return (name, .function (← issue) name)

def grant (argument : EntryArgument) : Run MainArgument :=
  match argument.view? with
  | none => return .nothing
  | some view => do
    let cwd ← setEach Granted.value [("cwd", .text view.cwd.text)]
    let items ← setEach Value.string (indexed view.args)
    let args := Granted.texts (← issue) (itemsOf items)
    let functions ← if argument.isNative then hostFunctionValues else pure []
    let others ← setEach Granted.value (("args", args) :: functions)
    return .object (← issue) (cwd ++ others).reduceOption

end ScriptHost.Engine
