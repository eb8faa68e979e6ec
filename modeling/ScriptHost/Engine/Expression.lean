import ScriptHost.Engine.HostObject

/-!
# Evaluating expressions

Expressions are evaluated from left to right. They may call functions of the
host, which never call back while they run.
-/

set_option autoImplicit false

namespace ScriptHost.Engine

def readVariable (context : Context) (scope : Scope) (name : String) : Run Value := do
  match scope.lookup name with
  | none => throwReference context s!"{name} is not defined"
  | some binding => match ← cell? binding.cell with
    | some value => return value
    | none => throwReference context s!"{name} is not initialized"

def assign (context : Context) (scope : Scope) (name : String) (value : Value) : Run Unit := do
  let _ ← readVariable context scope name
  match scope.lookup name with
  | none => return ()
  | some binding =>
    if binding.isFixed then throwType context s!"'{name}' is read-only"
    else writeCell binding.cell value

def Instance.exportCell? (i : Instance) (name : String) : Option Cell :=
  if i.program.isExported name then (i.scope.lookup name).map (·.cell) else none

def namespaceProperty (context : Context) (key : Nat) (name : String) : Run Value := do
  match (← instance? key).bind (·.exportCell? name) with
  | none => return .undefined
  | some cell => match ← cell? cell with
    | some value => return value
    | none => throwReference context s!"{name} is not initialized"

def errorProperty (e : ErrorValue) (name : String) : Value :=
  match name with
  | "name" => .string e.class_
  | "message" => .string e.message
  | "stack" => (e.trace.map Value.string).getD .undefined
  | "code" => (e.code.map Value.string).getD .undefined
  | _ => .undefined

def length (n : Nat) : Value := .int n

def propertyOf (context : Context) (value : Value) (name : String) : Run Value :=
  match value with
  | .undefined => throwType context (unreadable name "undefined")
  | .null => throwType context (unreadable name "null")
  | .string s => return if name = "length" then length (Value.unitsOf s).length else .undefined
  | .array _ items => return if name = "length" then length items.length else .undefined
  | .error _ e => return errorProperty e name
  | .object _ own => return (own.lookup name).getD (.inherited name)
  | .namespace key => namespaceProperty context key name
  | _ => return .undefined

def place? (index : Value) : Option Nat :=
  match index with
  | .int n => if 0 ≤ n then some n.toNat else none
  | .float x => if 0 ≤ x && x == x.floor then some (Value.toCount x) else none
  | .string s => s.toNat?
  | _ => none

def itemOf (context : Context) (value index : Value) : Run Value := do
  match value, place? index with
  | .array _ items, some i => return items[i]?.getD .undefined
  | .string s, some i => return (s.toList[i]?.map fun c => Value.string (String.ofList [c])).getD .undefined
  | value, _ => propertyOf context value (← valueText context index)

def sortedText (context : Context) (value : Value) : Run Value :=
  match value with
  | .array _ items => do
    let texts ← items.mapM (valueText context)
    return .string (",".intercalate (Value.sortTexts texts))
  | .string s => return .string (",".intercalate (Value.sortTexts (s.toList.map (String.ofList [·]))))
  | .undefined => throwType context (unreadable "Symbol.iterator" "undefined")
  | .null => throwType context (unreadable "Symbol.iterator" "null")
  | _ => throwType context "value is not iterable"

def newError (context : Context) (message : Value) : Run Value := do
  let text ← match message with
    | .undefined => pure ""
    | value => valueText context value
  errorValue "Error" text (some (traceLine context)) none

def sum (context : Context) (a b : Value) : Run Value :=
  match a.add? b with
  | some value => return value
  | none => unshowable context

def isErrorValue : Value → Bool
  | .error .. => true
  | _ => false

def argumentNames (context : Context) : Run String := do
  match ← theArgument context with
  | .nothing => throwType context "cannot convert to object"
  | argument => return ",".intercalate argument.names

mutual

def eval (context : Context) (scope : Scope) : Expr → Run Value
  | .undefined => return .undefined
  | .null => return .null
  | .bool b => return .bool b
  | .int n => return .int n
  | .float x => return .float x
  | .string s => return .string s
  | .array items => do
    let values ← evalAll context scope items
    return .array (← issue) values
  | .object => return .object (← issue) []
  | .symbol => return .symbol (← issue)
  | .arrow body text => return .function (← issue) (.arrow body text scope context)
  | .variable name => readVariable context scope name
  | .host name => hostProperty context name
  | .hasHost name => return .bool (← hasProperty context name)
  | .noHost => return .bool (← theArgument context).isNothing
  | .hostKeys => return .string (← argumentNames context)
  | .callHost name args => do
    let function ← hostProperty context name
    let values ← evalAll context scope args
    callValue context function values
  | .concat items => return .string (String.join (← evalTexts context scope items))
  | .add a b => do
    let x ← eval context scope a
    let y ← eval context scope b
    sum context x y
  | .property e name => do propertyOf context (← eval context scope e) name
  | .index e i => do
    let value ← eval context scope e
    let index ← eval context scope i
    itemOf context value index
  | .sorted e => do sortedText context (← eval context scope e)
  | .typeOf e => do return .string (← eval context scope e).typeName
  | .error message => do newError context (← eval context scope message)
  | .isError e => do return .bool (isErrorValue (← eval context scope e))
  | .same a b => do
    let x ← eval context scope a
    let y ← eval context scope b
    return .bool (x.same y)

def evalAll (context : Context) (scope : Scope) : List Expr → Run (List Value)
  | [] => return []
  | e :: rest => do
    let value ← eval context scope e
    return value :: (← evalAll context scope rest)

def evalTexts (context : Context) (scope : Scope) : List Expr → Run (List String)
  | [] => return []
  | e :: rest => do
    let text ← valueText context (← eval context scope e)
    return text :: (← evalTexts context scope rest)

end

end ScriptHost.Engine
