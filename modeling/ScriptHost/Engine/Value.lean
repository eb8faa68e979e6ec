import ScriptHost.Number.Layout
import ScriptHost.Program.Syntax
import ScriptHost.Text.Quoted

/-!
# Values

What expressions come to. Objects carry a reference that tells them apart, and
plain ones their own properties; a function carries what it does when it is
called, with the variables that it sees.
-/

set_option autoImplicit false

namespace ScriptHost.Engine

abbrev Cell := Nat

structure Binding where
  cell : Cell
  isFixed : Bool
  deriving DecidableEq, Repr

/-- The variables in sight, the innermost first. -/
abbrev Scope := List (String × Binding)

/-- An own property of the argument of `main`. A list has gaps where its items were taken. -/
inductive Granted where
  | text (s : String)
  | texts (ref : Nat) (items : List (Option String))
  | function (ref : Nat) (name : String)
  deriving DecidableEq, Repr

inductive MainArgument where
  | nothing
  | object (ref : Nat) (own : List (String × Granted))
  deriving DecidableEq, Repr

def MainArgument.isNothing : MainArgument → Bool
  | .nothing => true
  | .object .. => false

/-- Where code stands: its module, and the argument of the `main` around it, if any. -/
structure Context where
  module : String
  argument : Option MainArgument
  deriving Repr

inductive Callable where
  | arrow (body : Expr) (text : String) (scope : Scope) (context : Context)
  | closure (parameters : List String) (body : List Stmt) (scope : Scope) (context : Context)
  /-- The function `main` of a module instance. -/
  | main (instance_ : Nat)
  /-- Settles a promise, with a first argument that tells a failure or without one. -/
  | settle (promise : Nat) (tellsFailure : Bool)
  /-- A function of the host. -/
  | host (name : String)
  /-- A function that objects inherit from the start. -/
  | inherited (name : String)

/-- An error with its class, its text, the code of a failed system call and its trace. An error
that was made outside all code has none until code throws it. -/
structure ErrorValue where
  class_ : String
  message : String
  code : Option String
  trace : Option String
  deriving DecidableEq, Repr

inductive Value where
  | undefined
  | null
  | bool (b : Bool)
  | int (n : Int)
  | float (x : Float)
  | string (s : String)
  | symbol (ref : Nat)
  | array (ref : Nat) (items : List Value)
  | object (ref : Nat) (own : List (String × Value))
  | error (ref : Nat) (error : ErrorValue)
  | namespace (instance_ : Nat)
  | function (ref : Nat) (callable : Callable)
  deriving Inhabited

def ErrorValue.text (e : ErrorValue) : String :=
  if e.message.isEmpty then e.class_ else s!"{e.class_}: {e.message}"

def nativeText (name : String) : String := s!"function {name}() \x7b\n    [native code]\n\x7d"

def Callable.text : Callable → String
  | .arrow _ text _ _ => text
  | .host name => nativeText name
  | .inherited name => nativeText (if name = "constructor" then "Object" else name)
  | _ => "function () \x7b [code] \x7d"

namespace Value

def isTruthy : Value → Bool
  | .undefined | .null => false
  | .bool b => b
  | .int n => n ≠ 0
  | .float x => !(x.isNaN || x == 0)
  | .string s => !s.isEmpty
  | _ => true

def typeName : Value → String
  | .undefined => "undefined"
  | .bool _ => "boolean"
  | .int _ | .float _ => "number"
  | .string _ => "string"
  | .symbol _ => "symbol"
  | .function .. => "function"
  | _ => "object"

def kindName : Value → String
  | .undefined => "undefined"
  | .null => "null"
  | .bool _ => "bool"
  | .int _ => "int"
  | .float _ => "float"
  | .string _ => "string"
  | .symbol _ => "symbol"
  | .array .. => "array"
  | .function .. => "function"
  | _ => "object"

def boolText (b : Bool) : String := if b then "true" else "false"

def objectText : String := "[object Object]"

mutual

def text? : Value → Option String
  | .undefined => some "undefined"
  | .null => some "null"
  | .bool b => some (boolText b)
  | .int n => some (toString n)
  | .float x => some (FloatLayout.script.text x)
  | .string s => some s
  | .symbol _ => none
  | .array _ items => (itemTexts? items).map (",".intercalate ·)
  | .error _ e => some e.text
  | .namespace _ => some "[object Module]"
  | .function _ f => some f.text
  | .object .. => some objectText

/-- The texts of the items of an array, where nothing has no text. -/
def itemTexts? : List Value → Option (List String)
  | [] => some []
  | .undefined :: rest | .null :: rest => (itemTexts? rest).map ("" :: ·)
  | item :: rest => match text? item, itemTexts? rest with
    | some text, some texts => some (text :: texts)
    | _, _ => none

end

def number? : Value → Option Float
  | .int n => some (Float.ofInt n)
  | .float x => some x
  | _ => none

def sameRef : Value → Value → Bool
  | .symbol a, .symbol b => a = b
  | .array a _, .array b _ => a = b
  | .object a _, .object b _ => a = b
  | .error a _, .error b _ => a = b
  | .namespace a, .namespace b => a = b
  | .function a _, .function b _ => a = b
  | _, _ => false

/-- Whether two values are the same: numbers by their size, objects by their reference. -/
def same (a b : Value) : Bool :=
  match a, b with
  | .undefined, .undefined | .null, .null => true
  | .bool a, .bool b => a = b
  | .string a, .string b => a = b
  | a, b => match a.number?, b.number? with
    | some x, some y => x == y
    | _, _ => sameRef a b

def smallest : Int := -2147483648

def largest : Int := 2147483647

def ofSum (n : Int) : Value :=
  if smallest ≤ n && n ≤ largest then .int n else .float (Float.ofInt n)

def notANumber : Float := 0.0 / 0.0

def addend : Value → Float
  | .null => 0
  | .bool b => if b then 1 else 0
  | .int n => Float.ofInt n
  | .float x => x
  | _ => notANumber

def isSimple : Value → Bool
  | .undefined | .null | .bool _ | .int _ | .float _ => true
  | _ => false

def add? (a b : Value) : Option Value :=
  match a, b with
  | .int m, .int n => some (ofSum (m + n))
  | a, b =>
    if a.isSimple && b.isSimple then some (.float (a.addend + b.addend))
    else match a.text?, b.text? with
      | some s, some t => some (.string (s ++ t))
      | _, _ => none

def largestCount : Nat := 18446744073709551615

/-- A number as a count: without its fraction, and within the range of counts. -/
def toCount (x : Float) : Nat :=
  if x.isNaN || x < 0 then 0
  else if 18446744073709551616.0 ≤ x then largestCount
  else x.toUInt64.toNat

def units (c : Char) : List Nat :=
  let n := c.toNat
  if n < 0x10000 then [n] else [0xD800 + (n - 0x10000) / 1024, 0xDC00 + (n - 0x10000) % 1024]

def unitsOf (s : String) : List Nat := s.toList.flatMap units

def unitsLe : List Nat → List Nat → Bool
  | [], _ => true
  | _ :: _, [] => false
  | a :: r, b :: s => if a = b then unitsLe r s else a < b

def sortTexts (texts : List String) : List String :=
  texts.mergeSort fun a b => unitsLe (unitsOf a) (unitsOf b)

/-- What objects inherit by a name from the start. -/
def inherited (name : String) : Value :=
  if name = "__proto__" then .object (inheritedNames.idxOf name) []
  else if name ∈ inheritedNames then .function (inheritedNames.idxOf name) (.inherited name)
  else .undefined

/-- References from here on are free. -/
def firstRef : Nat := inheritedNames.length

def noTrace : String := ""

def generated (text : String) : String := s!"Exception generated by quickjs: {text}\n"

def report : Value → String
  | .error _ e => s!"Error: {e.message}\n{e.trace.getD noTrace}"
  | .undefined => generated "Undefined\"undefined\""
  | .null => generated "Null\"null\""
  | .bool b => generated s!"Bool({boolText b})"
  | .int n => generated s!"Int({n})"
  | .float x => generated s!"Float({FloatLayout.inspect.text x})"
  | .string s => generated s!"String(Ok({Quoted.quote s}))"
  | .symbol _ => generated "Symbol(Symbol)"
  | .array .. => generated "Array(Array)"
  | .function .. => generated "Function(Function)"
  | _ => generated "Object(Object)"

end Value

end ScriptHost.Engine
