/-!
# Programs

A program imports from other modules, runs a body once, and may export
variables of its body and a `main`. Statements can wait; expressions cannot.
The host is the argument of `main` and of what is written inside it. All objects
inherit a few names, and a program may add setters to them.
-/

set_option autoImplicit false

namespace ScriptHost

inductive Expr where
  | undefined
  | null
  | bool (b : Bool)
  | int (n : Int)
  | float (x : Float)
  | string (s : String)
  | array (items : List Expr)
  | object
  | symbol
  /-- A function without parameters, with its text. -/
  | arrow (body : Expr) (text : String)
  | variable (name : String)
  | host (name : String)
  | hasHost (name : String)
  | noHost
  | hostKeys
  | callHost (name : String) (args : List Expr)
  | concat (items : List Expr)
  | add (a b : Expr)
  | property (e : Expr) (name : String)
  | index (e i : Expr)
  | sorted (e : Expr)
  | typeOf (e : Expr)
  | error (message : Expr)
  | isError (e : Expr)
  | same (a b : Expr)
  deriving Inhabited

def inheritedNames : List String := [
  "toString", "toLocaleString", "valueOf", "hasOwnProperty", "isPrototypeOf",
  "propertyIsEnumerable", "constructor", "__proto__", "__defineGetter__", "__defineSetter__",
  "__lookupGetter__", "__lookupSetter__"]

/-- A name by which objects inherit nothing until a program adds a setter. -/
structure FreeName where
  name : String
  isFree : name ∉ inheritedNames

def FreeName.of? (name : String) : Option FreeName :=
  if h : name ∈ inheritedNames then none else some ⟨name, h⟩

/-- The variable that a statement declares is an option where its value may be dropped. -/
inductive Stmt where
  | print (value : Expr)
  | eval (value : Expr)
  | declare (name : String) (value : Expr)
  | assign (name : String) (value : Expr)
  | throw (value : Expr)
  | give (value : Expr)
  | await (value : Expr) (name : Option String)
  | awaitCall (call : String) (args : List Expr) (name : Option String)
  | callBack (call : String) (args : List Expr) (body : List Stmt) (name : Option String)
  | timer (delay interval : Expr) (body : List Stmt) (name : Option String)
  | sleep (ms : Expr)
  | never
  | load (specifier : Expr) (name : Option String)
  | branch (condition : Expr) (yes no : List Stmt)
  | attempt (body rescue : List Stmt)
  /-- Let all objects inherit a setter. -/
  | setter (name : FreeName) (parameter : String) (body : List Stmt)
  deriving Inhabited

namespace Stmt

def declared? : Stmt → Option String
  | .declare name _ => some name
  | .await _ name | .awaitCall _ _ name | .callBack _ _ _ name | .timer _ _ _ name
  | .load _ name => name
  | _ => none

end Stmt

structure Import where
  specifier : String
  binding : Option (String × String)
  deriving DecidableEq, Repr

structure Program where
  imports : List Import
  body : List Stmt
  exports : List String
  /-- The body of an exported function `main`. -/
  main : Option (List Stmt)
  deriving Inhabited

namespace Program

def mainName : String := "main"

def empty : Program := ⟨[], [], [], none⟩

def isExported (p : Program) (name : String) : Bool :=
  name ∈ p.exports || (name = mainName && p.main.isSome)

end Program

end ScriptHost
