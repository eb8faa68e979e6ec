import ScriptHost.Module.Id

/-!
# Recipes

A recipe is a module written as one instruction a line: a verb, a space and the
rest of the line. The lines after the first line `main` are the body of `main`,
the ones before it are the body of the module. A line with another verb does
nothing.
-/

set_option autoImplicit false

namespace ScriptHost.Recipe

inductive Instruction where
  | fail (text : String)
  /-- Load a module; a failure that is tolerated has no effect. -/
  | load (specifier : String) (isTolerant : Bool)
  | invalidate (specifier : String)
  | gate (name : String)
  | log (text : String)
  | print (text : String)
  | wait (ms : Nat)
  | nothing
  deriving DecidableEq, Repr

def Instruction.ofLine (line : String) : Instruction :=
  let chars := line.toList
  let verb := String.ofList (chars.takeWhile (· ≠ ' '))
  let text := String.ofList (chars.dropWhile (· ≠ ' ')).tail
  match verb with
  | "throw" => .fail text
  | "import" => .load text false
  | "try" => .load text true
  | "invalidate" => .invalidate text
  | "gate" => .gate text
  | "log" => .log text
  | "print" => .print text
  | "wait" => .wait (text.toNat?.getD 0)
  | _ => .nothing

structure Script where
  body : List Instruction
  main : Option (List Instruction)
  deriving DecidableEq, Repr

def mainLine : String := "main"

def Script.ofLines (lines : List String) : Script :=
  { body := (lines.takeWhile (· ≠ mainLine)).map Instruction.ofLine
    main := match lines.dropWhile (· ≠ mainLine) with
      | [] => none
      | _ :: after => some (after.map Instruction.ofLine) }

def Script.parse (source : String) : Script := .ofLines (source.splitOn "\n")

/-- An evaluated module. Each evaluation has its own serial number. -/
structure Exports where
  id : ModuleId
  serial : Nat
  main : Option (List Instruction)
  deriving DecidableEq, Repr

end ScriptHost.Recipe
