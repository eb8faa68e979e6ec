import ScriptHost.Json.Basic
import ScriptHost.Program.Syntax

/-!
# Programs as documents

A program may be given as a JSON document: scalars and arrays stand for
themselves, other expressions and the statements are objects. The names of
variables get a mark in front, so that they cannot meet other names.
-/

set_option autoImplicit false

namespace ScriptHost.Program

open ScriptHost

def marked (name : String) : String := "v_" ++ name

def errorVariable : String := marked "err"

def resultVariable : String := marked "result"

def caughtVariable : String := marked "e"

def member (json : Json) (name : String) : Json := (json.field? name).getD .null

def textAt (json : Json) (name : String) : String := ((json.field? name).bind Json.string?).getD ""

def itemsAt (json : Json) (name : String) : List Json := (member json name).items

def variableAt? (json : Json) (name : String) : Option String :=
  ((json.field? name).bind Json.string?).map marked

def smallest : Int := -2147483648

def largest : Int := 2147483647

/-- Whole numbers of thirty-two bits are integers, all others floating point. -/
def number (n : JsonNumber) : Expr :=
  match n with
  | .integer true 0 => .float (-0.0)
  | .integer negative magnitude =>
    let value : Int := if negative then -(magnitude : Int) else magnitude
    if smallest ≤ value && value ≤ largest then .int value else .float n.toFloat
  | .real .. => .float n.toFloat

def numberText (text : String) : Expr :=
  match text with
  | "NaN" => .float (0.0 / 0.0)
  | "Infinity" => .float (1.0 / 0.0)
  | "-Infinity" => .float (-1.0 / 0.0)
  | _ =>
    let chars := text.toList
    let negative := chars.head? = some '-'
    let digits := if negative then chars.tail else chars
    let mantissa := digits.takeWhile (· ≠ 'e')
    let exponent := (String.ofList ((digits.dropWhile (· ≠ 'e')).tail.filter (· ≠ '+'))).toInt?.getD 0
    let whole := mantissa.takeWhile (· ≠ '.')
    let fraction := (mantissa.dropWhile (· ≠ '.')).tail
    let significand := ((String.ofList (whole ++ fraction)).toNat?).getD 0
    .float (JsonNumber.real negative significand (exponent - fraction.length)).toFloat

def constant : Expr := .arrow (.int 0) "() => 0"

/-- The expression that an object stands for, by the name that tells its kind. -/
def exprOfObject (decode : Json → Expr) (json : Json) : Expr :=
  let sub (name : String) := decode (member json name)
  let subs (name : String) := (itemsAt json name).map decode
  let at_ (name : String) (i : Nat) := decode ((itemsAt json name)[i]?.getD .null)
  match (json.members.map (·.1)).find? (· ≠ "args") with
  | some "undef" => .undefined
  | some "num" => numberText (textAt json "num")
  | some "object" => .object
  | some "symbol" => .symbol
  | some "func" => constant
  | some "var" => .variable (marked (textAt json "var"))
  | some "sys" => .host (textAt json "sys")
  | some "has" => .hasHost (textAt json "has")
  | some "no_sys" => .noHost
  | some "keys" => .hostKeys
  | some "call" => .callHost (textAt json "call") (subs "args")
  | some "cat" => .concat (subs "cat")
  | some "add" => .add (at_ "add" 0) (at_ "add" 1)
  | some "get" =>
    .property (at_ "get" 0) (((itemsAt json "get")[1]?.bind Json.string?).getD "")
  | some "at" => .index (at_ "at" 0) (at_ "at" 1)
  | some "sorted" => .sorted (sub "sorted")
  | some "type" => .typeOf (sub "type")
  | some "error" => .error (sub "error")
  | some "is_error" => .isError (sub "is_error")
  | some "eq" => .same (at_ "eq" 0) (at_ "eq" 1)
  | _ => .undefined

def exprOf : Nat → Json → Expr
  | 0, _ => .undefined
  | _ + 1, .null => .null
  | _ + 1, .bool b => .bool b
  | _ + 1, .number n => number n
  | _ + 1, .string s => .string s
  | fuel + 1, .array items => .array (items.map (exprOf fuel))
  | fuel + 1, json => exprOfObject (exprOf fuel) json

def stmtOf : Nat → Json → Stmt
  | 0, _ => .never
  | fuel + 1, json =>
    let value := exprOf fuel (member json "value")
    let name := variableAt? json "as"
    let args := (itemsAt json "args").map (exprOf fuel)
    let block (field : String) := (itemsAt json field).map (stmtOf fuel)
    match textAt json "do" with
    | "print" => .print value
    | "let" => .declare (name.getD "") value
    | "set" => .assign (name.getD "") value
    | "throw" => .throw value
    | "return" => .give value
    | "await" => .await value name
    | "await_call" => .awaitCall (textAt json "fn") args name
    | "call_back" => .callBack (textAt json "fn") args (block "body") name
    | "timer" => .timer (exprOf fuel (member json "delay")) (exprOf fuel (member json "interval"))
        (block "body") name
    | "sleep" => .sleep value
    | "never" => .never
    | "import" => .load value name
    | "if" => .branch value (block "then") (block "else")
    | "try" => .attempt (block "body") (block "catch")
    | _ => .eval value

def importOf (json : Json) : Import :=
  { specifier := textAt json "from"
    binding := (variableAt? json "name").map fun name => (name, (variableAt? json "as").getD name) }

/-- The program of a document; the fuel bounds how deep it is nested. -/
def ofDocument (fuel : Nat) (json : Json) : Program :=
  let statements (name : String) := (itemsAt json name).map (stmtOf fuel)
  let exports := ((itemsAt json "exports").filterMap Json.string?).map marked
  let program : Program := ⟨(itemsAt json "imports").map importOf, statements "body", exports, none⟩
  match textAt json "main" with
  | "async" | "sync" => { program with main := some (statements "main_body") }
  | "value" =>
    { program with
      body := program.body ++ [.declare mainName (exprOf fuel (member json "main_value"))]
      exports := exports ++ [mainName] }
  | _ => program

end ScriptHost.Program
