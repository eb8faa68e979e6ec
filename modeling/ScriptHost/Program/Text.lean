import ScriptHost.Program.Syntax
import ScriptHost.Text.Ascii
import ScriptHost.Text.Blank

/-!
# Programs as text

A small written form: declarations of variables, `throw`, expressions and the
definition of a setter that all objects inherit, with names, texts, whole
numbers, new errors and functions without parameters. What does not fit is
refused with the token at which reading stopped.
-/

set_option autoImplicit false

namespace ScriptHost.Program

inductive Token where
  | word (w : String)
  | number (n : Nat)
  | text (s : String)
  | mark (s : String)
  deriving DecidableEq, Repr

def Token.shown : Token → String
  | .word w => w
  | .number n => toString n
  | .text s => s
  | .mark s => s

def isWordChar (c : Char) : Bool := c.isAlphanum || c = '_' || c = '$'

def numberOf? (word : List Char) : Option Nat :=
  if word.head?.any Ascii.isDigit && word.all (fun c => Ascii.isDigit c || c = '_') then
    some ((word.filter Ascii.isDigit).foldl (fun n c => n * 10 + Ascii.digitValue c) 0)
  else none

/-- Split a text into tokens; a number counts the characters that a token has taken. -/
def tokensAfter : Nat → List Char → List Token
  | _, [] => []
  | skip + 1, _ :: rest => tokensAfter skip rest
  | 0, c :: rest =>
    if Blank.isBlank c then tokensAfter 0 rest
    else if c = '\'' || c = '"' then
      let inside := rest.takeWhile (· ≠ c)
      .text (String.ofList inside) :: tokensAfter (inside.length + 1) rest
    else if isWordChar c then
      let more := rest.takeWhile isWordChar
      (match numberOf? (c :: more) with
        | some n => .number n
        | none => .word (String.ofList (c :: more))) :: tokensAfter more.length rest
    else if c = '=' && rest.head? = some '>' then .mark "=>" :: tokensAfter 1 rest
    else .mark (String.ofList [c]) :: tokensAfter 0 rest

def tokens (text : String) : List Token := tokensAfter 0 text.toList

abbrev Refusal := String

def next (rest : List Token) : String := (rest.head?.map Token.shown).getD ""

def unexpected {α : Type} (rest : List Token) : Except Refusal α :=
  .error s!"unexpected token in expression: '{next rest}'"

def expect (mark : String) : List Token → Except Refusal (List Token)
  | [] => .error s!"expecting '{mark}'"
  | token :: rest => if token = .mark mark then .ok rest else .error s!"expecting '{mark}'"

def readExpr : Nat → List Token → Except Refusal (Expr × List Token)
  | fuel + 1, .mark "(" :: .mark ")" :: .mark "=>" :: rest => do
    let (body, after) ← readExpr fuel rest
    let text := (rest.take (rest.length - after.length)).map Token.shown
    return (.arrow body ("() => " ++ String.join text), after)
  | fuel + 1, .word "new" :: .word "Error" :: .mark "(" :: rest => do
    let (message, rest) ← readExpr fuel rest
    return (.error message, ← expect ")" rest)
  | _ + 1, .word name :: rest => .ok (.variable name, rest)
  | _ + 1, .number n :: rest => .ok (.int n, rest)
  | _ + 1, .text s :: rest => .ok (.string s, rest)
  | _, rest => unexpected rest

def endOfStatement : List Token → Except Refusal (List Token)
  | [] => .ok []
  | .mark ";" :: rest => .ok rest
  | rest => .error s!"expecting ';', got '{next rest}'"

def isDeclarer (word : String) : Bool := word = "let" || word = "const" || word = "var"

def invalidName {α : Type} : Except Refusal α := .error "invalid property name"

/-- A function with parameters is not read: the parameter is a pattern that ends too soon,
or something else. -/
def readFunction {α : Type} : List Token → Except Refusal α
  | _ :: .mark "(" :: .mark "\x7b" :: _ => invalidName
  | _ => .error "missing formal parameter"

def setterOpening? : List Token → Option (String × String × List Token)
  | .word "Object" :: .mark "." :: .word "defineProperty" :: .mark "(" :: .word "Object" ::
      .mark "." :: .word "prototype" :: .mark "," :: .text name :: .mark "," :: .mark "\x7b" ::
      .word "set" :: .mark "(" :: .word parameter :: .mark ")" :: .mark "\x7b" :: rest =>
    some (name, parameter, rest)
  | _ => none

def readSimple (fuel : Nat) : List Token → Except Refusal (Option Stmt × List Token)
  | .mark ";" :: rest => .ok (none, rest)
  | .word "throw" :: rest => do
    let (value, rest) ← readExpr fuel rest
    return (some (.throw value), ← endOfStatement rest)
  | .word "function" :: rest => readFunction rest
  | .word first :: .word name :: rest =>
    if isDeclarer first then do
      let (value, rest) ← readExpr fuel (← expect "=" rest)
      return (some (.declare name value), ← endOfStatement rest)
    else unexpected (.word name :: rest)
  | rest => do
    let (value, rest) ← readExpr fuel rest
    return (some (.eval value), ← endOfStatement rest)

def readBlock (read : List Token → Except Refusal (Option Stmt × List Token)) :
    Nat → List Token → Except Refusal (List Stmt × List Token)
  | 0, rest => unexpected rest
  | _ + 1, .mark "\x7d" :: rest => .ok ([], rest)
  | fuel + 1, rest => do
    let (statement, rest) ← read rest
    let (more, rest) ← readBlock read fuel rest
    return (statement.toList ++ more, rest)

def readStatement : Nat → List Token → Except Refusal (Option Stmt × List Token)
  | 0, rest => unexpected rest
  | fuel + 1, rest => match setterOpening? rest with
    | none => readSimple fuel rest
    | some (name, parameter, inside) => do
      let (body, after) ← readBlock (readStatement fuel) (inside.length + 1) inside
      let after ← expect ")" (← expect "\x7d" after)
      match FreeName.of? name with
      | some name => return (some (.setter name parameter body), ← endOfStatement after)
      | none => unexpected rest

def readStatements : Nat → Program → List Token → Except Refusal Program
  | 0, program, _ => .ok program
  | _, program, [] => .ok program
  | fuel + 1, program, rest => do
    let isExported := rest.head? = some (.word "export")
    let (statement, rest) ← readStatement fuel (if isExported then rest.tail else rest)
    let body := program.body ++ statement.toList
    let exports := if isExported then (statement.bind Stmt.declared?).toList else []
    readStatements fuel { program with body, exports := program.exports ++ exports } rest

def ofText (text : String) : Except Refusal Program :=
  let all := tokens text
  readStatements (all.length + 2) .empty all

end ScriptHost.Program
