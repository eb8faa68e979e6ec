/-!
# Command lines

A command line is a list of commands joined by `;`, `&&` and `||`. Words may be
quoted; a dollar sign brings in an argument, their number, the last status or
the name of the shell itself. Ending is by status or by a signal.
-/

set_option autoImplicit false

namespace ScriptHost.Shell

inductive Ending where
  | status (n : Nat)
  | signal
  deriving DecidableEq, Repr

inductive Token where
  | word (text : String)
  | mark (c : Char)
  deriving DecidableEq, Repr

inductive Quoting where
  | plain
  | single
  | double
  deriving DecidableEq, Repr

structure Reading where
  tokens : List Token
  word : Option (List Char)
  quoting : Quoting
  isDollar : Bool

namespace Reading

def start : Reading := ⟨[], none, .plain, false⟩

def add (r : Reading) (chars : List Char) : Reading :=
  { r with word := some (r.word.getD [] ++ chars) }

def flush (r : Reading) : Reading :=
  match r.word with
  | none => r
  | some chars => { r with tokens := r.tokens ++ [.word (String.ofList chars)], word := none }

def mark (r : Reading) (c : Char) : Reading :=
  let r := r.flush
  { r with tokens := r.tokens ++ [.mark c] }

def isMark (c : Char) : Bool := c = ';' || c = '&' || c = '|' || c = '\n'

def plain (r : Reading) (c : Char) : Reading :=
  if c = '\'' then { (r.add []) with quoting := .single }
  else if c = '"' then { (r.add []) with quoting := .double }
  else if c = '$' then { r with isDollar := true }
  else if c = ' ' || c = '\t' then r.flush
  else if isMark c then r.mark c
  else r.add [c]

def quoted (r : Reading) (c : Char) : Reading :=
  match r.quoting with
  | .plain => r.plain c
  | .single => if c = '\'' then { r with quoting := .plain } else r.add [c]
  | .double =>
    if c = '"' then { r with quoting := .plain }
    else if c = '$' then { r with isDollar := true }
    else r.add [c]

end Reading

def self : String := "1"

/-- The text of a parameter, if the character names one. -/
def parameter? (args : List String) (c : Char) : Option String :=
  if c = '$' then some self
  else if c = '#' then some (toString (args.length - 1))
  else if c = '@' || c = '*' then some (" ".intercalate args.tail)
  else if c.isDigit then some ((args[c.toNat - '0'.toNat]?).getD "")
  else none

/-- Read a character; an unquoted parameter without text makes no word. -/
def readChar (args : List String) (r : Reading) (c : Char) : Reading :=
  if r.isDollar then
    let r := { r with isDollar := false }
    match parameter? args c with
    | some text => if text.isEmpty && r.quoting = .plain then r else r.add text.toList
    | none => (r.add ['$']).quoted c
  else r.quoted c

def tokens (args : List String) (line : String) : List Token :=
  (line.toList.foldl (readChar args) .start).flush.tokens

/-- When a command runs: always, after success, or after failure. -/
inductive Link where
  | always
  | onSuccess
  | onFailure
  deriving DecidableEq, Repr

def commandsFrom (link : Link) (words : List String) : List Token → List (Link × List String)
  | [] => [(link, words)]
  | .word text :: rest => commandsFrom link (words ++ [text]) rest
  | .mark '&' :: .mark '&' :: rest => (link, words) :: commandsFrom .onSuccess [] rest
  | .mark '|' :: .mark '|' :: rest => (link, words) :: commandsFrom .onFailure [] rest
  | .mark _ :: rest => (link, words) :: commandsFrom .always [] rest

def commands (args : List String) (line : String) : List (Link × List String) :=
  commandsFrom .always [] (tokens args line)

def ofBool (holds : Bool) : Nat := if holds then 0 else 1

def test : List String → Nat
  | [] => 1
  | [text] => ofBool !text.isEmpty
  | ["!", text] => ofBool text.isEmpty
  | ["-n", text] => ofBool !text.isEmpty
  | ["-z", text] => ofBool text.isEmpty
  | [a, "=", b] => ofBool (a = b)
  | [a, "!=", b] => ofBool (a ≠ b)
  | [a, "-eq", b] => ofBool (a.toInt? = b.toInt?)
  | [a, "-ne", b] => ofBool (a.toInt? ≠ b.toInt?)
  | _ => 2

/-- Signals that do not end a program: none at all, and those that are ignored. -/
def harmless : List String := ["-0", "-17", "-18", "-23", "-28", "-CHLD", "-CONT", "-URG", "-WINCH"]

def notFound : Nat := 127

def run (status : Nat) : List String → Except Ending Nat
  | [] => .ok status
  | ["exit"] => .error (.status status)
  | "exit" :: n :: _ => .error (.status ((n.toNat?.map (· % 256)).getD 2))
  | ["kill", target] => if target = self then .error .signal else .ok 1
  | ["kill", signal, target] =>
    if target ≠ self then .ok 1 else if signal ∈ harmless then .ok 0 else .error .signal
  | ["true"] | [":"] => .ok 0
  | ["false"] => .ok 1
  | "test" :: rest => .ok (test rest)
  | "[" :: rest => .ok (test rest.dropLast)
  | _ => .ok notFound

def runsAfter (status : Nat) : Link → Bool
  | .always => true
  | .onSuccess => status = 0
  | .onFailure => status ≠ 0

def runAll (status : Nat) : List (Link × List String) → Ending
  | [] => .status status
  | (link, words) :: rest =>
    if runsAfter status link then
      match run status words with
      | .ok status => runAll status rest
      | .error ending => ending
    else runAll status rest

def runLine (args : List String) (line : String) : Ending := runAll 0 (commands args line)

end ScriptHost.Shell
