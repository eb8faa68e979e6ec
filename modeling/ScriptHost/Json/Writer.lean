import ScriptHost.Json.Basic

/-!
# Writing JSON values as text

The written text has no blanks. Control characters are escaped, all other
characters stand for themselves.
-/

set_option autoImplicit false

namespace ScriptHost.Json

def hexEscape (n : Nat) : List Char :=
  '\\' :: 'u' :: '0' :: '0' :: Ascii.hexDigitLower (n / 16) :: Ascii.hexDigitLower (n % 16) :: []

def writtenChar (c : Char) : List Char :=
  if c = '"' then ['\\', '"']
  else if c = '\\' then ['\\', '\\']
  else if c = '\n' then ['\\', 'n']
  else if c = '\r' then ['\\', 'r']
  else if c = '\t' then ['\\', 't']
  else if c.toNat < 0x20 then hexEscape c.toNat
  else [c]

def writtenString (s : String) : String :=
  String.ofList ('"' :: s.toList.flatMap writtenChar ++ ['"'])

def writtenNumber : JsonNumber → String
  | .integer negative n => (if negative then "-" else "") ++ toString n
  | .real negative significand exponent =>
    (if negative then "-" else "") ++ toString significand ++ "e" ++ toString exponent

mutual

def write : Json → String
  | .null => "null"
  | .bool b => if b then "true" else "false"
  | .number n => writtenNumber n
  | .string s => writtenString s
  | .array items => "[" ++ writeItems items ++ "]"
  | .object members => "\x7b" ++ writeMembers members ++ "\x7d"

def writeItems : List Json → String
  | [] => ""
  | [item] => write item
  | item :: rest => write item ++ "," ++ writeItems rest

def writeMembers : List (String × Json) → String
  | [] => ""
  | [(name, value)] => writtenString name ++ ":" ++ write value
  | (name, value) :: rest => writtenString name ++ ":" ++ write value ++ "," ++ writeMembers rest

end

end ScriptHost.Json
