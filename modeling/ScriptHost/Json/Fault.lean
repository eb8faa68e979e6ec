import ScriptHost.Text.Utf8

/-!
# Faults in JSON text

A fault is shown with the line and the column, in bytes, where reading stopped.
Some faults point at the byte read last and some at the byte looked at next.
-/

set_option autoImplicit false

namespace ScriptHost.Json

inductive Cause where
  | endInValue
  | endInList
  | endInObject
  | endInString
  | expectedColon
  | expectedListEnd
  | expectedObjectEnd
  | expectedIdent
  | expectedValue
  | keyNotString
  | controlCharacter
  | trailingComma
  | trailingCharacters
  | endOfHexEscape
  | loneSurrogate
  | invalidEscape
  | invalidNumber
  | outOfRange
  | tooDeep
  /-- The text is well formed and its value is not wanted. -/
  | unfit (text : String)
  deriving DecidableEq, Repr

def Cause.message : Cause → String
  | .endInValue => "EOF while parsing a value"
  | .endInList => "EOF while parsing a list"
  | .endInObject => "EOF while parsing an object"
  | .endInString => "EOF while parsing a string"
  | .expectedColon => "expected `:`"
  | .expectedListEnd => "expected `,` or `]`"
  | .expectedObjectEnd => "expected `,` or `\x7d`"
  | .expectedIdent => "expected ident"
  | .expectedValue => "expected value"
  | .keyNotString => "key must be a string"
  | .controlCharacter => "control character (\\u0000-\\u001F) found while parsing a string"
  | .trailingComma => "trailing comma"
  | .trailingCharacters => "trailing characters"
  | .endOfHexEscape => "unexpected end of hex escape"
  | .loneSurrogate => "lone leading surrogate in hex escape"
  | .invalidEscape => "invalid escape"
  | .invalidNumber => "invalid number"
  | .outOfRange => "number out of range"
  | .tooDeep => "recursion limit exceeded"
  | .unfit text => text

/-- `remaining` counts the bytes not read yet; `ahead` says that the fault is in the next byte. -/
structure Fault where
  cause : Cause
  remaining : Nat
  ahead : Bool
  deriving DecidableEq, Repr

/-- Line and column after the given number of bytes. -/
def position (bytes : Utf8.Bytes) (index : Nat) : Nat × Nat :=
  let before := bytes.take index
  (1 + before.count 0x0A, (before.reverse.takeWhile (· ≠ 0x0A)).length)

def Fault.message (fault : Fault) (text : List Char) : String :=
  let bytes := Utf8.encode text
  let read := bytes.length - fault.remaining
  let (line, column) := position bytes (if fault.ahead then min bytes.length (read + 1) else read)
  s!"{fault.cause.message} at line {line} column {column}"

end ScriptHost.Json
