import ScriptHost.Text.Utf8

/-!
# Output

Text goes to a sink, which may take a few bytes at a time and may be full after
some. What does not fit is lost without a failure.
-/

set_option autoImplicit false

namespace ScriptHost

/-- What a sink holds, how many bytes it took, and how many it takes at most: in all and at
a time. -/
structure Sink where
  content : Utf8.Bytes
  taken : Nat
  limit : Option Nat
  chunk : Option Nat
  deriving DecidableEq, Repr

namespace Sink

def empty : Sink := ⟨[], 0, none, none⟩

def room (sink : Sink) (count : Nat) : Nat :=
  if sink.chunk = some 0 then 0
  else match sink.limit with
    | none => count
    | some limit => min count (limit - sink.taken)

def writeBytes (sink : Sink) (bytes : Utf8.Bytes) : Sink :=
  let fit := sink.room bytes.length
  { sink with content := sink.content ++ bytes.take fit, taken := sink.taken + fit }

def write (sink : Sink) (text : String) : Sink := sink.writeBytes (Utf8.encodeString text)

def deposit (sink : Sink) (bytes : Utf8.Bytes) : Sink :=
  { sink with content := sink.content ++ bytes }

def text (sink : Sink) : String := Utf8.textLossy sink.content

end Sink

end ScriptHost
