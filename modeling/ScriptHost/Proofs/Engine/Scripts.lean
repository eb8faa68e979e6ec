import ScriptHost.Proofs.Engine.ImportFailures

/-!
# Small programs

Programs for fixed runs, each the only source of a host.
-/

set_option autoImplicit false

namespace ScriptHost.Engine.Script

open Rethrown (statement view)

def number (n : Nat) : Json := .number (.integer false n)

def callOf (name : String) (args : List Json) : Json :=
  .object [("call", .string name), ("args", .array args)]

def print (text : String) : Json := statement "print" [("value", .string text)]

def timer (name : String) (interval : Nat) (body : List Json) : Json :=
  statement "timer" [("delay", number 5), ("interval", number interval), ("body", .array body),
    ("as", .string name)]

def handOver (name : String) (args body : List Json) : Json :=
  statement "call_back" [("fn", .string name), ("args", .array args), ("body", .array body)]

def app : ModuleId := ⟨⟨"file".toList, some ⟨[], none, none⟩, .rooted ["app.js".toList], none⟩⟩

def stateOf (mode : EntryMode) (program : Json) : State :=
  start { (default : Config) with entryMode := mode }
    { Rethrown.sources with memory := ⟨[("file:///app.js", ⟨.ok program.write, none⟩)]⟩ } view

theorem reached (mode : EntryMode) (program : Json) : Reached (stateOf mode program) :=
  .start _ _ _ _

/-- The text of a module that lets all objects inherit a setter. -/
def setterText (name body : String) : String :=
  "Object.defineProperty(Object.prototype, '" ++ name ++ "', \x7b set(v) \x7b " ++ body ++
    " \x7d \x7d);"

def stateAfter (mode : EntryMode) (text : String) (body : List Json) : State :=
  let program := Json.object [("imports", .array [.object [("from", .string "./first.js")]]),
    ("main", .string "sync"), ("main_body", .array body)]
  start { (default : Config) with entryMode := mode }
    { Rethrown.sources with memory := ⟨[("file:///app.js", ⟨.ok program.write, none⟩),
      ("file:///first.js", ⟨.ok text, none⟩)]⟩ } view

end ScriptHost.Engine.Script
