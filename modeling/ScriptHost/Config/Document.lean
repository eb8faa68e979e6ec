import ScriptHost.Config.Overlay
import ScriptHost.Json.Skip

/-!
# Reading a whole configuration

A configuration is an object with its fields, or a list of them in order. A
field may be left out and then has its default, but may not be given twice.
-/

set_option autoImplicit false

namespace ScriptHost.Config

open ScriptHost.Json

def unexpected {α : Type} (expected : String) (text : Text) : Except Fault α :=
  match text with
  | [] => failAhead .endInValue []
  | c :: rest =>
    if c = '[' then failAt (.unfit (wrongType "sequence" expected)) text
    else if c = openBrace then failAt (.unfit (wrongType "map" expected)) text
    else match readValue (enough (c :: rest)) depthLimit text with
      | .error fault => .error fault
      | .ok (value, after) => failAt (.unfit (wrongType value.kind expected)) after

def readText (expected : String) (text : Text) : Except Fault (String × Text) :=
  match skipSpace text with
  | '"' :: rest => readString rest
  | rest => unexpected expected rest

def readVariant (expected : String) (text : Text) : Except Fault (EntryMode × Text) :=
  match readText expected text with
  | .error fault => .error fault
  | .ok (name, rest) => match modeNamed name with
    | .ok mode => .ok (mode, rest)
    | .error message => failAt (.unfit message) rest

def readUnit (text : Text) : Except Fault Text :=
  match skipSpace text with
  | 'n' :: rest => readWord "ull".toList rest
  | rest => unexpected "unit" rest

def readMode (text : Text) : Except Fault (EntryMode × Text) :=
  match skipSpace text with
  | [] => failAhead .endInValue []
  | c :: rest =>
    if c = '"' then readVariant "variant identifier" (c :: rest)
    else if c ≠ openBrace then failAhead .expectedValue (c :: rest)
    else do
      let (mode, rest) ← readVariant "variant identifier" rest
      let rest ← readUnit (← colon rest)
      match skipSpace rest with
      | [] => failAt .endInObject []
      | d :: after => if d = closeBrace then .ok (mode, after) else failAt .expectedValue (d :: after)

structure Fields where
  runtimeName : Option String
  description : Option String
  entryMode : Option EntryMode

def Fields.none : Fields := ⟨Option.none, Option.none, Option.none⟩

def Fields.config (f : Fields) : Config :=
  ⟨f.runtimeName.getD initial.runtimeName, f.description.getD initial.description,
    f.entryMode.getD initial.entryMode⟩

def Fields.has (f : Fields) (name : String) : Bool :=
  (name = "runtime_name" && f.runtimeName.isSome) || (name = "description" && f.description.isSome) ||
  (name = "entry_mode" && f.entryMode.isSome)

/-- A repeated field is found after its name; a closing brace there is taken too. -/
def repeated {α : Type} (name : String) (text : Text) : Except Fault α :=
  let rest := skipSpace text
  let rest := if rest.head? = some closeBrace then rest.tail else rest
  failAt (.unfit s!"duplicate field `{name}`") rest

def readField (f : Fields) (name : String) (text : Text) : Except Fault (Fields × Text) :=
  if f.has name then repeated name text
  else do
    let rest ← colon text
    if name = "runtime_name" then
      (readText "a string" rest).map fun (s, rest) => ({ f with runtimeName := some s }, rest)
    else if name = "description" then
      (readText "a string" rest).map fun (s, rest) => ({ f with description := some s }, rest)
    else if name = "entry_mode" then
      (readMode rest).map fun (mode, rest) => ({ f with entryMode := some mode }, rest)
    else (skipValue rest).map (f, ·)

def readFields (fuel : Nat) (first : Bool) (f : Fields) (text : Text) : Except Fault (Fields × Text) :=
  match fuel with
  | 0 => failAhead .endInObject text
  | fuel + 1 => do
    match ← nextName first text with
    | none => return (f, skipSpace text)
    | some text =>
      let (name, rest) ← readString text
      let (f, rest) ← readField f name rest
      readFields fuel false f rest

/-- The items of a list stand for the fields in this order. -/
def readListed (text : Text) : Except Fault (Fields × Text) := do
  let none_ := Fields.none
  match ← nextItem true text with
  | none => return (none_, text)
  | some text =>
    let (name, text) ← readText "a string" text
    let f := { none_ with runtimeName := some name }
    match ← nextItem false text with
    | none => return (f, text)
    | some text =>
      let (description, text) ← readText "a string" text
      let f := { f with description := some description }
      match ← nextItem false text with
      | none => return (f, text)
      | some text =>
        let (mode, text) ← readMode text
        return ({ f with entryMode := some mode }, text)

def readConfig (text : Text) : Except Fault (Config × Text) :=
  match skipSpace text with
  | [] => failAhead .endInValue []
  | c :: rest =>
    if c = '[' then do
      let (f, rest) ← readListed rest
      return (f.config, ← endOfList rest)
    else if c = openBrace then do
      let (f, rest) ← readFields (rest.length + 1) true Fields.none rest
      return (f.config, ← endOfObject rest)
    else unexpected "struct Config" (c :: rest)

def parse (text : String) : Except String Config :=
  let chars := text.toList
  let result : Except Fault Config := do
    let (config, rest) ← readConfig chars
    endOfText rest
    return config
  result.mapError (·.message chars)

end ScriptHost.Config
