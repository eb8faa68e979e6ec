import ScriptHost.Config.Basic
import ScriptHost.Text.Utf8

/-!
# Command line arguments

Options stand before the script or between it and the first argument that is
meant for the module; from that one on everything belongs to the module. An
unknown option after the script is such an argument. A value is looked at when
the next option or place begins, so of two faults the one that is met first is
reported.
-/

set_option autoImplicit false

namespace ScriptHost.CommandLine

structure Arguments where
  entryMode : Option EntryMode
  isVerbose : Bool
  script : Option String
  rest : List String
  deriving DecidableEq, Repr

inductive Refusal where
  | noValue
  | invalidValue (value message : String)
  | repeated (option : String)
  | unexpected (option : String)
  | unexpectedValue (option value : String)
  | notText
  deriving DecidableEq, Repr

/-- What is done instead of a run. -/
inductive Stop where
  | help
  | version
  | refused (refusal : Refusal)
  deriving DecidableEq, Repr

/-- An option or place whose values were not looked at yet. -/
inductive Pending where
  | nothing
  | mode (value : Option Utf8.Bytes)
  | script (value : Utf8.Bytes)
  | rest (values : List Utf8.Bytes)
  deriving DecidableEq, Repr

/-- What was read so far, and whether everything from here on belongs to the module. -/
structure Reading where
  arguments : Arguments
  pending : Pending
  hasScript : Bool
  isTrailing : Bool
  deriving DecidableEq, Repr

def modeOption : String := "--entry-mode <raw|curated|bare>"

def verboseOption : String := "--verbose"

abbrev Step := Except Stop Reading

def refuse {α : Type} (refusal : Refusal) : Except Stop α := .error (.refused refusal)

def textOf (value : Utf8.Bytes) : Except Stop String :=
  match Utf8.text? value with
  | some text => .ok text
  | none => refuse .notText

namespace Reading

def start : Reading := ⟨⟨none, false, none, []⟩, .nothing, false, false⟩

def setMode (r : Reading) (value : Utf8.Bytes) : Step :=
  if r.arguments.entryMode.isSome then refuse (.repeated modeOption)
  else do
    let text ← textOf value
    match EntryMode.parse text with
    | .ok mode => return { r with arguments := { r.arguments with entryMode := some mode } }
    | .error message => refuse (.invalidValue text message)

def resolve (r : Reading) : Step :=
  let next := { r with pending := .nothing }
  match r.pending with
  | .nothing => .ok r
  | .mode none => refuse .noValue
  | .mode (some value) => next.setMode value
  | .script value => do
    let text ← textOf value
    return { next with arguments := { r.arguments with script := some text } }
  | .rest values => do
    let texts ← values.mapM textOf
    return { next with arguments := { r.arguments with rest := texts } }

def verbose (r : Reading) : Step := do
  let r ← r.resolve
  if r.arguments.isVerbose then refuse (.repeated verboseOption)
  else return { r with arguments := { r.arguments with isVerbose := true } }

def stop (r : Reading) (instead : Stop) : Step := do
  let _ ← r.resolve
  .error instead

def place (r : Reading) (value : Utf8.Bytes) : Step :=
  if r.hasScript then
    match r.pending with
    | .rest values => .ok { r with pending := .rest (values ++ [value]), isTrailing := true }
    | _ => do return { ← r.resolve with pending := .rest [value], isTrailing := true }
  else do return { ← r.resolve with pending := .script value, hasScript := true }

def value (r : Reading) (value : Utf8.Bytes) : Step :=
  match r.pending with
  | .mode none => .ok { r with pending := .mode (some value) }
  | _ => r.place value

/-- An option that is not known belongs to the module once there is a script,
unless its name is no text. -/
def unknown (r : Reading) (value name : Utf8.Bytes) : Step :=
  if r.hasScript && (Utf8.text? name).isSome then r.value value
  else refuse (.unexpected ("--" ++ Utf8.textLossy name))

def switch (option : String) (attached : Option Utf8.Bytes) (act : Step) : Step :=
  match attached with
  | some value => refuse (.unexpectedValue option (Utf8.textLossy value))
  | none => act

def equals : UInt8 := 0x3D

def longOption (r : Reading) (argument body : Utf8.Bytes) : Step :=
  let name := body.takeWhile (· ≠ equals)
  let attached := if equals ∈ body then some (body.drop (name.length + 1)) else none
  match Utf8.textLossy name with
  | "entry-mode" => do
    let r ← r.resolve
    match attached with
    | some value => r.setMode value
    | none => return { r with pending := .mode none }
  | "verbose" => switch verboseOption attached r.verbose
  | "help" => switch "--help" attached (r.stop .help)
  | "version" => switch "--version" attached (r.stop .version)
  | _ => r.unknown argument name

def isKnownShort (c : Char) : Bool := c = 'h' || c = 'V'

/-- Letters after one dash. What is no text is reported whole. -/
def shortOptions (r : Reading) (argument body : Utf8.Bytes) : Step :=
  if r.hasScript && !(Utf8.decodeLossy body).all isKnownShort then r.value argument
  else match Utf8.pieces body with
    | .char 'h' :: _ => r.stop .help
    | .char 'V' :: _ => r.stop .version
    | .char c :: _ => refuse (.unexpected (String.ofList ['-', c]))
    | _ => refuse (.unexpected ("-" ++ Utf8.textLossy body))

def dash : UInt8 := 0x2D

def step (r : Reading) (argument : Utf8.Bytes) : Step :=
  if r.isTrailing then r.place argument
  else match argument with
    | a :: b :: body =>
      if a ≠ dash then r.value argument
      else if b ≠ dash then r.shortOptions argument (b :: body)
      else if body.isEmpty then .ok { r with isTrailing := true }
      else r.longOption argument body
    | _ => r.value argument

end Reading

def Arguments.parse (arguments : List Utf8.Bytes) : Except Stop Arguments := do
  let r ← arguments.foldlM Reading.step .start
  return (← r.resolve).arguments

end ScriptHost.CommandLine
