import ScriptHost.CommandLine.Arguments

/-!
# Texts of the command line

What the program writes about itself, and how it reports a refusal.
-/

set_option autoImplicit false

namespace ScriptHost.CommandLine

def usageLine : String := "Usage: zoe [OPTIONS] [SCRIPT] [ARGS]..."

def helpLines : List String := [
  "A small JavaScript host",
  "",
  usageLine,
  "",
  "Arguments:",
  "  [SCRIPT]   JavaScript module to run",
  "  [ARGS]...  Arguments passed to the module",
  "",
  "Options:",
  "      --entry-mode <raw|curated|bare>  What the module's `main` receives",
  "      --verbose                        Enable verbose logging",
  "  -h, --help                           Print help",
  "  -V, --version                        Print version",
  ""]

def helpText : String := "\n".intercalate helpLines

def versionText : String := s!"zoe {version}\n"

namespace Refusal

def message : Refusal → String
  | .noValue => s!"a value is required for '{modeOption}' but none was supplied"
  | .invalidValue value message => s!"invalid value '{value}' for '{modeOption}': {message}"
  | .repeated option => s!"the argument '{option}' cannot be used multiple times"
  | .unexpected option =>
    s!"unexpected argument '{option}' found\n\n  tip: to pass '{option}' as a value, use '-- {option}'"
  | .unexpectedValue option value =>
    s!"unexpected value '{value}' for '{option}' found; no more were expected"
  | .notText => "invalid UTF-8 was detected in one or more arguments"

def showsUsage : Refusal → Bool
  | .noValue | .invalidValue .. => false
  | _ => true

def report (r : Refusal) : String :=
  let usage := if r.showsUsage then usageLine ++ "\n\n" else ""
  s!"error: {r.message}\n\n{usage}For more information, try '--help'."

end Refusal

def escape : String := "\x1b"

def failureReport (message : String) : String :=
  s!"{escape}[1m{escape}[31mError{escape}[39m{escape}[0m: {message}"

end ScriptHost.CommandLine
