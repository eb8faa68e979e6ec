import ScriptHost.Text.Blank

/-!
# Reports without traces

The lines of a trace begin with four blanks and `at`. A report is shown without
them and without blanks around it.
-/

set_option autoImplicit false

namespace ScriptHost.Trace

def lineStart : String := "    at "

def isTraceLine (line : String) : Bool := lineStart.toList.isPrefixOf line.toList

def without (report : String) : String :=
  Blank.trimString ("\n".intercalate ((report.splitOn "\n").filter (!isTraceLine ·)))

end ScriptHost.Trace
