import ScriptHost.Url.Host
import ScriptHost.Url.Path

/-!
# Reading the server part

Between the double slash and the path stand user information up to the last
at sign, a host and a port. A port that is the scheme's own is left out.
-/

set_option autoImplicit false

namespace ScriptHost.Url

/-- The text before the last at sign and the text after it. -/
def splitUserinfo (text : List Char) : Option (List Char × List Char) :=
  if text.contains '@' then
    let after := (text.reverse.takeWhile (· ≠ '@')).reverse
    some (text.take (text.length - after.length - 1), after)
  else none

def userinfoText (text : List Char) : List Char :=
  let name := Percent.encode .userinfo (text.takeWhile (· ≠ ':'))
  let shown := match text.dropWhile (· ≠ ':') with
    | [] | [_] => name
    | _ :: password => name ++ ':' :: Percent.encode .userinfo password
  if shown.isEmpty then [] else shown ++ ['@']

/-- The host ends at a colon that no bracket encloses. -/
def splitHost (inside : Bool) : List Char → List Char × List Char
  | [] => ([], [])
  | c :: rest =>
    if c = ':' && !inside then ([], c :: rest)
    else
      let inside := if c = '[' then true else if c = ']' then false else inside
      let (host, after) := splitHost inside rest
      (c :: host, after)

def portValue (digits : List Char) : Nat :=
  digits.foldl (fun n c => n * 10 + Ascii.digitValue c) 0

def readPort (scheme text : List Char) : Except Failure (Option Nat × List Char) :=
  let digits := text.takeWhile Ascii.isDigit
  let after := text.dropWhile Ascii.isDigit
  let port := portValue digits
  if 65535 < port then .error .port
  else match after with
    | [] | '\\' :: _ =>
      .ok (if digits.isEmpty || defaultPort? scheme = some port then none else some port, after)
    | _ => .error .port

def readHost (special : Bool) (text : List Char) : Except Failure (Option Host) :=
  if special then if text.isEmpty then .error .emptyHost else (Host.ofDomainText text).map some
  else Host.ofPlainText text

def readServer (scheme text : List Char) : Except Failure (Option Host × Option Nat × List Char) :=
  let (hostText, after) := splitHost false text
  match readHost (isSpecialScheme scheme) hostText with
  | .error failure => .error failure
  | .ok host => match after with
    | ':' :: portText =>
      if host.isNone then .error .emptyHost
      else (readPort scheme portText).map fun (port, rest) => (host, port, rest)
    | _ => .ok (host, none, [])

/-- Read the server part. `ended` says whether something other than the end of
the text follows it; a lone at sign is refused only then. -/
def readAuthority (scheme text : List Char) (ended : Bool) :
    Except Failure (Authority × List Char) :=
  match splitUserinfo text with
  | none => (readServer scheme text).map fun (host, port, rest) => (⟨[], host, port⟩, rest)
  | some ([], after) =>
    if after.isEmpty && ended then .error .emptyHost
    else (readServer scheme after).map fun (host, port, rest) => (⟨[], host, port⟩, rest)
  | some (userinfo, after) => match readServer scheme after with
    | .error failure => .error failure
    | .ok (host, port, rest) =>
      if host.isNone && !(userinfoText userinfo).isEmpty then .error .emptyHost
      else .ok (⟨userinfoText userinfo, host, port⟩, rest)

end ScriptHost.Url
