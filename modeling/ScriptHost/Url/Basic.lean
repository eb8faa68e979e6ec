import ScriptHost.Text.Ascii

/-!
# Identifiers as structured values

An identifier has a scheme, an authority if it names a server, a path and a
query. Fragments never reach this type. Each component is kept in its written
form, so writing an identifier only puts the components together.
-/

set_option autoImplicit false

namespace ScriptHost

inductive Url.Host where
  | domain (name : List Char)
  | ipv4 (address : Nat)
  | ipv6 (pieces : List Nat)
  deriving DecidableEq, Repr

/-- The server part. `userinfo` ends in an at sign unless it is empty; no host
stands for the empty host. -/
structure Url.Authority where
  userinfo : List Char
  host : Option Url.Host
  port : Option Nat
  deriving DecidableEq, Repr

/-- A rooted path is a list of segments, each written after a slash. A rootless
path is text that does not begin with a slash and has no hierarchy. -/
inductive Url.Path where
  | rootless (text : List Char)
  | rooted (segments : List (List Char))
  deriving DecidableEq, Repr

structure Url where
  scheme : List Char
  authority : Option Url.Authority
  path : Url.Path
  query : Option (List Char)
  deriving DecidableEq, Repr

namespace Url

def decimal (n : Nat) : List Char := Nat.toDigits 10 n

def ipv4Text (address : Nat) : List Char :=
  decimal (address / 0x1000000 % 256) ++ '.' :: decimal (address / 0x10000 % 256) ++
    '.' :: decimal (address / 0x100 % 256) ++ '.' :: decimal (address % 256)

def zeroRun (pieces : List Nat) : Nat := (pieces.takeWhile (· = 0)).length

/-- The longest of the runs of zeros, the first of several: its start and length. -/
def longestZeroRun : List Nat → Nat → Nat × Nat
  | [], at_ => (at_, 0)
  | p :: rest, at_ =>
    let here := zeroRun (p :: rest)
    let later := longestZeroRun rest (at_ + 1)
    if here ≥ later.2 then (at_, here) else later

def joinColon : List Nat → List Char
  | [] => []
  | [p] => Ascii.hexLower p
  | p :: q :: rest => Ascii.hexLower p ++ ':' :: joinColon (q :: rest)

/-- Two or more zero pieces in a row are left out once, at the longest place. -/
def ipv6Text (pieces : List Nat) : List Char :=
  let (start, length) := longestZeroRun pieces 0
  if length < 2 then joinColon pieces
  else joinColon (pieces.take start) ++ ':' :: ':' :: joinColon (pieces.drop (start + length))

def Host.text : Host → List Char
  | .domain name => name
  | .ipv4 address => ipv4Text address
  | .ipv6 pieces => '[' :: ipv6Text pieces ++ [']']

def hostText : Option Host → List Char
  | none => []
  | some host => host.text

def portText : Option Nat → List Char
  | none => []
  | some port => ':' :: decimal port

def Authority.text (a : Authority) : List Char := a.userinfo ++ hostText a.host ++ portText a.port

def segmentsText : List (List Char) → List Char
  | [] => []
  | s :: rest => '/' :: s ++ segmentsText rest

def Path.text : Path → List Char
  | .rootless text => text
  | .rooted segments => segmentsText segments

def queryText : Option (List Char) → List Char
  | none => []
  | some query => '?' :: query

/-- Without an authority, a path that begins with two slashes would read as one. -/
def shield (authority : Option Authority) (path : Path) : List Char :=
  match authority, path with
  | none, .rooted ([] :: _ :: _) => ['/', '.']
  | _, _ => []

def authorityText : Option Authority → List Char
  | none => []
  | some a => '/' :: '/' :: a.text

def text (url : Url) : List Char :=
  url.scheme ++ ':' :: authorityText url.authority ++ shield url.authority url.path ++
    url.path.text ++ queryText url.query

def toString (url : Url) : String := String.ofList url.text

def isSpecialScheme (scheme : List Char) : Bool :=
  ["http", "https", "ws", "wss", "ftp", "file"].any (·.toList = scheme)

def isFileScheme (scheme : List Char) : Bool := scheme = "file".toList

def defaultPort? (scheme : List Char) : Option Nat :=
  if scheme = "http".toList || scheme = "ws".toList then some 80
  else if scheme = "https".toList || scheme = "wss".toList then some 443
  else if scheme = "ftp".toList then some 21
  else none

def isFile (url : Url) : Bool := isFileScheme url.scheme

def host? (url : Url) : Option Host := url.authority.bind (·.host)

def canBeBase (url : Url) : Bool :=
  match url.authority, url.path with
  | none, .rootless _ => false
  | none, .rooted [] => false
  | _, _ => true

def isDirectory (url : Url) : Bool :=
  match url.path with
  | .rootless text => text.getLast? = some '/'
  | .rooted segments => segments.getLast? = some []

end Url

end ScriptHost
