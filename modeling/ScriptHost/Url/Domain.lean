import ScriptHost.Text.LowerCase
import ScriptHost.Text.Utf8
import ScriptHost.Url.Failure
import ScriptHost.Url.Punycode

/-!
# Domains

A domain is brought to lower case, some compatibility forms are replaced (those of
Latin-1, full-width characters, dots and spaces), and labels with characters outside
ASCII are written in Punycode. A domain with a character that no identifier may
hold in its host is refused.
-/

set_option autoImplicit false

namespace ScriptHost.Url.Domain

def isIgnored (n : Nat) : Bool :=
  n = 0xAD || n = 0x34F || n = 0x200B || n = 0x2060 || n = 0x2064 || n = 0xFEFF ||
  (0x180B ≤ n && n ≤ 0x180F) || (0xFE00 ≤ n && n ≤ 0xFE0F)

def isDot (n : Nat) : Bool := n = 0x3002 || n = 0xFF0E || n = 0xFF61

def isSpaceForm (n : Nat) : Bool :=
  n = 0xA0 || n = 0x202F || n = 0x205F || n = 0x3000 || (0x2000 ≤ n && n ≤ 0x200A)

def latinForm? (n : Nat) : Option String :=
  if n = 0xA8 || n = 0xAF || n = 0xB4 || n = 0xB8 then some " "
  else if n = 0xAA then some "a"
  else if n = 0xBA then some "o"
  else if n = 0xB2 then some "2"
  else if n = 0xB3 then some "3"
  else if n = 0xB9 then some "1"
  else if n = 0xB5 then some "μ"
  else if n = 0xBC then some "1⁄4"
  else if n = 0xBD then some "1⁄2"
  else if n = 0xBE then some "3⁄4"
  else none

def map (c : Char) : List Char :=
  let n := c.toNat
  if isIgnored n then []
  else if isDot n then ['.']
  else if isSpaceForm n then [' ']
  else if 0xFF01 ≤ n && n ≤ 0xFF5E then [LowerCase.lower (Char.ofNat (n - 0xFEE0))]
  else match latinForm? n with
    | some form => form.toList
    | none => [LowerCase.lower c]

def deniedAscii : List Char := "%#/:<>?@[\\]^| ".toList

def isDenied (c : Char) : Bool :=
  let n := c.toNat
  n < 0x20 || (0x7F ≤ n && n ≤ 0x9F) || deniedAscii.contains c ||
  (0x200C ≤ n && n ≤ 0x200F) || (0x2028 ≤ n && n ≤ 0x202E) || (0x2061 ≤ n && n ≤ 0x206F) ||
  (0x2FF0 ≤ n && n ≤ 0x2FFF) || (0xE000 ≤ n && n ≤ 0xF8FF) || (0xFFF0 ≤ n && n ≤ 0xFFFF) ||
  (0xFDD0 ≤ n && n ≤ 0xFDEF) || 0xE0000 ≤ n

def isCombining (c : Char) : Bool := 0x300 ≤ c.toNat && c.toNat ≤ 0x36F

def marker : List Char := "xn--".toList

def isValidLabel (label : List Char) : Bool :=
  !label.any isDenied && match label with
    | c :: _ => !isCombining c
    | [] => true

/-- An encoded label stands for characters that need the encoding and that the
mapping leaves alone. -/
def isValidEncoded (text : List Char) : Bool :=
  match Punycode.decode text with
  | none => false
  | some label =>
    !label.all Ascii.isAscii && isValidLabel label && label.flatMap map = label

def labelText? (label : List Char) : Option (List Char) :=
  if !isValidLabel label then none
  else if label.all Ascii.isAscii then
    if marker.isPrefixOf label then
      if isValidEncoded (label.drop marker.length) then some label else none
    else some label
  else if marker.isPrefixOf label then none
  else some (marker ++ Punycode.encode label)

def joinDots : List (List Char) → List Char
  | [] => []
  | [label] => label
  | label :: rest => label ++ '.' :: joinDots rest

def ofBytes (bytes : Utf8.Bytes) : Except Failure (List Char) :=
  match Utf8.decode bytes with
  | .error _ => .error .internationalDomain
  | .ok text => match ((text.flatMap map).splitOn '.').mapM labelText? with
    | none => .error .internationalDomain
    | some labels => .ok (joinDots labels)

end ScriptHost.Url.Domain
