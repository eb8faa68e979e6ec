/-!
# ASCII characters

Identifiers are made of ASCII characters once they are written out, so the
classes below are about ASCII only.
-/

set_option autoImplicit false

namespace ScriptHost.Ascii

def isUpper (c : Char) : Bool := 0x41 ≤ c.toNat && c.toNat ≤ 0x5A

def isLower (c : Char) : Bool := 0x61 ≤ c.toNat && c.toNat ≤ 0x7A

def isAlpha (c : Char) : Bool := isUpper c || isLower c

def isDigit (c : Char) : Bool := 0x30 ≤ c.toNat && c.toNat ≤ 0x39

def digitValue (c : Char) : Nat := c.toNat - 0x30

def lower (c : Char) : Char := if isUpper c then Char.ofNat (c.toNat + 32) else c

def hexValue? (c : Char) : Option Nat :=
  if isDigit c then some (c.toNat - 0x30)
  else if 0x61 ≤ c.toNat && c.toNat ≤ 0x66 then some (c.toNat - 0x61 + 10)
  else if 0x41 ≤ c.toNat && c.toNat ≤ 0x46 then some (c.toNat - 0x41 + 10)
  else none

def isHex (c : Char) : Bool := (hexValue? c).isSome

def isControl (c : Char) : Bool := c.toNat < 0x20 || c.toNat = 0x7F

def isAscii (c : Char) : Bool := c.toNat < 0x80

def hexDigitUpper (n : Nat) : Char := Char.ofNat (if n < 10 then 0x30 + n else 0x41 + (n - 10))

def hexDigitLower (n : Nat) : Char := Char.ofNat (if n < 10 then 0x30 + n else 0x61 + (n - 10))

def hexLower (n : Nat) : List Char := Nat.toDigits 16 n

def lowerString (s : String) : String := String.ofList (s.toList.map lower)

end ScriptHost.Ascii
