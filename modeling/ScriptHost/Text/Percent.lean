import ScriptHost.Text.Ascii
import ScriptHost.Text.Utf8

/-!
# Percent coding

A byte that may not stand for itself is written as a percent sign and two
upper case hexadecimal digits. Which bytes those are depends on the place in
an identifier; bytes outside ASCII and control bytes are always written so.
Decoding leaves a percent sign alone unless two hexadecimal digits follow.
-/

set_option autoImplicit false

namespace ScriptHost.Percent

open ScriptHost.Utf8

/-- The places of an identifier that differ in what they escape. -/
inductive Place where
  | control
  | path
  | pathSegment
  | userinfo
  | query
  | specialQuery
  deriving DecidableEq, Repr

def Place.reserved : Place → String
  | .control => ""
  | .path => " \"<>`#?\x7b\x7d"
  | .pathSegment => " \"<>`#?\x7b\x7d/%\\"
  | .userinfo => " \"<>`#?\x7b\x7d/:;=@[\\]^|"
  | .query => " \"#<>"
  | .specialQuery => " \"#<>'"

def Place.escapes (place : Place) (b : UInt8) : Bool :=
  b < 0x20 || 0x7F ≤ b || place.reserved.toList.any (·.toNat = b.toNat)

def escape (b : UInt8) : List Char :=
  ['%', Ascii.hexDigitUpper (b.toNat / 16), Ascii.hexDigitUpper (b.toNat % 16)]

def encodeByte (place : Place) (b : UInt8) : List Char :=
  if place.escapes b then escape b else [Char.ofNat b.toNat]

def encodeBytes (place : Place) (bytes : Bytes) : List Char := bytes.flatMap (encodeByte place)

def encode (place : Place) (text : List Char) : List Char := encodeBytes place (Utf8.encode text)

def hexByte? (b : UInt8) : Option Nat := Ascii.hexValue? (Char.ofNat b.toNat)

def decodeBytes : Bytes → Bytes
  | [] => []
  | b :: rest =>
    if b = 0x25 then
      match rest with
      | h :: l :: rest' => match hexByte? h, hexByte? l with
        | some x, some y => UInt8.ofNat (x * 16 + y) :: decodeBytes rest'
        | _, _ => b :: decodeBytes (h :: l :: rest')
      | [h] => [b, h]
      | [] => [b]
    else b :: decodeBytes rest

def decode (text : List Char) : Bytes := decodeBytes (Utf8.encode text)

end ScriptHost.Percent
