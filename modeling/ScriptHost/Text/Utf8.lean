/-!
# Bytes and characters

Text is encoded as UTF-8. Reading bytes splits them into characters and
maximal malformed parts: a part ends where no character could begin with it
any more. A strict reader stops at the first such part and says where it is,
a lenient one puts the replacement character in its place.
-/

set_option autoImplicit false

namespace ScriptHost.Utf8

abbrev Bytes := List UInt8

def encode (text : List Char) : Bytes := text.flatMap String.utf8EncodeChar

def encodeString (text : String) : Bytes := encode text.toList

inductive Piece where
  | char (c : Char)
  | malformed (length : Nat)
  | truncated (length : Nat)
  deriving DecidableEq, Repr

def isContinuation (b : UInt8) : Bool := 0x80 ≤ b && b ≤ 0xBF

/-- The bytes that may follow a lead byte; overlong forms, surrogates and
values past the last code point are cut off here. -/
def isSecond (lead b : UInt8) : Bool :=
  if lead = 0xE0 then 0xA0 ≤ b && b ≤ 0xBF
  else if lead = 0xED then 0x80 ≤ b && b ≤ 0x9F
  else if lead = 0xF0 then 0x90 ≤ b && b ≤ 0xBF
  else if lead = 0xF4 then 0x80 ≤ b && b ≤ 0x8F
  else isContinuation b

def width (lead : UInt8) : Nat :=
  if lead < 0x80 then 1
  else if 0xC2 ≤ lead && lead ≤ 0xDF then 2
  else if 0xE0 ≤ lead && lead ≤ 0xEF then 3
  else if 0xF0 ≤ lead && lead ≤ 0xF4 then 4
  else 0

def low (b : UInt8) : Nat := b.toNat % 64

def pair (a b : UInt8) : Char := Char.ofNat (a.toNat % 32 * 64 + low b)

def triple (a b c : UInt8) : Char := Char.ofNat ((a.toNat % 16 * 64 + low b) * 64 + low c)

def quadruple (a b c d : UInt8) : Char :=
  Char.ofNat (((a.toNat % 8 * 64 + low b) * 64 + low c) * 64 + low d)

/-- The piece that begins with `a`, and how many of the following bytes belong to it. -/
def leading (a : UInt8) (rest : Bytes) : Piece × Nat :=
  match width a, rest with
  | 0, _ => (.malformed 1, 0)
  | 1, _ => (.char (Char.ofNat a.toNat), 0)
  | _ + 2, [] => (.truncated 1, 0)
  | n + 2, b :: r =>
    if !isSecond a b then (.malformed 1, 0)
    else match n, r with
    | 0, _ => (.char (pair a b), 1)
    | _ + 1, [] => (.truncated 2, 1)
    | m + 1, c :: s =>
      if !isContinuation c then (.malformed 2, 1)
      else match m, s with
      | 0, _ => (.char (triple a b c), 2)
      | _ + 1, [] => (.truncated 3, 2)
      | _ + 1, d :: _ =>
        if !isContinuation d then (.malformed 3, 2) else (.char (quadruple a b c d), 3)

def piecesAfter : Nat → Bytes → List Piece
  | _, [] => []
  | skip + 1, _ :: rest => piecesAfter skip rest
  | 0, a :: rest => (leading a rest).1 :: piecesAfter (leading a rest).2 rest

def pieces (bytes : Bytes) : List Piece := piecesAfter 0 bytes

inductive Fault where
  | malformed (index length : Nat)
  | truncated (index : Nat)
  deriving DecidableEq, Repr

def Fault.message : Fault → String
  | .malformed index length => s!"invalid utf-8 sequence of {length} bytes from index {index}"
  | .truncated index => s!"incomplete utf-8 byte sequence from index {index}"

def collect : List Piece → Nat → Except Fault (List Char)
  | [], _ => .ok []
  | .char c :: rest, index => (collect rest (index + c.utf8Size)).map (c :: ·)
  | .malformed length :: _, index => .error (.malformed index length)
  | .truncated _ :: _, index => .error (.truncated index)

def decode (bytes : Bytes) : Except Fault (List Char) := collect (pieces bytes) 0

def replacement : Char := Char.ofNat 0xFFFD

def Piece.shown : Piece → Char
  | .char c => c
  | .malformed _ | .truncated _ => replacement

def decodeLossy (bytes : Bytes) : List Char := (pieces bytes).map Piece.shown

def text? (bytes : Bytes) : Option String :=
  match decode bytes with
  | .ok chars => some (String.ofList chars)
  | .error _ => none

def textLossy (bytes : Bytes) : String := String.ofList (decodeLossy bytes)

end ScriptHost.Utf8
