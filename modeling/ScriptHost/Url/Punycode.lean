import ScriptHost.Text.Ascii

/-!
# Punycode

The form of a label whose characters are not all ASCII: its ASCII characters,
a hyphen, and the places and values of the others as a sequence of integers
in base thirty-six whose digit thresholds adapt to the integers seen.
-/

set_option autoImplicit false

namespace ScriptHost.Url.Punycode

def firstPoint : Nat := 128

def firstBias : Nat := 72

def maxPoint : Nat := 0x10FFFF

def digitChar (d : Nat) : Char := Char.ofNat (if d < 26 then 0x61 + d else 0x30 + (d - 26))

def digitValue? (c : Char) : Option Nat :=
  if Ascii.isLower c then some (c.toNat - 0x61)
  else if Ascii.isUpper c then some (c.toNat - 0x41)
  else if Ascii.isDigit c then some (c.toNat - 0x30 + 26)
  else none

def threshold (k bias : Nat) : Nat := min 26 (max 1 (k - bias))

def shrink (delta k : Nat) : Nat × Nat :=
  if 455 < delta then shrink (delta / 35) (k + 36) else (delta, k)
termination_by delta
decreasing_by omega

/-- The bias after an integer `delta` that brought the label to `count` characters. -/
def adapt (delta count : Nat) (first : Bool) : Nat :=
  let scaled := if first then delta / 700 else delta / 2
  let (delta, k) := shrink (scaled + scaled / count) 0
  k + 36 * delta / (delta + 38)

def digits (fuel q k bias : Nat) : List Char :=
  match fuel with
  | 0 => []
  | fuel + 1 =>
    let t := threshold k bias
    if q < t then [digitChar q]
    else digitChar (t + (q - t) % (36 - t)) :: digits fuel ((q - t) / (36 - t)) (k + 36) bias

structure EncodeState where
  delta : Nat
  bias : Nat
  handled : Nat
  first : Bool
  written : List Char

def encodeAt (point : Nat) (label : List Char) (s : EncodeState) : EncodeState :=
  label.foldl (fun s c =>
    if c.toNat < point then { s with delta := s.delta + 1 }
    else if c.toNat = point then
      { delta := 0
        bias := adapt s.delta (s.handled + 1) s.first
        handled := s.handled + 1
        first := false
        written := s.written ++ digits (s.delta + 1) s.delta 36 s.bias }
    else s) s

def encodePoints : List Nat → Nat → List Char → EncodeState → List Char
  | [], _, _, s => s.written
  | point :: points, n, label, s =>
    let s := { s with delta := s.delta + (point - n) * (s.handled + 1) }
    let s := encodeAt point label s
    encodePoints points (point + 1) label { s with delta := s.delta + 1 }

def insertPoint (n : Nat) : List Nat → List Nat
  | [] => [n]
  | m :: rest => if n < m then n :: m :: rest else if n = m then m :: rest else m :: insertPoint n rest

/-- The distinct values outside ASCII in ascending order. -/
def points (label : List Char) : List Nat :=
  (label.filter (!Ascii.isAscii ·)).foldl (fun ns c => insertPoint c.toNat ns) []

def encode (label : List Char) : List Char :=
  let basic := label.filter Ascii.isAscii
  let start := if basic.isEmpty then [] else basic ++ ['-']
  encodePoints (points label) firstPoint label ⟨0, firstBias, basic.length, true, start⟩

/-- Read one integer: the value it reaches and the rest of the digits. -/
def readInteger (i w k bias : Nat) : List Char → Option (Nat × List Char)
  | [] => none
  | c :: rest => match digitValue? c with
    | none => none
    | some d =>
      let i := i + d * w
      let t := threshold k bias
      if d < t then some (i, rest)
      else readInteger i (w * (36 - t)) (k + 36) bias rest

def isScalar (n : Nat) : Bool := n < 0xD800 || (0xE000 ≤ n && n ≤ maxPoint)

def decodeInto (fuel n i bias : Nat) (first : Bool) (label text : List Char) : Option (List Char) :=
  match fuel, text with
  | _, [] => some label
  | 0, _ => none
  | fuel + 1, text =>
    match readInteger i 1 36 bias text with
    | none => none
    | some (j, rest) =>
      let count := label.length + 1
      let point := n + j / count
      let place := j % count
      if !isScalar point then none
      else decodeInto fuel point (place + 1) (adapt (j - i) count first) false
        (label.insertIdx place (Char.ofNat point)) rest

def split (text : List Char) : List Char × List Char :=
  let digits := (text.reverse.takeWhile (· ≠ '-')).reverse
  let basic := text.take (text.length - digits.length - 1)
  if basic.isEmpty then ([], text) else (basic, digits)

def decode (text : List Char) : Option (List Char) :=
  let (basic, digits) := split text
  if basic.all Ascii.isAscii then decodeInto text.length firstPoint 0 firstBias true basic digits
  else none

end ScriptHost.Url.Punycode
