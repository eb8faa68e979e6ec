import ScriptHost.Number.Shortest

/-!
# Layouts of floating point numbers

A layout says which numbers are written out in full, whether a whole number
shows a point, whether a positive exponent shows its sign, and how zero and
the values that are no numbers look.
-/

set_option autoImplicit false

namespace ScriptHost

structure FloatLayout where
  /-- Written in full from this place of the point on. -/
  lowest : Int
  /-- Written in full up to this place of the point. -/
  highest : Int
  wholePoint : Bool
  exponentPlus : Bool
  zeroSign : Bool
  infinity : String

namespace FloatLayout

def json : FloatLayout := ⟨-4, 16, true, true, true, "inf"⟩

def script : FloatLayout := ⟨-5, 21, false, true, false, "Infinity"⟩

def inspect : FloatLayout := ⟨-3, 16, true, false, true, "inf"⟩

def zeros (n : Nat) : List Char := List.replicate n '0'

def inFull (layout : FloatLayout) (digits : List Char) (point : Int) : List Char :=
  if point ≤ 0 then '0' :: '.' :: zeros (-point).toNat ++ digits
  else if digits.length ≤ point.toNat then
    digits ++ zeros (point.toNat - digits.length) ++ if layout.wholePoint then ['.', '0'] else []
  else digits.take point.toNat ++ '.' :: digits.drop point.toNat

def withExponent (layout : FloatLayout) (digits : List Char) (exponent : Int) : List Char :=
  let mantissa := match digits with
    | [] => []
    | [d] => [d]
    | d :: rest => d :: '.' :: rest
  let sign := if exponent < 0 then ['-'] else if layout.exponentPlus then ['+'] else []
  mantissa ++ 'e' :: sign ++ Nat.toDigits 10 exponent.natAbs

def positive (layout : FloatLayout) (d : Shortest.Decimal) : List Char :=
  if layout.lowest ≤ d.point && d.point ≤ layout.highest then inFull layout d.digits d.point
  else withExponent layout d.digits (d.point - 1)

def isNegative (x : Float) : Bool := x.toBits.toNat / Nat.pow 2 63 = 1

def zeroText (layout : FloatLayout) (x : Float) : String :=
  (if layout.zeroSign && isNegative x then "-" else "") ++ if layout.wholePoint then "0.0" else "0"

def text (layout : FloatLayout) (x : Float) : String :=
  if x.isNaN then "NaN"
  else if x == 0 then layout.zeroText x
  else
    let size := if x.isInf then layout.infinity
      else String.ofList (layout.positive (Shortest.decimal x.abs))
    (if isNegative x then "-" else "") ++ size

end FloatLayout

end ScriptHost
