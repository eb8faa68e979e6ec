/-!
# Shortest decimals

A binary floating point number is read by every decimal close enough to it. The
shortest of these decimals names it: of one length the nearest, and of two
equally near the one with an even last digit. All arithmetic is exact.
-/

set_option autoImplicit false

namespace ScriptHost.Shortest

/-- The value `m * 2 ^ q` and whether the gap below it is half of the gap above. -/
structure Binary where
  m : Nat
  q : Int
  narrow : Bool
  deriving DecidableEq, Repr

def binaryOf (x : Float) : Binary :=
  let bits := x.toBits.toNat
  let exponent : Nat := bits / Nat.pow 2 52 % 2048
  let fraction : Nat := bits % Nat.pow 2 52
  if exponent = 0 then ⟨fraction, -1074, false⟩
  else ⟨Nat.pow 2 52 + fraction, Int.ofNat exponent - 1075, fraction = 0 && 1 < exponent⟩

/-- The value and the ends of the interval that reads as it, over one denominator. -/
structure Interval where
  low : Nat
  value : Nat
  high : Nat
  denominator : Nat
  closed : Bool
  deriving DecidableEq, Repr

def Binary.interval (b : Binary) : Interval :=
  let scale := Nat.pow 2 (b.q - 2).toNat
  { low := (4 * b.m - if b.narrow then 1 else 2) * scale
    value := 4 * b.m * scale
    high := (4 * b.m + 2) * scale
    denominator := Nat.pow 2 (2 - b.q).toNat
    closed := b.m % 2 = 0 }

/-- The numbers of a decimal grid with spacing `10 ^ s` that read as the value. -/
def Interval.onGrid (i : Interval) (s : Int) : Option Nat :=
  let up := Nat.pow 10 (-s).toNat
  let unit := i.denominator * Nat.pow 10 s.toNat
  let value := i.value * up
  let below := value / unit
  let inside (c : Nat) : Bool :=
    if i.closed then i.low * up ≤ c * unit && c * unit ≤ i.high * up
    else i.low * up < c * unit && c * unit < i.high * up
  let nearBelow := value - below * unit
  let nearAbove := (below + 1) * unit - value
  match inside below, inside (below + 1) with
  | true, true =>
    if nearBelow < nearAbove then some below
    else if nearAbove < nearBelow then some (below + 1)
    else if below % 2 = 0 then some below else some (below + 1)
  | true, false => some below
  | false, true => some (below + 1)
  | false, false => none

def negativeMagnitude (fuel value denominator : Nat) : Int :=
  match fuel with
  | 0 => 0
  | fuel + 1 =>
    if denominator ≤ value * 10 then 0 else negativeMagnitude fuel (value * 10) denominator - 1

def Interval.magnitude (i : Interval) : Int :=
  if i.denominator ≤ i.value then
    Int.ofNat (Nat.toDigits 10 (i.value / i.denominator)).length
  else negativeMagnitude 400 i.value i.denominator

/-- Digits `d₁d₂…` with the value `0.d₁d₂… * 10 ^ point`. -/
structure Decimal where
  digits : List Char
  point : Int
  deriving DecidableEq, Repr

def trimmed (c : Nat) (s : Int) : Decimal :=
  let all := Nat.toDigits 10 c
  ⟨(all.reverse.dropWhile (· = '0')).reverse, Int.ofNat all.length + s⟩

def search (i : Interval) (p : Int) : Nat → Nat → Decimal
  | 0, k => trimmed ((i.onGrid (p - k)).getD 0) (p - k)
  | fuel + 1, k => match i.onGrid (p - k) with
    | some c => trimmed c (p - k)
    | none => search i p fuel (k + 1)

def decimal (x : Float) : Decimal :=
  let i := (binaryOf x).interval
  search i i.magnitude 17 1

end ScriptHost.Shortest
