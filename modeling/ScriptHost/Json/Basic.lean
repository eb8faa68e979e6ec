import ScriptHost.Text.Ascii

/-!
# JSON values

Objects keep their members in the order they were written, so a repeated name
has its last value. A number with a fraction or an exponent, or too large for
sixty-four bits, keeps its decimal digits and the power of ten.
-/

set_option autoImplicit false

namespace ScriptHost

inductive JsonNumber where
  | integer (negative : Bool) (magnitude : Nat)
  | real (negative : Bool) (significand : Nat) (exponent : Int)
  deriving DecidableEq, Repr

inductive Json where
  | null
  | bool (b : Bool)
  | number (n : JsonNumber)
  | string (s : String)
  | array (items : List Json)
  | object (members : List (String × Json))
  deriving Repr, Inhabited

namespace JsonNumber

def power (k : Nat) : Float := Float.ofScientific 1 false k

/-- A magnitude with its power of ten, unless it is out of range. Large powers are applied
in two steps. -/
def scaled (fuel : Nat) (value : Float) (exponent : Int) : Option Float :=
  match fuel with
  | 0 => some value
  | fuel + 1 =>
    if exponent.natAbs ≤ 308 then
      if exponent < 0 then some (value / power exponent.natAbs)
      else
        let product := value * power exponent.natAbs
        if product.isInf then none else some product
    else if value == 0 then some value
    else if 0 ≤ exponent then none
    else scaled fuel (value / power 308) (exponent + 308)

def magnitude? (significand : Nat) (exponent : Int) : Option Float :=
  scaled 5 (Float.ofNat significand) (max exponent (-1600))

def toFloat : JsonNumber → Float
  | .integer negative n => if negative then -(Float.ofNat n) else Float.ofNat n
  | .real negative significand exponent =>
    let size := (magnitude? significand exponent).getD 0
    if negative then -size else size

def isOutOfRange (significand : Nat) (exponent : Int) : Bool :=
  (magnitude? significand exponent).isNone

end JsonNumber

namespace Json

def lookup (name : String) : List (String × Json) → Option Json
  | [] => none
  | (n, value) :: rest => match lookup name rest with
    | some later => some later
    | none => if n = name then some value else none

def get? (json : Json) (name : String) : Option Json :=
  match json with
  | .object members => lookup name members
  | _ => none

def field? (json : Json) (name : String) : Option Json :=
  match json.get? name with
  | some .null | none => none
  | some value => some value

def string? : Json → Option String
  | .string s => some s
  | _ => none

def nat? : Json → Option Nat
  | .number (.integer false n) => some n
  | _ => none

def int? : Json → Option Int
  | .number (.integer negative n) => some (if negative then -(n : Int) else n)
  | _ => none

def bool? : Json → Option Bool
  | .bool b => some b
  | _ => none

def items : Json → List Json
  | .array items => items
  | _ => []

def members : Json → List (String × Json)
  | .object members => members
  | _ => []

def ofNat (n : Nat) : Json := .number (.integer false n)

def ofInt (n : Int) : Json := .number (.integer (n < 0) n.natAbs)

end Json

end ScriptHost
