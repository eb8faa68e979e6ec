import ScriptHost.Text.Ascii
import ScriptHost.Url.Failure

/-!
# IPv4 addresses

A domain whose last label is a number is an address of one to four parts in
decimal, octal or hexadecimal; the last part fills the remaining bytes.
-/

set_option autoImplicit false

namespace ScriptHost.Url.Ipv4

def digitsValue (base : Nat) (digits : List Char) : Nat :=
  digits.foldl (fun n c => n * base + (Ascii.hexValue? c).getD 0) 0

def isOctal (c : Char) : Bool := 0x30 ≤ c.toNat && c.toNat ≤ 0x37

def inBase (base : Nat) (isBaseDigit : Char → Bool) (digits : List Char) : Option Nat :=
  if digits.all isBaseDigit then some (digitsValue base digits) else none

def number? (part : List Char) : Option Nat :=
  match part with
  | [] => none
  | '0' :: 'x' :: digits | '0' :: 'X' :: digits => inBase 16 Ascii.isHex digits
  | '0' :: d :: digits => inBase 8 isOctal (d :: digits)
  | digits => inBase 10 Ascii.isDigit digits

def isNumberLabel (label : List Char) : Bool :=
  (!label.isEmpty && label.all Ascii.isDigit) || (number? label).isSome

def labels (domain : List Char) : List (List Char) :=
  let all := domain.splitOn '.'
  match all.getLast? with
  | some [] => all.dropLast
  | _ => all

def endsInNumber (domain : List Char) : Bool :=
  match (labels domain).getLast? with
  | some label => isNumberLabel label
  | none => false

/-- Join the leading bytes `ns`, whose first has weight `256 ^ 3`, with the last part. -/
def combine : List Nat → Nat → Nat → Nat
  | [], _, last => last
  | n :: ns, weight, last => n * weight + combine ns (weight / 256) last

def address? (domain : List Char) : Except Failure Nat :=
  match (labels domain).mapM number? with
  | none => .error .ipv4
  | some numbers =>
    let leading := numbers.dropLast
    let last := numbers.getLast?.getD 0
    if 4 < numbers.length || last ≥ Nat.pow 256 (4 - leading.length) || leading.any (255 < ·) then
      .error .ipv4
    else .ok (combine leading 0x1000000 last)

end ScriptHost.Url.Ipv4
