import ScriptHost.Text.Ascii
import ScriptHost.Url.Failure

/-!
# IPv6 addresses

Eight pieces of up to four hexadecimal digits. One run of zero pieces may be
left out between two colons, and the last two pieces may be written as four
decimal bytes.
-/

set_option autoImplicit false

namespace ScriptHost.Url.Ipv6

def hexValue (digits : List Char) : Nat :=
  digits.foldl (fun n c => n * 16 + (Ascii.hexValue? c).getD 0) 0

def decimalValue (digits : List Char) : Nat :=
  digits.foldl (fun n c => n * 10 + Ascii.digitValue c) 0

def byte? (part : List Char) : Option Nat :=
  match part with
  | [] => none
  | ['0'] => some 0
  | '0' :: _ => none
  | digits =>
    if digits.all Ascii.isDigit && decimalValue digits ≤ 255 then some (decimalValue digits)
    else none

def dotted? (text : List Char) : Option (List Nat) :=
  match (text.splitOn '.').mapM byte? with
  | some [a, b, c, d] => some [a * 256 + b, c * 256 + d]
  | _ => none

/-- Pieces read so far, and how many of them stand before the omitted run. -/
structure Partial where
  pieces : List Nat
  gap : Option Nat
  deriving DecidableEq, Repr

def Partial.push (p : Partial) (piece : Nat) : Partial := { p with pieces := p.pieces ++ [piece] }

def Partial.finish (p : Partial) : Except Failure (List Nat) :=
  match p.gap with
  | some gap => .ok (p.pieces.take gap ++ List.replicate (8 - p.pieces.length) 0 ++ p.pieces.drop gap)
  | none => if p.pieces.length = 8 then .ok p.pieces else .error .ipv6

def leadingHex (text : List Char) : List Char := (text.take 4).takeWhile Ascii.isHex

theorem leadingHex_length_pos {c : Char} {rest : List Char} (h : leadingHex (c :: rest) ≠ []) :
    0 < (leadingHex (c :: rest)).length := List.length_pos_iff.mpr h

def readPieces (p : Partial) (text : List Char) : Except Failure (List Nat) :=
  match text with
  | [] => p.finish
  | c :: rest =>
    if p.pieces.length = 8 then .error .ipv6
    else if c = ':' then
      match p.gap with
      | some _ => .error .ipv6
      | none => readPieces ⟨p.pieces ++ [0], some (p.pieces.length + 1)⟩ rest
    else
      let digits := leadingHex (c :: rest)
      if h : digits = [] then .error .ipv6
      else
        have := leadingHex_length_pos h
        match _hm : (c :: rest).drop digits.length with
        | [] => (p.push (hexValue digits)).finish
        | '.' :: _ =>
          if 6 < p.pieces.length then .error .ipv6
          else match dotted? (c :: rest) with
          | some [a, b] => ((p.push a).push b).finish
          | _ => .error .ipv6
        | ':' :: [] => .error .ipv6
        | ':' :: d :: after => readPieces (p.push (hexValue digits)) (d :: after)
        | _ => .error .ipv6
termination_by text.length
decreasing_by
  · simp
  · have shorter := congrArg List.length _hm
    simp only [List.length_drop, List.length_cons] at shorter ⊢
    omega

def address? (text : List Char) : Except Failure (List Nat) :=
  match text with
  | [] | [_] => .error .ipv6
  | ':' :: ':' :: rest => readPieces ⟨[0], some 1⟩ rest
  | ':' :: _ => .error .ipv6
  | _ => readPieces ⟨[], none⟩ text

end ScriptHost.Url.Ipv6
