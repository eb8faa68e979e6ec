import ScriptHost.Json.Basic
import ScriptHost.Json.Fault

/-!
# Scalars of JSON text

Each reader takes the text from where it stands and returns what it read and
the rest of the text.
-/

set_option autoImplicit false

namespace ScriptHost.Json

abbrev Text := List Char

abbrev Read (α : Type) := Except Fault (α × Text)

def bytesOf : Text → Nat
  | [] => 0
  | c :: rest => c.utf8Size + bytesOf rest

def failAt {α : Type} (cause : Cause) (rest : Text) : Except Fault α :=
  .error ⟨cause, bytesOf rest, false⟩

def failAhead {α : Type} (cause : Cause) (rest : Text) : Except Fault α :=
  .error ⟨cause, bytesOf rest, true⟩

def isSpace (c : Char) : Bool := c = ' ' || c = '\n' || c = '\t' || c = '\r'

def skipSpace (text : Text) : Text := text.dropWhile isSpace

def readWord : List Char → Text → Except Fault Text
  | [], text => .ok text
  | _, [] => failAt .endInValue []
  | w :: word, c :: rest => if c = w then readWord word rest else failAhead .expectedIdent (c :: rest)

def fitsWord (n : Nat) : Bool := n < Nat.pow 2 64

/-- Decimal digits while the number they make fits in sixty-four bits. -/
def takeDigits (value : Nat) : Text → Nat × Nat × Text
  | [] => (value, 0, [])
  | c :: rest =>
    if Ascii.isDigit c && fitsWord (value * 10 + Ascii.digitValue c) then
      let (value, count, rest) := takeDigits (value * 10 + Ascii.digitValue c) rest
      (value, count + 1, rest)
    else (value, 0, c :: rest)

def dropDigits (text : Text) : Nat × Text :=
  ((text.takeWhile Ascii.isDigit).length, text.dropWhile Ascii.isDigit)

def beginsWithDigit : Text → Bool
  | c :: _ => Ascii.isDigit c
  | [] => false

def beginsWithExponent : Text → Bool
  | c :: _ => c = 'e' || c = 'E'
  | [] => false

def real (negative : Bool) (significand : Nat) (exponent : Int) (rest : Text) : Read JsonNumber :=
  if JsonNumber.isOutOfRange significand exponent then failAt .outOfRange rest
  else .ok (.real negative significand exponent, rest)

def takeExponent (value : Nat) : Text → Nat × Text
  | [] => (value, [])
  | c :: rest =>
    if Ascii.isDigit c && value * 10 + Ascii.digitValue c < Nat.pow 2 31 then
      takeExponent (value * 10 + Ascii.digitValue c) rest
    else (value, c :: rest)

def exponentSign : Text → Bool × Text
  | '+' :: rest => (false, rest)
  | '-' :: rest => (true, rest)
  | rest => (false, rest)

def readExponent (negative : Bool) (significand : Nat) (start : Int) (text : Text) : Read JsonNumber :=
  let (below, text) := exponentSign text
  match text with
  | [] => failAt .endInValue []
  | c :: rest =>
    if !Ascii.isDigit c then failAhead .invalidNumber (c :: rest)
    else
      let (size, rest) := takeExponent (Ascii.digitValue c) rest
      match rest with
      | d :: after =>
        if Ascii.isDigit d then
          if significand ≠ 0 && !below then failAt .outOfRange after
          else .ok (.real negative 0 0, (dropDigits rest).2)
        else real negative significand (if below then start - size else start + size) rest
      | [] => real negative significand (if below then start - size else start + size) rest

def afterFraction (negative : Bool) (significand : Nat) (exponent : Int) (text : Text) :
    Read JsonNumber :=
  match text with
  | c :: rest =>
    if c = 'e' || c = 'E' then readExponent negative significand exponent rest
    else real negative significand exponent text
  | [] => real negative significand exponent []

/-- The digits after the point; those that do not fit any more are dropped. -/
def readFraction (negative : Bool) (significand : Nat) (start : Int) (text : Text) :
    Read JsonNumber :=
  let (value, count, rest) := takeDigits significand text
  if beginsWithDigit rest then afterFraction negative value (start - count) (dropDigits rest).2
  else if count = 0 then
    match rest with
    | [] => failAhead .endInValue []
    | _ => failAhead .invalidNumber rest
  else afterFraction negative value (start - count) rest

def afterInteger (negative : Bool) (significand dropped : Nat) (text : Text) : Read JsonNumber :=
  match text with
  | '.' :: rest => readFraction negative significand dropped rest
  | c :: rest =>
    if c = 'e' || c = 'E' then readExponent negative significand dropped rest
    else whole
  | [] => whole
where
  whole : Read JsonNumber :=
    if dropped ≠ 0 then real negative significand dropped text
    else if !negative then .ok (.integer false significand, text)
    else if significand = 0 || Nat.pow 2 63 < significand then real true significand 0 text
    else .ok (.integer true significand, text)

def readNumber (negative : Bool) (text : Text) : Read JsonNumber :=
  match text with
  | [] => failAt .endInValue []
  | '0' :: rest =>
    if beginsWithDigit rest then failAhead .invalidNumber rest
    else afterInteger negative 0 0 rest
  | c :: rest =>
    if !Ascii.isDigit c then failAhead .invalidNumber (c :: rest)
    else
      let (value, _, rest) := takeDigits (Ascii.digitValue c) rest
      let (dropped, rest) := dropDigits rest
      afterInteger negative value dropped rest

def hexDigits? : List Char → Option Nat
  | [] => some 0
  | cs => (cs.mapM Ascii.hexValue?).map (·.foldl (fun n d => n * 16 + d) 0)

/-- Four hexadecimal digits; the next four bytes are taken whatever they are. -/
def readHex (text : Text) : Read Nat :=
  if bytesOf text < 4 then failAt .endInString []
  else match hexDigits? (text.take 4) with
    | some n => .ok (n, text.drop 4)
    | none => .error ⟨.invalidEscape, bytesOf text - 4, false⟩

def isLeading (n : Nat) : Bool := 0xD800 ≤ n && n ≤ 0xDBFF

def isTrailing (n : Nat) : Bool := 0xDC00 ≤ n && n ≤ 0xDFFF

/-- The second half of a surrogate pair. -/
def readTrailing (lead : Nat) (text : Text) : Read Char :=
  match text with
  | [] => failAt .endInString []
  | '\\' :: [] => failAt .endInString []
  | '\\' :: 'u' :: rest => match readHex rest with
    | .error fault => .error fault
    | .ok (n, rest) =>
      if isTrailing n then
        .ok (Char.ofNat (0x10000 + (lead - 0xD800) * 0x400 + (n - 0xDC00)), rest)
      else failAt .loneSurrogate rest
  | '\\' :: rest => failAhead .endOfHexEscape rest
  | rest => failAhead .endOfHexEscape rest

def readUnicode (text : Text) : Read Char :=
  match readHex text with
  | .error fault => .error fault
  | .ok (n, rest) =>
    if isTrailing n then failAt .loneSurrogate rest
    else if isLeading n then readTrailing n rest
    else .ok (Char.ofNat n, rest)

def simpleEscape? (c : Char) : Option Char :=
  if c = '"' || c = '\\' || c = '/' then some c
  else if c = 'b' then some (Char.ofNat 8)
  else if c = 'f' then some (Char.ofNat 12)
  else if c = 'n' then some '\n'
  else if c = 'r' then some '\r'
  else if c = 't' then some '\t'
  else none

def readEscape (text : Text) : Read Char :=
  match text with
  | [] => failAt .endInString []
  | 'u' :: rest => readUnicode rest
  | c :: rest => match simpleEscape? c with
    | some d => .ok (d, rest)
    | none => failAhead .invalidEscape text

def readChars (fuel : Nat) (text : Text) : Read (List Char) :=
  match fuel, text with
  | 0, _ | _, [] => failAt .endInString []
  | fuel + 1, c :: rest =>
    if c = '"' then .ok ([], rest)
    else if c = '\\' then match readEscape rest with
      | .error fault => .error fault
      | .ok (d, rest) => (readChars fuel rest).map fun (ds, rest) => (d :: ds, rest)
    else if c.toNat < 0x20 then failAt .controlCharacter rest
    else (readChars fuel rest).map fun (ds, rest) => (c :: ds, rest)

def readString (text : Text) : Read String :=
  (readChars (text.length + 1) text).map fun (cs, rest) => (String.ofList cs, rest)

end ScriptHost.Json
