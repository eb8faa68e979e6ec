import ScriptHost.Json.Reader

/-!
# Passing over a JSON value

A value that nobody asked for is checked for its brackets, commas and words
only: numbers may be out of range, surrogates need not pair, and there is no
limit on how deep values nest.
-/

set_option autoImplicit false

namespace ScriptHost.Json

def skipEscape (text : Text) : Except Fault Text :=
  match text with
  | [] => failAt .endInString []
  | 'u' :: rest => (readHex rest).map (·.2)
  | c :: rest =>
    if (simpleEscape? c).isSome then .ok rest
    else failAhead .invalidEscape text

def skipString (fuel : Nat) (text : Text) : Except Fault Text :=
  match fuel, text with
  | 0, _ | _, [] => failAt .endInString []
  | fuel + 1, c :: rest =>
    if c = '"' then .ok rest
    else if c = '\\' then match skipEscape rest with
      | .error fault => .error fault
      | .ok rest => skipString fuel rest
    else if c.toNat < 0x20 then failAt .controlCharacter (c :: rest)
    else skipString fuel rest

def skipExponent (text : Text) : Except Fault Text :=
  match (exponentSign text).2 with
  | [] => failAt .invalidNumber []
  | c :: rest =>
    if Ascii.isDigit c then .ok (dropDigits rest).2 else failAhead .invalidNumber (c :: rest)

def skipFraction (text : Text) : Except Fault Text :=
  let (count, rest) := dropDigits text
  if count = 0 then failAhead .invalidNumber rest
  else match rest with
    | c :: after => if c = 'e' || c = 'E' then skipExponent after else .ok rest
    | [] => .ok []

def skipTail (text : Text) : Except Fault Text :=
  match text with
  | '.' :: rest => skipFraction rest
  | c :: rest => if c = 'e' || c = 'E' then skipExponent rest else .ok text
  | [] => .ok []

def skipNumber (text : Text) : Except Fault Text :=
  match text with
  | [] => failAt .invalidNumber []
  | '0' :: rest => if beginsWithDigit rest then failAhead .invalidNumber rest else skipTail rest
  | c :: rest =>
    if Ascii.isDigit c then skipTail (dropDigits rest).2 else failAhead .invalidNumber (c :: rest)

inductive Frame where
  | list
  | object
  deriving DecidableEq, Repr

def Frame.isEnd : Frame → Char → Bool
  | .list, c => c = ']'
  | .object, c => c = closeBrace

def Frame.unended : Frame → Cause
  | .list => .endInList
  | .object => .endInObject

def Frame.unseparated : Frame → Cause
  | .list => .expectedListEnd
  | .object => .expectedObjectEnd

def skipScalar (text : Text) : Except Fault (Option Frame × Text) :=
  match skipSpace text with
  | [] => failAhead .endInValue []
  | 'n' :: rest => (readWord "ull".toList rest).map (none, ·)
  | 't' :: rest => (readWord "rue".toList rest).map (none, ·)
  | 'f' :: rest => (readWord "alse".toList rest).map (none, ·)
  | '-' :: rest => (skipNumber rest).map (none, ·)
  | '"' :: rest => (skipString (rest.length + 1) rest).map (none, ·)
  | '[' :: rest => .ok (some .list, rest)
  | c :: rest =>
    if c = openBrace then .ok (some .object, rest)
    else if Ascii.isDigit c then (skipNumber (c :: rest)).map (none, ·)
    else failAhead .expectedValue (c :: rest)

/-- Close brackets until another value has to follow; the frames that are left
are the open ones, none when the whole value is over. -/
def closeFrames (afterValue : Bool) (text : Text) : List Frame → Except Fault (List Frame × Text)
  | [] => .ok ([], text)
  | frame :: outer => match skipSpace text with
    | [] => failAhead frame.unended []
    | c :: rest =>
      if c = ',' && afterValue then .ok (frame :: outer, rest)
      else if frame.isEnd c then closeFrames true rest outer
      else if afterValue then failAhead frame.unseparated (c :: rest)
      else .ok (frame :: outer, c :: rest)

def skipName (text : Text) : Except Fault Text :=
  match skipSpace text with
  | [] => failAhead .endInObject []
  | '"' :: rest => match skipString (rest.length + 1) rest with
    | .error fault => .error fault
    | .ok rest => colon rest
  | rest => failAhead .keyNotString rest

def skipValues (fuel : Nat) (frames : List Frame) (text : Text) : Except Fault Text :=
  match fuel with
  | 0 => failAhead .endInValue text
  | fuel + 1 => match skipScalar text with
    | .error fault => .error fault
    | .ok (opened, rest) =>
      match closeFrames opened.isNone rest (opened.toList ++ frames) with
      | .error fault => .error fault
      | .ok ([], rest) => .ok rest
      | .ok (.list :: outer, rest) => skipValues fuel (.list :: outer) rest
      | .ok (.object :: outer, rest) => match skipName rest with
        | .error fault => .error fault
        | .ok rest => skipValues fuel (.object :: outer) rest

def skipValue (text : Text) : Except Fault Text := skipValues (text.length + 1) [] text

end ScriptHost.Json
