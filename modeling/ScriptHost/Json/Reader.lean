import ScriptHost.Json.Scanner

/-!
# Reading JSON text as a value

Values nest at most one hundred and twenty-seven deep.
-/

set_option autoImplicit false

namespace ScriptHost.Json

def depthLimit : Nat := 128

/-- What separates the items of a list: the text of the next item, or nothing
before the closing bracket, which is left in place. -/
def nextItem (first : Bool) (text : Text) : Except Fault (Option Text) :=
  match skipSpace text with
  | [] => failAhead .endInList []
  | ']' :: _ => .ok none
  | c :: rest =>
    if first then .ok (some (c :: rest))
    else if c ≠ ',' then failAhead .expectedListEnd (c :: rest)
    else match skipSpace rest with
      | ']' :: after => failAhead .trailingComma (']' :: after)
      | [] => failAhead .endInValue []
      | after => .ok (some after)

def endOfList (text : Text) : Except Fault Text :=
  match skipSpace text with
  | ']' :: rest => .ok rest
  | ',' :: rest => match skipSpace rest with
    | ']' :: after => failAhead .trailingComma (']' :: after)
    | after => failAhead .trailingCharacters after
  | [] => failAhead .endInList []
  | rest => failAhead .trailingCharacters rest

def closeBrace : Char := '\x7d'

def openBrace : Char := '\x7b'

/-- The text behind the opening quote of the next name, or nothing before the
closing brace, which is left in place. -/
def nextName (first : Bool) (text : Text) : Except Fault (Option Text) :=
  match skipSpace text with
  | [] => failAhead .endInObject []
  | c :: rest =>
    if c = closeBrace then .ok none
    else if first then
      if c = '"' then .ok (some rest) else failAhead .keyNotString (c :: rest)
    else if c ≠ ',' then failAhead .expectedObjectEnd (c :: rest)
    else match skipSpace rest with
      | [] => failAhead .endInValue []
      | d :: after =>
        if d = '"' then .ok (some after)
        else if d = closeBrace then failAhead .trailingComma (d :: after)
        else failAhead .keyNotString (d :: after)

def endOfObject (text : Text) : Except Fault Text :=
  match skipSpace text with
  | [] => failAhead .endInObject []
  | c :: rest =>
    if c = closeBrace then .ok rest
    else if c = ',' then failAhead .trailingComma (c :: rest)
    else failAhead .trailingCharacters (c :: rest)

def colon (text : Text) : Except Fault Text :=
  match skipSpace text with
  | [] => failAhead .endInObject []
  | ':' :: rest => .ok rest
  | rest => failAhead .expectedColon rest

mutual

def readValue (fuel depth : Nat) (text : Text) : Read Json :=
  match fuel with
  | 0 => failAhead .endInValue text
  | fuel + 1 => match skipSpace text with
    | [] => failAhead .endInValue []
    | 'n' :: rest => (readWord "ull".toList rest).map (.null, ·)
    | 't' :: rest => (readWord "rue".toList rest).map (.bool true, ·)
    | 'f' :: rest => (readWord "alse".toList rest).map (.bool false, ·)
    | '-' :: rest => (readNumber true rest).map fun (n, rest) => (.number n, rest)
    | '"' :: rest => (readString rest).map fun (s, rest) => (.string s, rest)
    | c :: rest =>
      if Ascii.isDigit c then
        (readNumber false (c :: rest)).map fun (n, rest) => (.number n, rest)
      else if c = '[' then
        if depth ≤ 1 then failAhead .tooDeep (c :: rest)
        else match readItems fuel (depth - 1) true rest with
          | .error fault => .error fault
          | .ok (items, rest) => (endOfList rest).map (.array items, ·)
      else if c = openBrace then
        if depth ≤ 1 then failAhead .tooDeep (c :: rest)
        else match readMembers fuel (depth - 1) true rest with
          | .error fault => .error fault
          | .ok (members, rest) => (endOfObject rest).map (.object members, ·)
      else failAhead .expectedValue (c :: rest)

def readItems (fuel depth : Nat) (first : Bool) (text : Text) : Read (List Json) :=
  match fuel with
  | 0 => failAhead .endInList text
  | fuel + 1 => match nextItem first text with
    | .error fault => .error fault
    | .ok none => .ok ([], skipSpace text)
    | .ok (some text) => match readValue fuel depth text with
      | .error fault => .error fault
      | .ok (value, rest) =>
        (readItems fuel depth false rest).map fun (values, rest) => (value :: values, rest)

def readMembers (fuel depth : Nat) (first : Bool) (text : Text) : Read (List (String × Json)) :=
  match fuel with
  | 0 => failAhead .endInObject text
  | fuel + 1 => match nextName first text with
    | .error fault => .error fault
    | .ok none => .ok ([], skipSpace text)
    | .ok (some text) => match readString text with
      | .error fault => .error fault
      | .ok (name, rest) => match colon rest with
        | .error fault => .error fault
        | .ok rest => match readValue fuel depth rest with
          | .error fault => .error fault
          | .ok (value, rest) => (readMembers fuel depth false rest).map
              fun (members, rest) => ((name, value) :: members, rest)

end

/-- Every call of the readers above takes at least every second time a character. -/
def enough (text : Text) : Nat := 2 * text.length + 2

def endOfText (text : Text) : Except Fault Unit :=
  match skipSpace text with
  | [] => .ok ()
  | rest => failAhead .trailingCharacters rest

def read (text : Text) : Except Fault Json :=
  match readValue (enough text) depthLimit text with
  | .error fault => .error fault
  | .ok (value, rest) => (endOfText rest).map fun _ => value

def parse (text : String) : Except String Json :=
  (read text.toList).mapError (·.message text.toList)

end ScriptHost.Json
