import ScriptHost.Text.Percent
import ScriptHost.Url.Basic

/-!
# Walking a path

A path is read segment by segment onto a stack of the segments kept so far,
the last one on top. A double dot takes the top away, a single dot leaves the
stack alone, and either of them at the end leaves an empty last segment. A
drive letter, a segment such as `C:`, is never taken away, and as the first
segment of a file path it is written with a colon.
-/

set_option autoImplicit false

namespace ScriptHost.Url

abbrev Segment := List Char

def isSlash (c : Char) : Bool := c = '/' || c = '\\'

def isSeparator (special : Bool) (c : Char) : Bool := c = '/' || (special && c = '\\')

def segmentsOf (special : Bool) (text : List Char) : List Segment :=
  text.splitOnP (isSeparator special)

def dotForms : List Segment := [".".toList, "%2e".toList, "%2E".toList]

def isSingleDot (s : Segment) : Bool := dotForms.contains s

def isDoubleDot (s : Segment) : Bool :=
  dotForms.any fun first => dotForms.any fun second => first ++ second = s

def isDriveMark (c : Char) : Bool := c = ':' || c = '|'

def isDriveLetter : Segment → Bool
  | [a, b] => Ascii.isAlpha a && isDriveMark b
  | _ => false

def isWrittenDriveLetter : Segment → Bool
  | [a, b] => Ascii.isAlpha a && b = ':'
  | _ => false

/-- A segment that reads as a drive letter up to a character that could end it. -/
def beginsWithDrive : Segment → Bool
  | [a, b] => Ascii.isAlpha a && isDriveMark b
  | a :: b :: c :: _ => Ascii.isAlpha a && isDriveMark b && (c = '\\' || c = '?' || c = '#')
  | _ => false

def popSegment : List Segment → List Segment
  | [] => []
  | top :: rest => if beginsWithDrive top then top :: rest else rest

def writtenSegment (file : Bool) (stack : List Segment) (s : Segment) : Segment :=
  match s with
  | [a, b] =>
    if file && stack.isEmpty && isDriveLetter [a, b] then [a, ':']
    else Percent.encode .path [a, b]
  | s => Percent.encode .path s

def enter (file : Bool) (stack : List Segment) (s : Segment) : List Segment :=
  if isDoubleDot s then popSegment stack
  else if isSingleDot s then stack
  else writtenSegment file stack s :: stack

def finish (file : Bool) (stack : List Segment) (s : Segment) : List Segment :=
  if isDoubleDot s then [] :: popSegment stack
  else if isSingleDot s then [] :: stack
  else writtenSegment file stack s :: stack

def walk (file : Bool) : List Segment → List Segment → List Segment
  | stack, [] => stack
  | stack, [s] => finish file stack s
  | stack, s :: t :: rest => walk file (enter file stack s) (t :: rest)

/-- Go on from a drive letter that ended the path so far. The first segment to
come stands beside the drive letter; only when the drive letter is alone in the
path does a text that follows begin a segment of its own. -/
def walkBesideDrive (drive : Segment) (below : List Segment) : List Segment → List Segment
  | [] => drive :: below
  | s :: rest =>
    if below.isEmpty then
      match s, rest with
      | [], rest => walk true [drive] rest
      | s, rest => walk true [drive] (s :: rest)
    else if isDoubleDot s then walk true (drive :: below) rest
    else if isSingleDot s then
      match rest with
      | [] => [] :: drive :: below
      | rest => walk true (drive :: below) rest
    else walk true ((drive ++ Percent.encode .path s) :: below) rest

def withoutLeadingEmpty (segments : List Segment) : List Segment :=
  match segments.dropWhile (·.isEmpty) with
  | [] => [[]]
  | kept => kept

def settle (file : Bool) (stack : List Segment) : Path :=
  .rooted (if file then withoutLeadingEmpty stack.reverse else stack.reverse)

def Path.segments : Path → List Segment
  | .rootless _ => []
  | .rooted segments => segments

def pathBelow (special file : Bool) (stack : List Segment) (text : List Char) : Path :=
  settle file (walk file stack (segmentsOf special text))

end ScriptHost.Url
