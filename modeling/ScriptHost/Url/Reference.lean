import ScriptHost.Text.Blank
import ScriptHost.Url.Authority

/-!
# Reading identifiers and references

A text is an identifier of its own if it begins with a scheme, and otherwise
a reference that is completed by a base. Control characters and spaces around
the text are ignored, and so are tabs and line breaks anywhere in it. Nothing
after the first number sign reaches the result.
-/

set_option autoImplicit false

namespace ScriptHost.Url

/-- The parts of a text: what stands before the query, the query, and whether a
fragment follows. -/
structure Reference where
  body : List Char
  query : Option (List Char)
  fragment : Bool
  deriving DecidableEq, Repr

def isOuterBlank (c : Char) : Bool := c.toNat ≤ 0x20

def isLineBlank (c : Char) : Bool := c = '\t' || c = '\n' || c = '\r'

def Reference.ofText (text : List Char) : Reference :=
  let text := (Blank.trimBy isOuterBlank text).filter (!isLineBlank ·)
  let kept := text.takeWhile (· ≠ '#')
  let query := match kept.dropWhile (· ≠ '?') with
    | [] => none
    | _ :: query => some query
  ⟨kept.takeWhile (· ≠ '?'), query, text.contains '#'⟩

def Reference.continues (r : Reference) : Bool := r.query.isSome || r.fragment

/-- The written query, or the base's if the reference has none and keeps the path. -/
def Reference.queryOf (r : Reference) (special : Bool) : Option (List Char) :=
  r.query.map (Percent.encode (if special then .specialQuery else .query))

def isSchemeChar (c : Char) : Bool :=
  Ascii.isAlpha c || Ascii.isDigit c || c = '+' || c = '-' || c = '.'

def splitScheme (text : List Char) : Option (List Char × List Char) :=
  match text.takeWhile isSchemeChar, text.dropWhile isSchemeChar with
  | first :: name, ':' :: rest =>
    if Ascii.isAlpha first then some ((first :: name).map Ascii.lower, rest) else none
  | _, _ => none

def leadingSlashes (text : List Char) : Nat := (text.takeWhile isSlash).length

def pathAfterServer (special : Bool) (text : List Char) : Path :=
  match text with
  | [] => if special then .rooted [[]] else .rooted []
  | c :: rest =>
    if isSeparator special c then pathBelow special false [] rest
    else pathBelow special false [] text

def withAuthority (scheme text : List Char) (r : Reference) : Except Failure Url :=
  let special := isSpecialScheme scheme
  let isEnd := isSeparator special
  let server := text.takeWhile (!isEnd ·)
  let after := text.dropWhile (!isEnd ·)
  (readAuthority scheme server (!after.isEmpty || r.continues)).map fun (authority, rest) =>
    ⟨scheme, some authority, pathAfterServer special (rest ++ after), r.queryOf special⟩

def relative (base : Url) (text : List Char) (r : Reference) : Except Failure Url :=
  let special := isSpecialScheme base.scheme
  match text with
  | [] => match r.query with
    | none => .ok base
    | some _ => .ok { base with query := r.queryOf special }
  | c :: rest =>
    if isSlash c then
      if 2 ≤ leadingSlashes text then
        match text with
        | '/' :: '/' :: after => withAuthority base.scheme after r
        | _ => withAuthority base.scheme (text.dropWhile isSlash) r
      else .ok { base with path := pathBelow special false [] rest, query := r.queryOf special }
    else
      let stack := base.path.segments.dropLast.reverse
      .ok { base with path := pathBelow special false stack text, query := r.queryOf special }

def fileScheme : List Char := "file".toList

def fileWith (host : Option Host) (path : Path) (r : Reference) : Url :=
  ⟨fileScheme, some ⟨[], host, none⟩, path, r.queryOf true⟩

def beginsWithDriveSegment (text : List Char) : Bool :=
  match text with
  | [a, b] => Ascii.isAlpha a && isDriveMark b
  | a :: b :: c :: _ => Ascii.isAlpha a && isDriveMark b && isSlash c
  | _ => false

def filePath (stack : List Segment) (text : List Char) : Path := pathBelow true true stack text

def isLocalHost (host : Host) : Bool := host = .domain "localhost".toList

/-- A file path after a server's name; a drive letter as its first segment
takes the server's place. -/
def fileOnServer (host : Host) (text : List Char) (r : Reference) : Url :=
  let below := match text with
    | [] => []
    | _ :: rest => rest
  let stack := walk true [] (segmentsOf true below)
  let local_ := match stack.reverse with
    | first :: _ => isWrittenDriveLetter first
    | [] => false
  fileWith (if local_ then none else some host) (settle true stack) r

def fileAfterSlashes (text : List Char) (r : Reference) : Except Failure Url :=
  let server := text.takeWhile (!isSlash ·)
  let after := text.dropWhile (!isSlash ·)
  if isDriveLetter server then .ok (fileWith none (filePath [] text) r)
  else if server.isEmpty then .ok (fileWith none (filePath [] after) r)
  else match Host.ofDomainText server with
    | .error failure => .error failure
    | .ok host =>
      if isLocalHost host then .ok (fileWith none (filePath [] after) r)
      else .ok (fileOnServer host after r)

def fileAfterSlash (base : Option Url) (text : List Char) (r : Reference) : Url :=
  match base with
  | some base =>
    if beginsWithDriveSegment text then fileWith none (filePath [] text) r
    else match base.path.segments with
      | first :: _ =>
        if isWrittenDriveLetter first then fileWith none (filePath [first] text) r
        else fileWith base.host? (filePath [] text) r
      | [] => fileWith base.host? (filePath [] text) r
  | none => fileWith none (filePath [] text) r

def fileBeside (base : Url) (text : List Char) (r : Reference) : Url :=
  let segments := segmentsOf true text
  let stack := match base.path.segments.reverse with
    | [] => walk true [] segments
    | last :: below =>
      if isWrittenDriveLetter last then walkBesideDrive last below segments
      else walk true below segments
  { base with path := settle true stack, query := r.queryOf true }

def file (base : Option Url) (text : List Char) (r : Reference) : Except Failure Url :=
  match text with
  | c :: d :: rest =>
    if isSlash c && isSlash d then fileAfterSlashes rest r
    else if isSlash c then .ok (fileAfterSlash base (d :: rest) r)
    else .ok (besideOrAlone base text)
  | [c] => if isSlash c then .ok (fileAfterSlash base [] r) else .ok (besideOrAlone base text)
  | [] => match base, r.query with
    | none, _ => .ok (fileWith none (filePath [] []) r)
    | some base, none => .ok base
    | some base, some _ => .ok { base with query := r.queryOf true }
where
  besideOrAlone (base : Option Url) (text : List Char) : Url :=
    match base with
    | none => fileWith none (filePath [] text) r
    | some base =>
      if beginsWithDriveSegment text then fileWith none (filePath [] text) r
      else fileBeside base text r

def fileBase? (base : Option Url) : Option Url := base.filter (·.isFile)

/-- Trailing spaces of a rootless path do not count unless a query follows. -/
def rootlessPath (text : List Char) (r : Reference) : Path :=
  let written := Percent.encode .control text
  .rootless (if r.query.isNone then Blank.trimEndBy (· = ' ') written else written)

def plain (scheme text : List Char) (r : Reference) : Except Failure Url :=
  match text with
  | '/' :: '/' :: after => withAuthority scheme after r
  | '/' :: after => .ok ⟨scheme, none, pathBelow false false [] after, r.queryOf false⟩
  | _ => .ok ⟨scheme, none, rootlessPath text r, r.queryOf false⟩

def withScheme (base : Option Url) (scheme text : List Char) (r : Reference) : Except Failure Url :=
  if isFileScheme scheme then file (fileBase? base) text r
  else if isSpecialScheme scheme then
    match base with
    | some base =>
      if base.scheme = scheme && leadingSlashes text < 2 then relative base text r
      else withAuthority scheme (text.dropWhile isSlash) r
    | none => withAuthority scheme (text.dropWhile isSlash) r
  else plain scheme text r

def ofReference (base : Option Url) (r : Reference) : Except Failure Url :=
  match splitScheme r.body with
  | some (scheme, text) => withScheme base scheme text r
  | none => match base with
    | none => .error .noBase
    | some base =>
      if !base.canBeBase then .error .rootlessBase
      else if base.isFile then file (some base) r.body r
      else relative base r.body r

def parse (text : String) : Except Failure Url := ofReference none (Reference.ofText text.toList)

def join (base : Url) (text : String) : Except Failure Url :=
  ofReference (some base) (Reference.ofText text.toList)

end ScriptHost.Url
