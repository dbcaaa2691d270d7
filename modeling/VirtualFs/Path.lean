import VirtualFs.Text.Pieces
import VirtualFs.Text.Bytes

/-!
Slash-separated paths as text. `"."` and `""` both name the root; the helpers work on any text and
never look at a filesystem.
-/

namespace VirtualFs.Path

/-- The separator of path segments. -/
def separator : Char := '/'

/-- `true` on the separator alone. -/
def isSeparator (c : Char) : Bool :=
  c == separator

/-- The characters without one separator at their end. -/
def dropSlash (cs : List Char) : List Char :=
  if cs.getLast? = some separator then cs.dropLast else cs

/-- The texts between the separators, empty ones included. -/
def pieces (path : String) : List String :=
  (Text.pieces isSeparator path.toList).map String.ofList

/-- The segments joined by separators. -/
def joinAll (segments : List String) : String :=
  String.intercalate "/" segments

/-- A segment that a valid path may have. -/
def validSegment (segment : String) : Bool :=
  segment != "" && segment != "." && segment != ".."

/-- A valid relative path: `"."`, or segments that are neither empty nor `"."` nor `".."`. -/
def valid (path : String) : Bool :=
  path == "." || (pieces path).all validSegment

/-- The text after the last separator, the whole text when there is none. -/
def afterSlash (cs : List Char) : List Char :=
  (cs.reverse.takeWhile (!isSeparator ·)).reverse

/-- The final segment, one separator at the end ignored; `"."` for the root. -/
def base (path : String) : String :=
  let cs := dropSlash path.toList
  if cs.isEmpty then "." else String.ofList (afterSlash cs)

/-- Everything before the last separator: `"/"` when that is nothing, `"."` when there is no
separator. -/
def dir (path : String) : String :=
  match path.toList.reverse.dropWhile (!isSeparator ·) with
  | [] => "."
  | [_] => "/"
  | _ :: front => String.ofList front.reverse

/-- The path of `name` below `parent`; the root on either side adds nothing. -/
def join (parent name : String) : String :=
  if parent = "." ∨ parent = "" then name
  else if name = "." ∨ name = "" then parent
  else if parent.toList.getLast? = some separator then parent ++ name
  else parent ++ "/" ++ name

/-- `path` as seen from `base`, `"."` when they are equal, `none` when it lies outside. -/
def stripBase (base path : String) : Option String :=
  if base = "." ∨ base = "" then some path
  else if path = base then some "."
  else (Text.dropLead? (base.toList ++ [separator]) path.toList).map String.ofList

end VirtualFs.Path
