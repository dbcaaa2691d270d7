import VirtualFs.Error
import VirtualFs.Path
import VirtualFs.Text.Blank

namespace VirtualFs

/-- Which paths a filesystem accepts. The predicate sees the path without blanks at its ends. -/
structure PathRules where
  accepts : String → Bool

namespace PathRules

/-- Every text is a path. -/
def permissive : PathRules :=
  ⟨fun _ => true⟩

/-- Only valid relative paths. -/
def strict : PathRules :=
  ⟨Path.valid⟩

/-- The path without blanks at its ends and without one separator after that. An empty result
names the root. A refused path is reported as it was given. -/
def clean (rules : PathRules) (path : String) : Except FsError String :=
  let trimmed := Text.trim path
  if rules.accepts trimmed then .ok (String.ofList (Path.dropSlash trimmed.toList))
  else .error (.invalidPath path)

/-- The segments of the cleaned path, empty ones left out. -/
def split (rules : PathRules) (path : String) : Except FsError (List String) :=
  match rules.clean path with
  | .ok cleaned => .ok ((Path.pieces cleaned).filter (· != ""))
  | .error e => .error e

/-- The cleaned path is the root's `"."` or has `"."` as its final segment; a refused path does
not end so. -/
def endsWithDot (rules : PathRules) (path : String) : Bool :=
  match rules.clean path with
  | .ok cleaned => Path.base cleaned == "."
  | .error _ => false

end PathRules

end VirtualFs
