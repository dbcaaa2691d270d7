import VirtualFs.Glob.Match
import VirtualFs.Host.Libraries

namespace VirtualFs.Host

open Glob (Token PatternError)

/-- A pattern cut into components. -/
structure Search where
  /-- Where the search starts. -/
  scope : String
  parts : List (List Token)
  /-- Only directories are looked for. -/
  directories : Bool

/-- A path that a search has come to, and the components still to match: none when it is found,
otherwise its own name against the first. -/
structure Candidate where
  path : String
  parts : List (List Token)

namespace Search

/-- The components of a pattern, one slash at its end ignored. -/
def cut (pattern : List Char) : List (List Char) :=
  let pieces := Text.pieces Path.isSeparator pattern
  if pieces.getLast? = some [] then pieces.dropLast else pieces

/-- Reads a pattern. The whole of it is checked before its components, which do not all have to be
patterns themselves. -/
def ofPattern (pattern : String) : Except PatternError Search := do
  let _ ← Glob.parse pattern
  let absolute := isAbsolute pattern
  let body := pattern.toList.drop (if absolute then 1 else 0)
  let parts ← (cut body).mapM fun part => Glob.parse (String.ofList part)
  return {
    scope := if absolute then "/" else "."
    parts := if body = [] then [[]] else parts
    directories := endsInSlash pattern }

/-- A component that stands for any number of directories. -/
def isRecursive (part : List Token) : Bool :=
  part.contains .anyComponents

/-- The path stays in the directory where a search without a root starts. -/
def isHere (path : String) : Bool :=
  let pieces := Path.pieces path
  pieces.head? == some "." && pieces.all fun s => s == "" || s == "."

/-- The path of a name in a directory that the search has come to. -/
def extend (path name : String) : String :=
  if isHere path then name else below path name

/-- The members of a directory by path, in order. -/
def members (disk : Disk) (path : String) : Except Failure (List String) :=
  (disk.list path).map fun listing => listing.names.map (extend path)

/-- There is a node at the path. -/
def isThere (disk : Disk) (path : String) : Bool :=
  (disk.locate path).isOk

/-- A component without wildcards leads on from a path: `"."` and `".."` in any directory, a name
to what it names. -/
def leadsTo (disk : Disk) (path name : String) : Bool :=
  if name = "." ∨ name = ".." then disk.isDirAt path else isThere disk (extend path name)

/-- What to look at below a path for the components `parts`. One without wildcards is looked up, any
other is tried on all members of a directory, which has to be readable. `"."` and `".."` are only
matched by a component that starts with a dot. -/
def expand (disk : Disk) (path : String) :
    List (List Token) → Except Failure (List Candidate)
  | [] => .ok [⟨path, []⟩]
  | part :: parts =>
    match Glob.literal? part with
    | some name => if leadsTo disk path name then expand disk (extend path name) parts else .ok []
    | none =>
      if disk.isDirAt path then do
        let children ← members disk path
        let special := ["..", "."].filter fun name =>
          part.head? == some (.char '.') && Glob.matchesText false part name
        let dotted ← special.flatMapM fun name => expand disk (below path name) parts
        return dotted ++ children.map fun child => ⟨child, part :: parts⟩
      else .ok []

/-- A path that was found, if it is what is looked for. -/
def wanted (disk : Disk) (directories : Bool) (path : String) : List String :=
  if directories && !disk.isDirAt path then [] else [path]

/-- The name of a candidate against the component `part`, before `parts`. `further` tells what comes
of the components left below it. -/
def matchName (disk : Disk) (directories : Bool)
    (further : List (List Token) → Except Failure (List String)) (path : String)
    (part : List Token) (parts : List (List Token)) : Except Failure (List String) :=
  if Glob.matchesText false part (Path.base path) then
    match parts with
    | [] => .ok (wanted disk directories path)
    | parts => further parts
  else .ok []

/-- A candidate against the component `part` for any number of directories, before `parts`. -/
def goDown (disk : Disk) (directories : Bool)
    (further : List (List Token) → Except Failure (List String)) (path : String)
    (part : List Token) (parts : List (List Token)) : Except Failure (List String) := do
  let deeper ← (if disk.isDirAt path then further (part :: parts) else .ok [])
  match parts with
  | [] => return if disk.isDirAt path then path :: deeper else []
  | next :: rest => return (← matchName disk directories further path next rest) ++ deeper

/-- What comes of a candidate. `fuel` bounds the levels of the search. -/
def visit (disk : Disk) (directories : Bool) :
    Nat → Candidate → Except Failure (List String)
  | 0, _ => .ok []
  | fuel + 1, ⟨path, parts⟩ =>
    let further (parts : List (List Token)) : Except Failure (List String) := do
      (← expand disk path parts).flatMapM (visit disk directories fuel)
    match parts with
    | [] => .ok (wanted disk directories path)
    | part :: parts =>
      if isRecursive part then
        goDown disk directories further path part (parts.dropWhile isRecursive)
      else matchName disk directories further path part parts

/-- The paths that a search finds. A search goes down one level or one component at a time. -/
def results (search : Search) (disk : Disk) : Except Failure (List String) := do
  (← expand disk search.scope search.parts).flatMapM
    (visit disk search.directories ((search.parts.length + 1) * (disk.nodes.length + 1)))

end Search

/-- The paths that match a pattern. -/
def Disk.search (disk : Disk) (pattern : String) : Except SearchError (List String) :=
  match Search.ofPattern pattern with
  | .error e => .error (.pattern e.message)
  | .ok search => (search.results disk).mapError .refused

/-- The libraries as the shell and the host have them. -/
def Libraries.standard : Libraries :=
  ⟨.shell, Disk.search, Disk.canonical⟩

end VirtualFs.Host
