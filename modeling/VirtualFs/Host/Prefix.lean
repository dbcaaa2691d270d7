import VirtualFs.Host.Lookup

namespace VirtualFs.Host

/-- A piece of a path that is no component: an empty one, or a dot behind the start of the path. -/
def isHollow (piece : String) : Bool :=
  piece == "" || piece == "."

/-- What a path starts with that is no name: the root, a dot, or nothing. -/
def lead (path : String) : String :=
  if isAbsolute path then "/"
  else if (Path.pieces path).head? = some "." then "."
  else ""

/-- The pieces of a path behind what it starts with. -/
def body (path : String) : List String :=
  if lead path = "" then Path.pieces path else (Path.pieces path).tail

/-- The pieces without the hollow ones at their end. -/
def dropHollowEnd (pieces : List String) : List String :=
  (pieces.reverse.dropWhile isHollow).reverse

/-- The pieces behind these names, whatever is hollow between the names. -/
def afterNames : List String → List String → Option (List String)
  | [], pieces => some (pieces.dropWhile isHollow)
  | name :: names, pieces =>
    match pieces.dropWhile isHollow with
    | [] => none
    | piece :: rest => if piece = name then afterNames names rest else none

/-- The path behind the components of another, none if it does not start with them. Nothing hollow
is left at its end, nor at its start if anything was taken away. -/
def stripPrefix? (base path : String) : Option String :=
  let names := (body base).filter fun piece => !isHollow piece
  if lead base = "" ∧ names = [] then
    let kept := dropHollowEnd (body path)
    some (if isAbsolute path then "/" ++ Path.joinAll kept
      else Path.joinAll (if lead path = "" then kept else lead path :: kept))
  else if lead base = lead path then
    (afterNames names (body path)).map fun rest => Path.joinAll (dropHollowEnd rest)
  else none

end VirtualFs.Host
