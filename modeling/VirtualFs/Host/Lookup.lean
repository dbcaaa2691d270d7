import VirtualFs.Host.Disk

/-!
Finding nodes of the host by path. Empty components count for nothing, `"."` stays where it is and
`".."` goes to the parent; every component but the last has to be a directory, and with a slash after
it the last one too. A directory has to grant entering it before anything is looked up in it, `"."`
and `".."` included.
-/

namespace VirtualFs.Host

/-- The largest length of a whole path in bytes, and of one component. -/
def pathLimit : Nat := 4095

def nameLimit : Nat := 255

/-- The components of a host path. -/
def components (path : String) : List String :=
  (Path.pieces path).filter (· != "")

/-- The path starts at the root. -/
def isAbsolute (path : String) : Bool :=
  path.toList.head? == some Path.separator

/-- The path ends in a slash. -/
def endsInSlash (path : String) : Bool :=
  path.toList.getLast? == some Path.separator

/-- The path of `name` below `path`. -/
def below (path name : String) : String :=
  if path = "" ∨ endsInSlash path then path ++ name else path ++ "/" ++ name

/-- The path of the names from the root on. -/
def absolute (names : List String) : String :=
  "/" ++ Path.joinAll names

/-- The last component of a path, for calls that make or take away a name. -/
inductive Last where
  | name (s : String)
  | dot
  | dotDot
  /-- The path has no component. -/
  | root
  deriving Repr, DecidableEq

/-- The names in a directory when they were read, and the number of the directory. -/
structure Listing where
  dir : Nat
  names : List String
  deriving Repr, DecidableEq

/-- Where a path leads to before its last component. -/
structure Place where
  dir : Nat
  last : Last
  /-- The path ends in a slash. -/
  slash : Bool
  deriving Repr, DecidableEq

namespace Disk

/-- The directory that a path starts from. -/
def start (disk : Disk) (path : String) : Nat :=
  if isAbsolute path then root else disk.workDir

/-- The node of a name in a directory. -/
def member? (disk : Disk) (dir : Nat) (name : String) : Except Failure (Option Nat) :=
  match disk.dir? dir with
  | none => .error .notDirectory
  | some (_, members) =>
    if nameLimit < Text.byteLength name then .error .nameTooLong
    else .ok (members.lookup name)

/-- Follows the components from a node on. -/
def follow (disk : Disk) (inode : Nat) : List String → Except Failure Nat
  | [] => .ok inode
  | name :: names =>
    match disk.dir? inode with
    | none => .error .notDirectory
    | some (parent, _) =>
      if disk.grants inode .enter = false then .error .denied
      else if name = "." then disk.follow inode names
      else if name = ".." then disk.follow parent names
      else
        match disk.member? inode name with
        | .error e => .error e
        | .ok none => .error .missing
        | .ok (some i) => disk.follow i names

/-- A path that the host looks at at all. -/
def checkPath (path : String) : Except Failure Unit :=
  if path.toList.contains '\x00' then .error .nullCharacter
  else if path = "" then .error .missing
  else if pathLimit < Text.byteLength path then .error .nameTooLong
  else .ok ()

/-- The node at a path. -/
def locate (disk : Disk) (path : String) : Except Failure Nat :=
  match checkPath path with
  | .error e => .error e
  | .ok () =>
    match disk.follow (disk.start path) (components path) with
    | .error e => .error e
    | .ok inode =>
      if endsInSlash path ∧ disk.isDir inode = false then .error .notDirectory else .ok inode

/-- The directory before the last component of a path. If there is a last component, the directory
has to grant entering it. -/
def place (disk : Disk) (path : String) : Except Failure Place :=
  match checkPath path with
  | .error e => .error e
  | .ok () =>
    match disk.follow (disk.start path) (components path).dropLast with
    | .error e => .error e
    | .ok dir =>
      if disk.isDir dir = false then .error .notDirectory
      else if components path ≠ [] ∧ disk.grants dir .enter = false then .error .denied
      else
        let last := match (components path).getLast? with
          | none => Last.root
          | some "." => .dot
          | some ".." => .dotDot
          | some s => .name s
        .ok ⟨dir, last, endsInSlash path⟩

/-- The metadata of the node at a path. -/
def metadata (disk : Disk) (path : String) : Except Failure Metadata :=
  match disk.locate path with
  | .ok inode => disk.metadataOf inode
  | .error e => .error e

/-- The names in the directory at a path, which has to grant reading them. -/
def list (disk : Disk) (path : String) : Except Failure Listing :=
  match disk.locate path with
  | .error e => .error e
  | .ok inode =>
    match disk.dir? inode with
    | some (_, members) =>
      if disk.grants inode .read then .ok ⟨inode, members.map (·.1)⟩ else .error .denied
    | none => .error .notDirectory

/-- The metadata of a name in a directory, which has to grant entering it. -/
def memberMetadata (disk : Disk) (dir : Nat) (name : String) : Except Failure Metadata :=
  if disk.grants dir .enter = false then .error .denied
  else
    match disk.member? dir name with
    | .error e => .error e
    | .ok none => .error .missing
    | .ok (some inode) => disk.metadataOf inode

/-- There is a directory at the path. -/
def isDirAt (disk : Disk) (path : String) : Bool :=
  match disk.locate path with
  | .ok inode => disk.isDir inode
  | .error _ => false

/-- The name of a node in its parent. -/
def nameIn (disk : Disk) (parent inode : Nat) : String :=
  match disk.dir? parent with
  | none => ""
  | some (_, members) =>
    match members.find? (·.2 == inode) with
    | some (name, _) => name
    | none => ""

/-- The names from the root to a directory, the last one first. `depth` bounds them. -/
def namesTo (disk : Disk) : Nat → Nat → List String
  | 0, _ => []
  | depth + 1, inode =>
    if inode = root then []
    else
      match disk.dir? inode with
      | none => []
      | some (parent, _) => disk.nameIn parent inode :: disk.namesTo depth parent

/-- The absolute path of the node at a path, without `"."` and `".."`. -/
def canonical (disk : Disk) (path : String) : Except Failure String :=
  match disk.locate path with
  | .error e => .error e
  | .ok inode =>
    if disk.isDir inode then .ok (absolute (disk.namesTo disk.nodes.length inode).reverse)
    else
      match disk.place path with
      | .ok ⟨dir, .name name, _⟩ =>
        .ok (absolute ((disk.namesTo disk.nodes.length dir).reverse ++ [name]))
      | .ok _ => .error .notDirectory
      | .error e => .error e

end Disk

end VirtualFs.Host
