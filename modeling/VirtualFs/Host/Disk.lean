import VirtualFs.Host.Failure
import VirtualFs.Mode
import VirtualFs.Path
import VirtualFs.Time

/-!
The host's own tree of directories and files, without links. Nodes are numbered from zero, the root;
a node that was removed keeps its number, so that an open file outlives its name. Whoever works on
the disk owns all its nodes and has no privileges, so the permissions of the owner decide.
-/

namespace VirtualFs.Host

/-- What the host knows of a node, whatever it is. -/
structure Stamp where
  perm : UInt32
  born : Time
  mtime : Time
  deriving Repr, DecidableEq

/-- What permissions are about: reading content or the names in a directory, writing content or
changing the names in a directory, and looking up a name in a directory. -/
inductive Right where
  | read
  | write
  | enter
  deriving Repr, DecidableEq

/-- The owner's permission for it. -/
def Right.bit : Right → UInt32
  | read => 0o400
  | write => 0o200
  | enter => 0o100

/-- A node: a directory with its parent and its members in the order of their names, or a file with
its content. -/
inductive Node where
  | dir (stamp : Stamp) (parent : Nat) (members : List (String × Nat))
  | file (stamp : Stamp) (content : Bytes)
  deriving Repr, DecidableEq

/-- What is known of a node whatever it is. -/
def Node.stamp : Node → Stamp
  | dir stamp _ _ => stamp
  | file stamp _ => stamp

/-- The metadata of a node. -/
structure Metadata where
  inode : Nat
  isDir : Bool
  stamp : Stamp
  size : Nat
  deriving Repr, DecidableEq

/-- Type and permission bits. -/
def Metadata.mode (m : Metadata) : FileMode :=
  if m.isDir then .dir m.stamp.perm else .file m.stamp.perm

/-- The state of the host. -/
structure Disk where
  nodes : List Node
  /-- The directory that relative paths start from. -/
  workDir : Nat
  /-- What the host's clock shows. -/
  now : Time
  deriving Repr, DecidableEq

namespace Disk

/-- The number of the root directory, which is its own parent. -/
def root : Nat := 0

/-- Permission bits that new nodes never get. -/
def umask : UInt32 := 0o022

/-- The permissions of a new node that is asked for with `perm`. -/
def newPerm (perm : UInt32) : UInt32 :=
  perm &&& 0o777 &&& ~~~umask

/-- A disk that holds only its root. -/
def empty (now : Time) : Disk :=
  ⟨[.dir ⟨0o755, now, now⟩ root []], root, now⟩

def node? (disk : Disk) (inode : Nat) : Option Node :=
  disk.nodes[inode]?

/-- The parent and the members of a directory. -/
def dir? (disk : Disk) (inode : Nat) : Option (Nat × List (String × Nat)) :=
  match disk.node? inode with
  | some (.dir _ parent members) => some (parent, members)
  | _ => none

/-- The node is a directory. -/
def isDir (disk : Disk) (inode : Nat) : Bool :=
  (disk.dir? inode).isSome

/-- The permissions of the node grant it. -/
def grants (disk : Disk) (inode : Nat) (right : Right) : Bool :=
  match disk.node? inode with
  | some node => node.stamp.perm &&& right.bit != 0
  | none => false

/-- The content of a file, nothing for a directory. -/
def content (disk : Disk) (inode : Nat) : Bytes :=
  match disk.node? inode with
  | some (.file _ content) => content
  | _ => []

/-- The metadata of the node of this number. -/
def metadataOf (disk : Disk) (inode : Nat) : Except Failure Metadata :=
  match disk.node? inode with
  | some (.dir stamp _ _) => .ok ⟨inode, true, stamp, 0⟩
  | some (.file stamp content) => .ok ⟨inode, false, stamp, content.length⟩
  | none => .error .missing

/-- Changes the node of this number. -/
def modify (disk : Disk) (inode : Nat) (change : Node → Node) : Disk :=
  { disk with nodes := disk.nodes.modify inode change }

/-- Changes the members of a directory, which is thereby modified now. -/
def modifyMembers (disk : Disk) (inode : Nat)
    (change : List (String × Nat) → List (String × Nat)) : Disk :=
  disk.modify inode fun
    | .dir stamp parent members => .dir { stamp with mtime := disk.now } parent (change members)
    | .file stamp content => .file stamp content

/-- Replaces the content of a file, which is thereby modified now. -/
def setContent (disk : Disk) (inode : Nat) (content : Bytes) : Disk :=
  disk.modify inode fun
    | .dir stamp parent members => .dir stamp parent members
    | .file stamp _ => .file { stamp with mtime := disk.now } content

/-- Moves a directory under another parent. -/
def setParent (disk : Disk) (inode parent : Nat) : Disk :=
  disk.modify inode fun
    | .dir stamp _ members => .dir stamp parent members
    | .file stamp content => .file stamp content

/-- Adds a member in the place of its name. -/
def insertMember (name : String) (inode : Nat) : List (String × Nat) → List (String × Nat)
  | [] => [(name, inode)]
  | (n, i) :: rest =>
    if Text.before name n then (name, inode) :: (n, i) :: rest
    else (n, i) :: insertMember name inode rest

/-- Takes a member away. -/
def eraseMember (name : String) (members : List (String × Nat)) : List (String × Nat) :=
  members.filter (·.1 != name)

/-- Makes a node under the next number and a name in a directory. -/
def addNode (disk : Disk) (dir : Nat) (name : String) (node : Node) : Disk :=
  { disk with nodes := disk.nodes ++ [node] }.modifyMembers dir
    (insertMember name disk.nodes.length)

/-- A new file or directory without content. -/
def freshStamp (disk : Disk) (perm : UInt32) : Stamp :=
  ⟨newPerm perm, disk.now, disk.now⟩

end Disk

end VirtualFs.Host
