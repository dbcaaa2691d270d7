import VirtualFs.Tree.Cell

/-!
The nodes of one tree. Directories and files are numbered from one in the order of their creation,
and a number is never given out twice.
-/

namespace VirtualFs.Tree

/-- What a name in a directory leads to. -/
inductive Child where
  /-- A directory or a file. -/
  | node (inode : Nat)
  /-- The directory itself, under the name `"."`. -/
  | dot (inode : Nat)
  deriving Repr, DecidableEq

/-- The number that a child leads to. -/
def Child.inode : Child → Nat
  | .node i => i
  | .dot i => i

/-- The children of a directory, in the order of the bytes of their names. -/
abbrev Children := List (String × Child)

/-- Adds a child in its place. -/
def Children.insert (name : String) (child : Child) : Children → Children
  | [] => [(name, child)]
  | (n, c) :: rest =>
    if Text.before name n then (name, child) :: (n, c) :: rest
    else (n, c) :: Children.insert name child rest

/-- A directory: its metadata and its children, itself among them. -/
structure Directory where
  entry : Entry
  children : Children
  deriving Repr, DecidableEq

namespace Directory

/-- A directory of this number without other children than itself. -/
def empty (inode : Nat) (entry : Entry) : Directory :=
  ⟨entry, [(".", .dot inode)]⟩

def child? (dir : Directory) (name : String) : Option Child :=
  dir.children.lookup name

/-- The names of the children, the directory itself left out. -/
def childNames (dir : Directory) : List String :=
  (dir.children.map (·.1)).filter (· != ".")

end Directory

/-- A node of the tree. -/
inductive Node where
  | dir (d : Directory)
  | file (c : Cell)
  deriving Repr, DecidableEq

namespace Node

def entry : Node → Entry
  | dir d => d.entry
  | file c => c.entry

def isDir : Node → Bool
  | dir _ => true
  | file _ => false

end Node

/-- The state that all views and handles of one tree share. -/
structure Store where
  config : Config
  rules : PathRules
  /-- The node of number `i` stands at place `i - 1`. The place of a number that was given out for
  a node whose path was then refused stays empty. -/
  nodes : List (Option Node)
  closed : Bool

namespace Store

/-- The number of the root directory. -/
def rootInode : Nat := 1

/-- The number that the next new node gets. -/
def nextInode (store : Store) : Nat :=
  store.nodes.length + 1

/-- The stage of the clock at which the tree now is. Making a node takes two stages. -/
def stage (store : Store) : Nat :=
  2 * store.nextInode

/-- The node of this number. -/
def node? (store : Store) : Nat → Option Node
  | 0 => none
  | i + 1 => (store.nodes[i]?).join

def dir? (store : Store) (inode : Nat) : Option Directory :=
  match store.node? inode with
  | some (.dir d) => some d
  | _ => none

def cell? (store : Store) (inode : Nat) : Option Cell :=
  match store.node? inode with
  | some (.file c) => some c
  | _ => none

/-- The path of a node in the whole tree. -/
def pathOf (store : Store) (inode : Nat) : String :=
  match store.node? inode with
  | some node => node.entry.path
  | none => ""

/-- What a name leads to in the directory of this number. -/
def child? (store : Store) (dir : Nat) (name : String) : Option Child :=
  (store.dir? dir).bind (·.child? name)

/-- The names in the directory of this number, itself left out. -/
def childNames (store : Store) (dir : Nat) : List String :=
  match store.dir? dir with
  | some d => d.childNames
  | none => []

/-- Changes the node of this number. -/
def modify (store : Store) (change : Node → Node) : Nat → Store
  | 0 => store
  | i + 1 => { store with nodes := store.nodes.modify i (·.map change) }

/-- Changes the directory of this number. -/
def modifyDir (store : Store) (inode : Nat) (change : Directory → Directory) : Store :=
  store.modify (fun
    | .dir d => .dir (change d)
    | .file c => .file c) inode

/-- Changes the cell of this number. -/
def modifyCell (store : Store) (inode : Nat) (change : Cell → Cell) : Store :=
  store.modify (fun
    | .dir d => .dir d
    | .file c => .file (change c)) inode

/-- Gives out the next number without a node for it. -/
def reserve (store : Store) : Store :=
  { store with nodes := store.nodes ++ [none] }

/-- Puts a new node under the next number and a name in a directory. -/
def addNode (store : Store) (parent : Nat) (name : String) (node : Node) : Store :=
  let inode := store.nextInode
  let grown := { store with nodes := store.nodes ++ [some node] }
  grown.modifyDir parent fun d => { d with children := d.children.insert name (.node inode) }

/-- A tree that holds only its root, made at `now`. -/
def create (config : Config) (rules : PathRules) (now : Time) : Store where
  config := config
  rules := rules
  nodes :=
    [some (.dir (.empty rootInode
      (.root (.createdAt now (FileMode.dir config.dirMode) rootInode))))]
  closed := false

end Store

end VirtualFs.Tree
