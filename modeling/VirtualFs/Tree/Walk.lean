import VirtualFs.Glob.Library
import VirtualFs.Tree.View

namespace VirtualFs.Tree

/-- A node as a walk meets it: its path in the view and its entry. -/
abbrev Visit := String × Entry

namespace View

/-- The visits below a directory whose path in the view is `path`. `depth` bounds the levels. -/
def visitsBelow (store : Store) (base : String) : Nat → String → Nat → List Visit
  | 0, _, _ => []
  | depth + 1, path, dir =>
    (store.childNames dir).flatMap fun name =>
      match store.child? dir name with
      | none => []
      | some child =>
        match store.node? child.inode with
        | none => []
        | some node =>
          let here := Path.join path name
          (here, node.entry.rebased base) ::
            (if node.isDir then visitsBelow store base depth here child.inode else [])

/-- All visits of a walk, in their order. A tree has no more levels than nodes. -/
def visits (view : View) (store : Store) : List Visit :=
  match store.node? view.root with
  | none => []
  | some node =>
    (".", node.entry.rebased (view.base store)) ::
      visitsBelow store (view.base store) store.nodes.length "." view.root

section

variable {m : Type → Type} [Monad m]

/-- Shows the nodes below a directory whose path in the view is `path` to `visit`, one by one.
`depth` bounds the levels. -/
def walkBelow (store : Store) (base : String) (visit : Visit → m Unit) : Nat → String → Nat → m Unit
  | 0, _, _ => pure ()
  | depth + 1, path, dir =>
    forM (store.childNames dir) fun name =>
      match store.child? dir name with
      | none => pure ()
      | some child =>
        match store.node? child.inode with
        | none => pure ()
        | some node => do
          let here := Path.join path name
          visit (here, node.entry.rebased base)
          if node.isDir then walkBelow store base visit depth here child.inode

/-- Walks the view: shows its root and the nodes below to `visit`, which may keep a state and may
fail, and then nothing more is shown. -/
def walk (view : View) (store : Store) (visit : Visit → m Unit) : m Unit :=
  match store.node? view.root with
  | none => pure ()
  | some node => do
    visit (".", node.entry.rebased (view.base store))
    walkBelow store (view.base store) visit store.nodes.length "." view.root

end

/-- Adds what there is to say of a visit to what was found so far. -/
def keep (describe : Visit → Option String) (visit : Visit) : StateM (List String) Unit :=
  modify fun found => found ++ (describe visit).toList

/-- What a walk finds: the texts that `describe` gives of the visits, in their order. -/
def collect (view : View) (store : Store) (describe : Visit → Option String) : List String :=
  ((view.walk store (keep describe)).run []).2

/-- The paths that match a pattern of this library, in the order of the walk. Wildcards stay within
one component. -/
def glob (view : View) (store : Store) (patterns : Glob.Library) (pattern : String) :
    Except FsError (List String) :=
  match patterns.compile pattern with
  | .error text => .error (.tagged .glob pattern (.invalidInput text))
  | .ok test =>
    .ok (view.collect store fun (path, _) => if test true path then some path else none)

/-- A line for a node: its path, its size and its mode. -/
def line (visit : Visit) : String :=
  visit.1 ++ ": " ++ toString visit.2.size ++ ", " ++ visit.2.mode.text

/-- One line for each node, in the order of the walk. -/
def listing (view : View) (store : Store) : List String :=
  view.collect store fun visit => some (line visit)

end View

end VirtualFs.Tree
