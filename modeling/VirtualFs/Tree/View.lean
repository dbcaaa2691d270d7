import VirtualFs.Record
import VirtualFs.Tree.Create
import VirtualFs.Tree.Handle

namespace VirtualFs.Tree

/-- A tree as seen from one of its directories. All views of a tree share its nodes. -/
structure View where
  root : Nat
  /-- The view of the whole tree, which can close it. -/
  isRoot : Bool
  deriving Repr, DecidableEq

namespace View

/-- The view of the whole tree. -/
def whole : View :=
  ⟨Store.rootInode, true⟩

/-- The path of the root of the view in the whole tree. -/
def base (view : View) (store : Store) : String :=
  store.pathOf view.root

/-- Opens the node at a path. What is missing is made if the flags say so. -/
def openNode (view : View) (store : Store) (clock : Clock) (path : String) (flags : OpenFlags)
    (mode : FileMode) : Except FsError Handle × Store :=
  match store.rules.clean path with
  | .error e => (.error e, store)
  | .ok cleaned =>
    match store.resolve view.root cleaned with
    | .ok inode =>
      let (handle, store) := Handle.onNode store inode flags cleaned (view.base store)
      (.ok handle, store)
    | .error e =>
      if e.kind = .notFound ∧ flags.has .create then
        match store.createAt clock view.root cleaned mode with
        | (.error e, store) => (.error e, store)
        | (.ok inode, store) =>
          let (handle, store) := Handle.onNode store inode flags cleaned (view.base store)
          (.ok handle, store)
      else (.error e, store)

/-- Opens a file or a directory for reading. -/
def openRead (view : View) (store : Store) (clock : Clock) (path : String) :
    Except FsError Handle × Store :=
  let (result, store) := view.openNode store clock path .rdonly ⟨0⟩
  (FsError.tag .open path result, store)

/-- Opens with these flags; `mode` is that of nodes that are made. -/
def openFile (view : View) (store : Store) (clock : Clock) (path : String) (flags : OpenFlags)
    (mode : FileMode) : Except FsError Handle × Store :=
  let (result, store) := view.openNode store clock path flags mode
  (FsError.tag .openFile path result, store)

/-- The flags of an open for writing a file anew. -/
def anew : OpenFlags :=
  .union .rdwr (.union .create .trunc)

theorem has_create_anew : anew.has .create = true := by decide

theorem has_trunc_anew : anew.has .trunc = true := by decide

theorem has_append_anew : anew.has .append = false := by decide

theorem writable_anew : anew.writable = true := by decide

/-- Makes or empties a file and opens it for reading and writing. -/
def create (view : View) (store : Store) (clock : Clock) (path : String) :
    Except FsError Handle × Store :=
  let (result, store) :=
    view.openNode store clock path anew (FileMode.file store.config.fileMode)
  (FsError.tag .create path result, store)

/-- Makes one directory. -/
def mkdir (view : View) (store : Store) (clock : Clock) (path : String) (mode : FileMode) :
    Except FsError Unit × Store :=
  let (result, store) := store.mkdir clock view.root path mode
  (FsError.tag .mkdir path (result.map fun _ => ()), store)

/-- Makes a directory with all its parents. -/
def mkdirAll (view : View) (store : Store) (clock : Clock) (path : String) (mode : FileMode) :
    Except FsError Unit × Store :=
  let (result, store) := store.mkdirAll clock view.root path mode
  (FsError.tag .mkdirAll path (result.map fun _ => ()), store)

/-- Starts a paged reading of a directory. -/
def dirIter (view : View) (store : Store) (path : String) : Except FsError Pager :=
  match store.resolveDir view.root path with
  | .ok dir => .ok (.start store dir (view.base store))
  | .error e => .error e

/-- The entries of a directory. -/
def readDir (view : View) (store : Store) (path : String) : Except FsError (List Entry) :=
  FsError.tag .readDir path
    (match view.dirIter store path with
    | .error e => .error e
    | .ok pager => (pager.nextPage store (-1)).1.map (·.entries))

/-- The view of a directory. -/
def sub (view : View) (store : Store) (dir : String) : Except FsError View :=
  FsError.tag .sub dir ((store.resolveDir view.root dir).map fun inode => ⟨inode, false⟩)

/-- The entry at a path. -/
def stat (view : View) (store : Store) (path : String) : Except FsError Entry :=
  FsError.tag .stat path
    (match store.resolve view.root path with
    | .error e => .error e
    | .ok inode =>
      match store.node? inode with
      | some node => .ok (node.entry.rebased (view.base store))
      | none => .error (.notFound path))

/-- There is an entry at a path. -/
def exists? (view : View) (store : Store) (path : String) : Bool :=
  (view.stat store path).isOk

/-- The content of a file. -/
def content (view : View) (store : Store) (clock : Clock) (path : String) :
    Except FsError Bytes × Store :=
  match view.openNode store clock path .rdonly ⟨0⟩ with
  | (.error e, store) => (.error (.tagged .readFile path e), store)
  | (.ok handle, store) =>
    let (result, data, _) := handle.readToEnd store []
    (FsError.tag .readFile path (result.map fun _ => data), store)

/-- Replaces the content of a file, which is made with its parents if it is missing. -/
def writeFile (view : View) (store : Store) (clock : Clock) (path : String) (data : Bytes)
    (mode : FileMode) : Except FsError Unit × Store :=
  match view.openNode store clock path anew mode with
  | (.error e, store) => (.error (.tagged .writeFile path e), store)
  | (.ok handle, store) =>
    let (result, _, store) := handle.write store (clock store.stage) data
    (FsError.tag .writeFile path (result.map fun _ => ()), store)

/-- Nothing is ever removed. -/
def remove (path : String) : Except FsError Unit :=
  .error (.tagged .remove path .notImplemented)

/-- Nothing is ever removed. -/
def removeAll (path : String) : Except FsError Unit :=
  .error (.tagged .removeAll path .notImplemented)

/-- Nothing is ever renamed. -/
def rename (path : String) : Except FsError Unit :=
  .error (.tagged .rename path .notImplemented)

/-- The separator of paths. -/
def separator : String := "/"

/-- The name of this kind of filesystem. -/
def provider : String := "memfs"

/-- The absolute path of the root of the view. -/
def rootPath (view : View) (store : Store) : String :=
  Path.join "/" (view.base store)

/-- Closes the tree. Only the view of the whole tree does so, and only once; the nodes stay
usable. -/
def close (view : View) (store : Store) : Except FsError Unit × Store :=
  if !view.isRoot then (.ok (), store)
  else if store.closed then (.error (.tagged .close "/" .closed), store)
  else (.ok (), { store with closed := true })

/-- The audit record of the entry at a path. -/
def record (view : View) (store : Store) (path : String) : Except FsError FileRecord :=
  (view.stat store path).map (FileRecord.ofEntry (view.rootPath store) separator)

end View

end VirtualFs.Tree
