import VirtualFs.Tree.Resolve

namespace VirtualFs.Tree.Store

/-- Sets the modification time of a directory, if the clock has not gone back behind it. -/
def touch (store : Store) (inode : Nat) (now : Time) : Except FsError Unit × Store :=
  match store.dir? inode with
  | none => (.ok (), store)
  | some d =>
    match d.entry.setModTime now with
    | .ok entry => (.ok (), store.modifyDir inode fun d => { d with entry := entry })
    | .error e => (.error e, store)

/-- Makes the directory `name` in `parent`. It takes the next number before its path is checked, so a
refused path uses a number up, and it is there even if the modification time of the parent cannot
follow. -/
def mkdirIn (store : Store) (clock : Clock) (parent : Nat) (name : String) (mode : FileMode) :
    Except FsError Nat × Store :=
  if name = "." then (.error (.invalidPath name), store)
  else
    let path := Path.join (store.pathOf parent) name
    if (store.child? parent name).isSome then (.error (.alreadyExists path), store)
    else
      let inode := store.nextInode
      let attrs := Attributes.createdAt (clock store.stage) mode.asDir inode
      match Entry.create path attrs store.rules with
      | .error e => (.error e, store.reserve)
      | .ok entry =>
        let grown := store.addNode parent name (.dir (.empty inode entry))
        match grown.touch parent (clock (store.stage + 1)) with
        | (.ok (), touched) => (.ok inode, touched)
        | (.error e, touched) => (.error e, touched)

/-- Makes the directory at a path. Its parent must exist, and the path must end in a name. -/
def mkdir (store : Store) (clock : Clock) (root : Nat) (path : String) (mode : FileMode) :
    Except FsError Nat × Store :=
  if store.rules.endsWithDot path then (.error (.invalidPath path), store)
  else
    match store.rules.split path with
    | .error e => (.error e, store)
    | .ok segments =>
      match segments.getLast? with
      | none => (.error (.invalidPath path), store)
      | some name =>
        let parents := segments.dropLast
        let parent :=
          if parents = [] then .ok root else store.resolveDir root (Path.joinAll parents)
        match parent with
        | .error e => (.error e, store)
        | .ok parent => store.mkdirIn clock parent name mode

/-- Makes every directory that is missing along the segments. -/
def mkdirAlong (store : Store) (clock : Clock) (current : Nat) (mode : FileMode) :
    List String → Except FsError Nat × Store
  | [] => (.ok current, store)
  | segment :: rest =>
    if segment = "." then store.mkdirAlong clock current mode rest
    else
      match store.child? current segment with
      | some child =>
        match store.dir? child.inode with
        | some _ => store.mkdirAlong clock child.inode mode rest
        | none => (.error (.notADirectory (Path.join (store.pathOf current) segment)), store)
      | none =>
        match store.mkdirIn clock current segment mode with
        | (.ok inode, store) => store.mkdirAlong clock inode mode rest
        | (.error e, store) => (.error e, store)

/-- Makes the directory at a path with all its parents; those that exist are left alone. -/
def mkdirAll (store : Store) (clock : Clock) (root : Nat) (path : String) (mode : FileMode) :
    Except FsError Nat × Store :=
  match store.rules.split path with
  | .error e => (.error e, store)
  | .ok segments => store.mkdirAlong clock root mode segments

/-- The node `name` in `parent`, made as an empty file if there is none. -/
def findOrCreate (store : Store) (clock : Clock) (parent : Nat) (name : String) (mode : FileMode) :
    Except FsError Nat × Store :=
  match store.child? parent name with
  | some child => (.ok child.inode, store)
  | none =>
    let inode := store.nextInode
    let attrs := Attributes.createdAt (clock store.stage) mode.asFile inode
    match Entry.create (Path.join (store.pathOf parent) name) attrs store.rules with
    | .error e => (.error e, store.reserve)
    | .ok entry =>
      (.ok inode, store.addNode parent name (.file (.empty entry store.config.initialCapacity)))

/-- The node at a path that was not found, made with all its parents: a directory if the mode is
that of one, and otherwise a file. -/
def createAt (store : Store) (clock : Clock) (root : Nat) (path : String) (mode : FileMode) :
    Except FsError Nat × Store :=
  if mode.isDir then store.mkdirAll clock root path mode
  else
    match store.rules.split path with
    | .error e => (.error e, store)
    | .ok segments =>
      match segments.getLast? with
      | none => (.error (.invalidPath path), store)
      | some name =>
        let parents := segments.dropLast
        let made :=
          if parents = [] then (.ok root, store)
          else store.mkdirAll clock root (Path.joinAll parents) mode
        match made with
        | (.error e, store) => (.error e, store)
        | (.ok parent, store) => store.findOrCreate clock parent name mode

end VirtualFs.Tree.Store
