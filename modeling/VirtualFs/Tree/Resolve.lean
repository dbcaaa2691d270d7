import VirtualFs.Tree.Store

namespace VirtualFs.Tree.Store

/-- The node that the segments lead to from the directory `current`. What is missing, or is a file
with segments still to come, is reported by its path in the whole tree. -/
def descend (store : Store) (current : Nat) : List String → Except FsError Nat
  | [] => .ok current
  | segment :: rest =>
    match store.child? current segment with
    | none => .error (.notFound (Path.join (store.pathOf current) segment))
    | some child =>
      if rest = [] then .ok child.inode
      else
        match store.dir? child.inode with
        | some _ => store.descend child.inode rest
        | none => .error (.notADirectory (Path.join (store.pathOf current) segment))

/-- The segments that move, those that are not `"."`. -/
def moving (segments : List String) : List String :=
  segments.filter (· != ".")

/-- The node at a path below the directory `root`. -/
def resolve (store : Store) (root : Nat) (path : String) : Except FsError Nat :=
  match store.rules.split path with
  | .ok segments => store.descend root (moving segments)
  | .error e => .error e

/-- The node at a path, which must be a directory. -/
def resolveDir (store : Store) (root : Nat) (path : String) : Except FsError Nat :=
  match store.resolve root path with
  | .ok inode =>
    match store.dir? inode with
    | some _ => .ok inode
    | none => .error (.notADirectory (store.pathOf inode))
  | .error e => .error e

end VirtualFs.Tree.Store
