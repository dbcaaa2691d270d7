import VirtualFs.Host.Lookup

/-!
Calls of the host that make, change, remove and rename nodes. Every call that fails leaves the disk
as it was, apart from the removal of a whole tree. A name is made or taken away only in a directory
that grants writing, and what is wrong with the name itself is told first.
-/

namespace VirtualFs.Host

/-- How a file is opened. -/
structure OpenOptions where
  read : Bool
  write : Bool
  append : Bool
  create : Bool
  truncate : Bool
  /-- Permissions of a file that is made. -/
  perm : UInt32
  deriving Repr, DecidableEq

/-- A file is only made or emptied with the access to write it, and not emptied for appending. -/
def OpenOptions.allowed (options : OpenOptions) : Bool :=
  if options.append then !options.truncate
  else options.write || !(options.create || options.truncate)

/-- The opened file is written to, at its end or anywhere. -/
def OpenOptions.writes (options : OpenOptions) : Bool :=
  options.write || options.append

/-- The largest size of a file. -/
def sizeLimit : Nat := 0x7FFFFFFFFFFFFFFF

namespace Disk

/-- Makes an empty directory. -/
def makeDir (disk : Disk) (path : String) (perm : UInt32) : Except Failure Unit × Disk :=
  match disk.place path with
  | .error e => (.error e, disk)
  | .ok place =>
    match place.last with
    | .name name =>
      match disk.member? place.dir name with
      | .error e => (.error e, disk)
      | .ok (some _) => (.error .taken, disk)
      | .ok none =>
        if disk.grants place.dir .write then
          (.ok (), disk.addNode place.dir name (.dir (disk.freshStamp perm) place.dir []))
        else (.error .denied, disk)
    | _ => (.error .taken, disk)

/-- Makes a directory unless there is one. -/
def makeDirOrReuse (disk : Disk) (path : String) (perm : UInt32) : Except Failure Unit × Disk :=
  match disk.makeDir path perm with
  | (.ok (), disk) => (.ok (), disk)
  | (.error e, disk) => if disk.isDirAt path then (.ok (), disk) else (.error e, disk)

/-- Pieces of a path, the last one first, without those at the end that count for nothing. -/
def dropHollow (pieces : List String) : List String :=
  pieces.dropWhile fun s => s == "" || s == "."

/-- The path without its last component; empty when there is no other. -/
def parentPath (path : String) : String :=
  Path.joinAll (dropHollow ((dropHollow (Path.pieces path).reverse).drop 1)).reverse

/-- Makes a directory and those of its parents that are missing. `depth` bounds the parents. -/
def makeDirsWithin : Nat → Disk → String → UInt32 → Except Failure Unit × Disk
  | 0, disk, _, _ => (.error .missing, disk)
  | depth + 1, disk, path, perm =>
    if path = "" then (.ok (), disk)
    else
      match disk.makeDirOrReuse path perm with
      | (.error .missing, disk) =>
        match makeDirsWithin depth disk (parentPath path) perm with
        | (.error e, disk) => (.error e, disk)
        | (.ok (), disk) => disk.makeDirOrReuse path perm
      | (result, disk) => (result, disk)

/-- Makes a directory and those of its parents that are missing. -/
def makeDirs (disk : Disk) (path : String) (perm : UInt32) : Except Failure Unit × Disk :=
  makeDirsWithin (path.length + 1) disk path perm

/-- The node grants what it is opened for. -/
def mayOpen (disk : Disk) (inode : Nat) (options : OpenOptions) : Bool :=
  (!options.read || disk.grants inode .read) && (!options.writes || disk.grants inode .write)

/-- Opens a node that exists. Directories are only opened for reading. -/
def openExisting (disk : Disk) (inode : Nat) (options : OpenOptions) :
    Except Failure Nat × Disk :=
  if disk.isDir inode && (options.writes || options.create) then (.error .isDirectory, disk)
  else if !disk.mayOpen inode options then (.error .denied, disk)
  else if options.truncate then (.ok inode, disk.setContent inode [])
  else (.ok inode, disk)

/-- Opens the node that a name in a directory leads to, or makes a file there. The permissions of a
file that is made do not matter for opening it. -/
def openOrMake (disk : Disk) (place : Place) (options : OpenOptions) :
    Except Failure Nat × Disk :=
  match place.last with
  | .name name =>
    if place.slash then (.error .isDirectory, disk)
    else
      match disk.member? place.dir name with
      | .error e => (.error e, disk)
      | .ok (some inode) => disk.openExisting inode options
      | .ok none =>
        if disk.grants place.dir .write then
          (.ok disk.nodes.length,
            disk.addNode place.dir name (.file (disk.freshStamp options.perm) []))
        else (.error .denied, disk)
  | _ => (.error .isDirectory, disk)

/-- Opens the node at a path and answers its number. -/
def openFile (disk : Disk) (path : String) (options : OpenOptions) : Except Failure Nat × Disk :=
  if path.toList.contains '\x00' then (.error .nullCharacter, disk)
  else if !options.allowed then (.error .noWriteAccess, disk)
  else if options.create then
    match disk.place path with
    | .error e => (.error e, disk)
    | .ok place => disk.openOrMake place options
  else
    match disk.locate path with
    | .error e => (.error e, disk)
    | .ok inode => disk.openExisting inode options

/-- Up to `n` bytes of an open file. -/
def read (disk : Disk) (inode offset n : Nat) : Except Failure Bytes :=
  if disk.isDir inode then .error .isDirectory
  else .ok (((disk.content inode).drop offset).take n)

/-- Writes all of `data` into an open file. A gap before it is filled with zeros. -/
def write (disk : Disk) (inode offset : Nat) (data : Bytes) : Except Failure Unit × Disk :=
  if data = [] then (.ok (), disk)
  else if sizeLimit < offset + data.length then (.error .fileTooLarge, disk)
  else
    let content := disk.content inode
    let lead := content.take offset ++ List.replicate (offset - content.length) 0
    (.ok (), disk.setContent inode (lead ++ data ++ content.drop (offset + data.length)))

/-- The node is a directory with members. -/
def isOccupied (disk : Disk) (inode : Nat) : Bool :=
  match disk.dir? inode with
  | some (_, members) => !members.isEmpty
  | none => false

/-- The name of a node may be taken away, of an empty directory or of anything else as `directory`
says. A slash after the name of anything else is told first. -/
def checkUnlink (disk : Disk) (place : Place) (inode : Nat) (directory : Bool) :
    Except Failure Unit :=
  let isDir := disk.isDir inode
  if !directory && place.slash then .error (if isDir then .isDirectory else .notDirectory)
  else if disk.grants place.dir .write = false then .error .denied
  else if directory && !isDir then .error .notDirectory
  else if !directory && isDir then .error .isDirectory
  else if disk.isOccupied inode then .error .notEmpty
  else .ok ()

/-- Takes a name away, of a directory or of anything else as `directory` says. -/
def unlink (disk : Disk) (path : String) (directory : Bool) : Except Failure Unit × Disk :=
  match disk.place path with
  | .error e => (.error e, disk)
  | .ok place =>
    match place.last with
    | .root => (.error (if directory then .busy else .isDirectory), disk)
    | .dot => (.error (if directory then .invalidArgument else .isDirectory), disk)
    | .dotDot => (.error (if directory then .notEmpty else .isDirectory), disk)
    | .name name =>
      match disk.member? place.dir name with
      | .error e => (.error e, disk)
      | .ok none => (.error .missing, disk)
      | .ok (some inode) =>
        match disk.checkUnlink place inode directory with
        | .error e => (.error e, disk)
        | .ok () => (.ok (), disk.modifyMembers place.dir (eraseMember name))

/-- Removes an empty directory. -/
def removeDir (disk : Disk) (path : String) : Except Failure Unit × Disk :=
  disk.unlink path true

/-- Removes a file. -/
def removeFile (disk : Disk) (path : String) : Except Failure Unit × Disk :=
  disk.unlink path false

/-- Takes everything out of a directory and out of the directories below it, in the order of the
names, up to the first refusal. `depth` bounds the levels. -/
def clear : Nat → Nat → Disk → Except Failure Unit × Disk
  | 0, _, disk => (.ok (), disk)
  | depth + 1, inode, disk =>
    match disk.dir? inode with
    | none => (.ok (), disk)
    | some (_, members) =>
      if disk.grants inode .read = false then (.error .denied, disk)
      else
        members.foldl (fun
          | (.error e, disk), _ => (.error e, disk)
          | (.ok (), disk), (name, child) =>
            if disk.grants inode .enter && disk.grants inode .write then
              match clear depth child disk with
              | (.error e, disk) => (.error e, disk)
              | (.ok (), disk) => (.ok (), disk.modifyMembers inode (eraseMember name))
            else (.error .denied, disk)) (.ok (), disk)

/-- Removes everything in a directory and then the directory. What was taken out of it is gone also
when the rest cannot be removed. A path such as `"a/.."` that leads through what was in it leads
nowhere by then, which is no failure. -/
def removeTree (disk : Disk) (path : String) : Except Failure Unit × Disk :=
  match disk.locate path with
  | .error e => (.error e, disk)
  | .ok inode =>
    match clear disk.nodes.length inode disk with
    | (.error e, disk) => (.error e, disk)
    | (.ok (), disk) =>
      match disk.removeDir path with
      | (.error .missing, disk) => (.ok (), disk)
      | (result, disk) => (result, disk)

/-- `upper` is `inode` or one of the directories above it. `depth` bounds them. -/
def isWithin (disk : Disk) (upper : Nat) : Nat → Nat → Bool
  | 0, inode => inode == upper
  | depth + 1, inode =>
    inode == upper ||
      match disk.dir? inode with
      | none => false
      | some (parent, _) => parent != inode && disk.isWithin upper depth parent

/-- A node may take the place of another: a directory only that of a directory, anything else only
that of no directory. -/
def checkKinds (disk : Disk) (source target : Nat) : Except Failure Unit :=
  match disk.isDir source, disk.isDir target with
  | true, false => .error .notDirectory
  | false, true => .error .isDirectory
  | _, _ => .ok ()

/-- A node may move to another name, where `existing` is now. A directory that gets another parent
is itself written to. -/
def checkMove (disk : Disk) (old new : Place) (source : Nat) (existing : Option Nat) :
    Except Failure Unit := do
  if existing.any fun replaced => disk.isWithin replaced disk.nodes.length old.dir then
    throw .notEmpty
  unless disk.grants old.dir .write && disk.grants new.dir .write do throw .denied
  if let some replaced := existing then disk.checkKinds source replaced
  if disk.isDir source && old.dir != new.dir && !disk.grants source .write then throw .denied
  if existing.any disk.isOccupied then throw .notEmpty

/-- Moves a member of one directory to a name in another. -/
def moveMember (disk : Disk) (source : Nat) (fromDir : Nat) (fromName : String) (toDir : Nat)
    (toName : String) : Disk :=
  let taken := disk.modifyMembers fromDir (eraseMember fromName)
  let cleared := taken.modifyMembers toDir (eraseMember toName)
  (cleared.modifyMembers toDir (insertMember toName source)).setParent source toDir

/-- Gives the node under one name another name. A node that has that name is replaced. -/
def renameMember (disk : Disk) (old new : Place) (oldName newName : String) (source : Nat)
    (existing : Option Nat) : Except Failure Unit × Disk :=
  if existing = some source then (.ok (), disk)
  else
    match disk.checkMove old new source existing with
    | .error e => (.error e, disk)
    | .ok () => (.ok (), disk.moveMember source old.dir oldName new.dir newName)

/-- Renames what is at one place to another. Only a directory may be named with a slash after it,
and none goes below itself. -/
def renamePlace (disk : Disk) (old new : Place) : Except Failure Unit × Disk :=
  match old.last, new.last with
  | .name oldName, .name newName =>
    match disk.member? old.dir oldName with
    | .error e => (.error e, disk)
    | .ok none => (.error .missing, disk)
    | .ok (some source) =>
      match disk.member? new.dir newName with
      | .error e => (.error e, disk)
      | .ok existing =>
        if disk.isDir source = false ∧ (old.slash ∨ new.slash) then (.error .notDirectory, disk)
        else if disk.isWithin source disk.nodes.length new.dir then (.error .invalidArgument, disk)
        else disk.renameMember old new oldName newName source existing
  | _, _ => (.error .busy, disk)

/-- Renames the node at a path. -/
def rename (disk : Disk) (path target : String) : Except Failure Unit × Disk :=
  if target.toList.contains '\x00' then (.error .nullCharacter, disk)
  else
    match disk.place path with
    | .error e => (.error e, disk)
    | .ok old =>
      match disk.place target with
      | .error e => (.error e, disk)
      | .ok new => disk.renamePlace old new

end Disk

end VirtualFs.Host
