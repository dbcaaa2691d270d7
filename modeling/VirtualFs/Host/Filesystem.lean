import VirtualFs.Host.Handle
import VirtualFs.Host.Prefix
import VirtualFs.Record

namespace VirtualFs.Host

/-- The host's tree as a filesystem. With a base every path has to be a valid relative path and is
looked for below the base; without one paths go to the host as they are. -/
structure Filesystem where
  base : Option String
  deriving Repr, DecidableEq

namespace Filesystem

/-- The whole host. -/
def whole : Filesystem :=
  ⟨none⟩

/-- The host below a directory, which is named by its absolute path if it exists. -/
def rooted (base : String) : Program Filesystem :=
  .call (.canonical base) fun
    | .ok full => .done ⟨some full⟩
    | .error _ => .done ⟨some base⟩

/-- The host path of a path. -/
def resolve (fs : Filesystem) (path : String) : Except FsError String :=
  match fs.base with
  | none => .ok path
  | some base =>
    let trimmed := Text.trim path
    if trimmed = "" ∨ trimmed = "." then .ok base
    else if Path.valid trimmed then .ok (below base trimmed)
    else .error (.invalidPath trimmed)

/-- A call on the host path of a path. -/
def onPath {β : Type} (fs : Filesystem) (path : String)
    (request : String → Request (Except Failure β)) : Attempt β := do
  let full ← .lift (fs.resolve path)
  .ask (request full)

/-- There is a directory at a host path. -/
def isDirAt (full : String) : Attempt Bool :=
  ExceptT.mk (.call (.metadata full) fun
    | .ok m => .done (.ok m.isDir)
    | .error _ => .done (.ok false))

/-- What to ask of the host for these flags. -/
def optionsFor (flags : OpenFlags) (mode : FileMode) : OpenOptions where
  read := flags.readable
  write := flags.writable
  append := flags.has .append
  create := flags.has .create
  truncate := flags.has .trunc
  perm := mode.perm

/-- Opens a directory, makes one where the flags and a directory mode say so, or opens a file. -/
def openHandle (fs : Filesystem) (path : String) (flags : OpenFlags) (mode : FileMode) :
    Attempt Handle := do
  let full ← .lift (fs.resolve path)
  if ← isDirAt full then
    return .onDir path full
  if flags.has .create && mode.isDir then
    Attempt.ask (.makeDirs full mode.perm)
    return .onDir path full
  let file ← .ask (.openFile full (optionsFor flags mode))
  return .onFile path full flags file

/-- Opens a file or a directory for reading. -/
def openRead (fs : Filesystem) (path : String) : Attempt Handle :=
  .tag .open path (fs.openHandle path .rdonly ⟨0⟩)

/-- Opens with these flags; `mode` is that of what is made. -/
def openFile (fs : Filesystem) (path : String) (flags : OpenFlags) (mode : FileMode) :
    Attempt Handle :=
  .tag .openFile path (fs.openHandle path flags mode)

/-- Makes or empties a file and opens it for reading and writing. -/
def create (fs : Filesystem) (path : String) : Attempt Handle :=
  .tag .create path
    (fs.openHandle path (.union .rdwr (.union .create .trunc)) (FileMode.file 0o666))

/-- Makes one directory. -/
def mkdir (fs : Filesystem) (path : String) (mode : FileMode) : Attempt Unit :=
  .tag .mkdir path (fs.onPath path (.makeDir · mode.perm))

/-- Makes a directory with all its parents. -/
def mkdirAll (fs : Filesystem) (path : String) (mode : FileMode) : Attempt Unit :=
  .tag .mkdirAll path (fs.onPath path (.makeDirs · mode.perm))

/-- The entry at a path. -/
def stat (fs : Filesystem) (path : String) : Attempt Entry :=
  .tag .stat path do
    let m ← fs.onPath path .metadata
    .lift (entryOf path m)

/-- There is an entry at a path. -/
def exists? (fs : Filesystem) (path : String) : Program Bool := do
  let result ← (fs.stat path).run
  return result.isOk

/-- The entries of a directory, in the order of the bytes of their names. -/
def readDir (fs : Filesystem) (path : String) : Attempt (List Entry) := do
  let handle ← .tag .readDir path (fs.openHandle path .rdonly ⟨0⟩)
  let (page, _) ← ExceptT.mk (do
    let (result, handle) ← handle.readDir (-1)
    return result.map fun page => (page, handle))
  return page.entries.mergeSort fun a b => !Text.before b.name a.name

/-- How a file that is read as a whole is opened. -/
def reading : OpenOptions :=
  ⟨true, false, false, false, false, 0⟩

/-- How a file that is written anew is opened. -/
def replacing (perm : UInt32) : OpenOptions :=
  ⟨false, true, false, true, true, perm⟩

/-- The content of a file. -/
def content (fs : Filesystem) (path : String) : Attempt Bytes :=
  .tag .readFile path do
    let file ← fs.onPath path (.openFile · reading)
    let size ← ExceptT.lift (Program.ask (.size file))
    .ask (.read file 0 size)

/-- Replaces the content of a file, which is made if it is missing; its directory has to be
there. -/
def writeFile (fs : Filesystem) (path : String) (data : Bytes) (mode : FileMode) : Attempt Unit :=
  .tag .writeFile path do
    let file ← fs.onPath path (.openFile · (replacing mode.perm))
    .ask (.write file 0 data)

/-- The pattern that is searched for. -/
def fullPattern (fs : Filesystem) (patterns : Glob.Library) (pattern : String) : String :=
  match fs.base with
  | none => pattern
  | some base => patterns.escape base ++ "/" ++ pattern

/-- A found host path as seen from the base. -/
def relative (fs : Filesystem) (found : String) : String :=
  match fs.base with
  | none => found
  | some base => (stripPrefix? base found).getD found

/-- The paths that match a pattern. -/
def glob (fs : Filesystem) (patterns : Glob.Library) (pattern : String) : Attempt (List String) :=
  .tag .glob pattern
    (ExceptT.mk (.call (.search (fs.fullPattern patterns pattern)) fun
      | .ok found => .done (.ok (found.map fs.relative))
      | .error (.pattern text) => .done (.error (.invalidInput text))
      | .error (.refused failure) => .done (.error (.io failure.toIo))))

/-- The filesystem below a directory. -/
def sub (fs : Filesystem) (dir : String) : Attempt Filesystem :=
  .tag .sub dir do
    let full ← .lift (fs.resolve dir)
    let m ← .ask (.metadata full)
    if m.isDir then ExceptT.lift (rooted full)
    else .lift (.error (.notADirectory dir))

/-- Removes a file or an empty directory. -/
def remove (fs : Filesystem) (path : String) : Attempt Unit :=
  .tag .remove path do
    let full ← .lift (fs.resolve path)
    let m ← .ask (.metadata full)
    .ask (if m.isDir then .removeDir full else .removeFile full)

/-- Removes whatever is at a path, which may be nothing. -/
def removeAll (fs : Filesystem) (path : String) : Attempt Unit :=
  .tag .removeAll path do
    let full ← .lift (fs.resolve path)
    ExceptT.mk (.call (.metadata full) fun
      | .error .missing => .done (.ok ())
      | .error e => .done (.error (.io e.toIo))
      | .ok m => (Attempt.ask (if m.isDir then .removeTree full else .removeFile full)).run)

/-- Renames what is at a path. -/
def rename (fs : Filesystem) (path target : String) : Attempt Unit :=
  .tag .rename path do
    let full ← .lift (fs.resolve path)
    let fullTarget ← .lift (fs.resolve target)
    .ask (.rename full fullTarget)

/-- The separator of paths. -/
def separator : String := "/"

/-- The name of this kind of filesystem. -/
def provider : String := "linux"

/-- The host path of the root. -/
def rootPath (fs : Filesystem) : String :=
  fs.base.getD "/"

/-- The audit record of the entry at a path. -/
def record (fs : Filesystem) (path : String) : Attempt FileRecord :=
  return FileRecord.ofEntry fs.rootPath separator (← fs.stat path)

end Filesystem

end VirtualFs.Host
