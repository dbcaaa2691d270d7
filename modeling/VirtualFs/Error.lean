namespace VirtualFs

/-- The filesystem operations that tag errors. -/
inductive Operation where
  | open | openFile | create | mkdir | mkdirAll | stat | readDir | readFile | writeFile | sub | glob
  | remove | removeAll | rename | close | read | readAt | write | readFrom | seek
  deriving Repr, DecidableEq

/-- The name written in error texts. -/
def Operation.name : Operation → String
  | .open => "open"
  | .openFile => "openFile"
  | .create => "create"
  | .mkdir => "mkdir"
  | .mkdirAll => "mkdirAll"
  | .stat => "stat"
  | .readDir => "readDir"
  | .readFile => "readFile"
  | .writeFile => "writeFile"
  | .sub => "sub"
  | .glob => "glob"
  | .remove => "remove"
  | .removeAll => "removeAll"
  | .rename => "rename"
  | .close => "close"
  | .read => "read"
  | .readAt => "readAt"
  | .write => "write"
  | .readFrom => "readFrom"
  | .seek => "seek"

/-- Every operation once. -/
def Operation.all : List Operation :=
  [.open, .openFile, .create, .mkdir, .mkdirAll, .stat, .readDir, .readFile, .writeFile, .sub, .glob,
    .remove, .removeAll, .rename, .close, .read, .readAt, .write, .readFrom, .seek]

/-- The operation of this name. -/
def Operation.ofName? (s : String) : Option Operation :=
  all.find? (·.name == s)

theorem Operation.ofName?_name (operation : Operation) :
    ofName? operation.name = some operation := by
  cases operation <;> rfl

/-- The classes of errors that byte sources and the host report. Programs cannot name
`filesystemLoop`, `inProgress` and `uncategorized`, but errors can be of these classes. -/
inductive IoKind where
  | notFound | permissionDenied | connectionRefused | connectionReset | hostUnreachable
  | networkUnreachable | connectionAborted | notConnected | addrInUse | addrNotAvailable
  | networkDown | brokenPipe | alreadyExists | wouldBlock | notADirectory | isADirectory
  | directoryNotEmpty | readOnlyFilesystem | filesystemLoop | staleNetworkFileHandle | invalidInput
  | invalidData | timedOut | writeZero | storageFull | notSeekable | quotaExceeded | fileTooLarge
  | resourceBusy | executableFileBusy | deadlock | crossesDevices | tooManyLinks | invalidFilename
  | argumentListTooLong | interrupted | unsupported | unexpectedEof | outOfMemory | inProgress
  | other | uncategorized
  deriving Repr, DecidableEq

/-- An error of a byte source or of the host: its class and its text. -/
structure IoError where
  kind : IoKind
  text : String
  deriving Repr, DecidableEq

/-- The class of an error, the tags looked through. -/
inductive ErrorKind where
  | notFound | alreadyExists | notADirectory | notAFile | isADirectory | invalidEntryType
  | invalidPath | closed | readOnly | writeOnly | tooLarge | timeOrdering | notImplemented
  | endOfDirectory | invalidInput | io | other
  deriving Repr, DecidableEq

/-- A failed operation: one cause under any number of tags. -/
inductive FsError where
  /-- Nothing exists at the path. -/
  | notFound (path : String)
  /-- The name is taken. -/
  | alreadyExists (path : String)
  /-- A directory was needed. -/
  | notADirectory (path : String)
  /-- A regular file was needed. -/
  | notAFile (path : String)
  /-- A directory was given to an operation on files. -/
  | isADirectory (path : String)
  /-- The node has a type that the operation cannot handle. -/
  | invalidEntryType (path : String)
  /-- The path rules refuse the path. -/
  | invalidPath (path : String)
  /-- The handle or the tree was closed before. -/
  | closed
  /-- A write through a handle opened for reading. -/
  | readOnly
  /-- A read through a handle opened for writing. -/
  | writeOnly
  /-- The content would exceed its limit. -/
  | tooLarge
  /-- The new modification time is before the current one. -/
  | mtimeRegression
  /-- The modification time is before the creation time. -/
  | mtimeBeforeCtime
  /-- The filesystem does not offer the operation. -/
  | notImplemented
  /-- A paged reading has nothing left. -/
  | endOfDirectory
  /-- An argument is out of its range or malformed. -/
  | invalidInput (reason : String)
  /-- A byte source or the host failed. -/
  | io (error : IoError)
  /-- The error `source`, raised by `operation` on `path`. -/
  | tagged (operation : Operation) (path : String) (source : FsError)
  /-- Any other failure. -/
  | other (reason : String)
  deriving Repr, DecidableEq

namespace FsError

/-- The text of an error: the tags from the outside in, then the cause. -/
def message : FsError → String
  | notFound path => "does not exist: " ++ path
  | alreadyExists path => "already exists: " ++ path
  | notADirectory path => "not a directory: " ++ path
  | notAFile path => "not a file: " ++ path
  | isADirectory path => "is a directory: " ++ path
  | invalidEntryType path => "entry type is invalid: " ++ path
  | invalidPath path => "invalid path: " ++ path
  | closed => "file already closed"
  | readOnly => "file is read-only"
  | writeOnly => "file is write-only"
  | tooLarge => "too large"
  | mtimeRegression => "modification time is invalid"
  | mtimeBeforeCtime => "modification time occurs before creation time"
  | notImplemented => "not implemented"
  | endOfDirectory => "no more directory entries"
  | invalidInput reason => "invalid input: " ++ reason
  | io error => "I/O error: " ++ error.text
  | tagged operation path source => operation.name ++ " " ++ path ++ ": " ++ source.message
  | other reason => reason

/-- The cause under all tags. -/
def rootCause : FsError → FsError
  | tagged _ _ source => source.rootCause
  | e => e

/-- The outermost tag. -/
def operation? : FsError → Option Operation
  | tagged operation _ _ => some operation
  | _ => none

/-- The class of a host error; classes without a counterpart fall under `ErrorKind.io`. -/
def kindOfIo : IoKind → ErrorKind
  | .notFound => .notFound
  | .alreadyExists => .alreadyExists
  | .notADirectory => .notADirectory
  | .isADirectory => .isADirectory
  | .invalidInput => .invalidInput
  | _ => .io

/-- The class of an error: that of its root cause. -/
def kind : FsError → ErrorKind
  | notFound _ => .notFound
  | alreadyExists _ => .alreadyExists
  | notADirectory _ => .notADirectory
  | notAFile _ => .notAFile
  | isADirectory _ => .isADirectory
  | invalidEntryType _ => .invalidEntryType
  | invalidPath _ => .invalidPath
  | closed => .closed
  | readOnly => .readOnly
  | writeOnly => .writeOnly
  | tooLarge => .tooLarge
  | mtimeRegression => .timeOrdering
  | mtimeBeforeCtime => .timeOrdering
  | notImplemented => .notImplemented
  | endOfDirectory => .endOfDirectory
  | invalidInput _ => .invalidInput
  | io error => kindOfIo error.kind
  | tagged _ _ source => source.kind
  | other _ => .other

/-- The texts of the errors below this one, outermost first. -/
def sources : FsError → List String
  | tagged _ _ source => source.message :: source.sources
  | io error => [error.text]
  | _ => []

/-- The class under which a byte stream reports an error. -/
def ioKind : ErrorKind → IoKind
  | .notFound => .notFound
  | .alreadyExists => .alreadyExists
  | .notADirectory => .notADirectory
  | .isADirectory => .isADirectory
  | .invalidPath => .invalidInput
  | .invalidInput => .invalidInput
  | .readOnly => .permissionDenied
  | .writeOnly => .permissionDenied
  | .tooLarge => .outOfMemory
  | .notImplemented => .unsupported
  | .endOfDirectory => .unexpectedEof
  | _ => .other

/-- The error as a byte stream reports it. An untagged host error goes through unchanged, any other
is classed by its kind and keeps its whole text. -/
def toStream : FsError → IoError
  | io error => error
  | e => ⟨ioKind e.kind, e.message⟩

/-- Tags the error, if there is one. -/
def tag {α : Type} (operation : Operation) (path : String) :
    Except FsError α → Except FsError α
  | .ok a => .ok a
  | .error e => .error (tagged operation path e)

@[simp] theorem tag_ok {α : Type} (operation : Operation) (path : String) (a : α) :
    tag operation path (.ok a) = .ok a := rfl

@[simp] theorem tag_error {α : Type} (operation : Operation) (path : String) (e : FsError) :
    tag operation path (.error e : Except FsError α) = .error (tagged operation path e) := rfl

theorem kind_rootCause (e : FsError) : e.rootCause.kind = e.kind := by
  induction e with
  | tagged _ _ _ ih => simpa [rootCause, kind] using ih
  | _ => rfl

end FsError

end VirtualFs
