import VirtualFs.Host.Filesystem

namespace VirtualFs.Host

/-- Filesystems and handles in use. They are numbered in the order in which they were taken and
stay, also when they are closed. -/
structure Session where
  views : List Filesystem
  handles : List Handle
  deriving Repr, DecidableEq

/-- An operation of a filesystem that takes a path or a pattern. -/
inductive ViewCommand where
  | openRead (path : String)
  | openFile (path : String) (flags : OpenFlags) (mode : FileMode)
  | create (path : String)
  | stat (path : String)
  | readDir (path : String)
  | content (path : String)
  | writeFile (path : String) (data : Bytes) (mode : FileMode)
  | glob (pattern : String)
  | sub (path : String)
  | mkdir (path : String) (mode : FileMode)
  | mkdirAll (path : String) (mode : FileMode)
  | remove (path : String)
  | removeAll (path : String)
  | rename (path target : String)
  deriving Repr, DecidableEq

/-- An operation of a handle. -/
inductive HandleCommand where
  | read (n : Nat)
  | readAt (n offset : Nat)
  | seek (goal : SeekTo)
  | write (data : Bytes)
  | readDir (n : Int)
  | stat
  | close
  deriving Repr, DecidableEq

/-- An operation, and the number of what it is an operation of. -/
inductive Command where
  | view (index : Nat) (command : ViewCommand)
  | handle (index : Nat) (command : HandleCommand)
  deriving Repr, DecidableEq

/-- What an operation that succeeds answers. -/
inductive Reply where
  | done
  | view (index : Nat)
  | handle (index : Nat)
  | entry (entry : Entry)
  | entries (entries : List Entry)
  | page (page : Page)
  | names (names : List String)
  | data (bytes : Bytes)
  | piece (bytes : Bytes) (eof : Bool)
  | count (n : Nat)
  deriving Repr, DecidableEq

namespace Session

/-- The state after the only filesystem was made. -/
def start (fs : Filesystem) : Session :=
  ⟨[fs], []⟩

/-- The outcome of an operation that takes nothing new. -/
def report {α : Type} (session : Session) (reply : α → Reply) (attempt : Attempt α) :
    Program (Except FsError Reply × Session) :=
  attempt.run.bind fun result => .done (result.map reply, session)

/-- The outcome of an operation that opens a handle. -/
def takeHandle (session : Session) (attempt : Attempt Handle) :
    Program (Except FsError Reply × Session) :=
  attempt.run.bind fun
    | .error e => .done (.error e, session)
    | .ok handle =>
      .done (.ok (.handle session.handles.length),
        { session with handles := session.handles ++ [handle] })

/-- The outcome of an operation that takes another filesystem. -/
def takeView (session : Session) (attempt : Attempt Filesystem) :
    Program (Except FsError Reply × Session) :=
  attempt.run.bind fun
    | .error e => .done (.error e, session)
    | .ok fs =>
      .done (.ok (.view session.views.length), { session with views := session.views ++ [fs] })

/-- An operation of a filesystem. -/
def viewStep (session : Session) (patterns : Glob.Library) (fs : Filesystem) :
    ViewCommand → Program (Except FsError Reply × Session)
  | .openRead path => session.takeHandle (fs.openRead path)
  | .openFile path flags mode => session.takeHandle (fs.openFile path flags mode)
  | .create path => session.takeHandle (fs.create path)
  | .stat path => session.report .entry (fs.stat path)
  | .readDir path => session.report .entries (fs.readDir path)
  | .content path => session.report .data (fs.content path)
  | .writeFile path data mode => session.report (fun _ => .done) (fs.writeFile path data mode)
  | .glob pattern => session.report .names (fs.glob patterns pattern)
  | .sub path => session.takeView (fs.sub path)
  | .mkdir path mode => session.report (fun _ => .done) (fs.mkdir path mode)
  | .mkdirAll path mode => session.report (fun _ => .done) (fs.mkdirAll path mode)
  | .remove path => session.report (fun _ => .done) (fs.remove path)
  | .removeAll path => session.report (fun _ => .done) (fs.removeAll path)
  | .rename path target => session.report (fun _ => .done) (fs.rename path target)

/-- The outcome of an operation of the handle `index`, which is kept as it came out. -/
def putHandle {α : Type} (session : Session) (index : Nat) (reply : α → Reply)
    (program : Program (Except FsError α × Handle)) : Program (Except FsError Reply × Session) :=
  program.bind fun (result, handle) =>
    .done (result.map reply, { session with handles := session.handles.set index handle })

/-- An operation of the handle `index`. -/
def handleStep (session : Session) (index : Nat) (handle : Handle) :
    HandleCommand → Program (Except FsError Reply × Session)
  | .read n => session.putHandle index .data (handle.read n)
  | .readAt n offset =>
    session.report (fun (bytes, eof) => .piece bytes eof) (.mk (handle.readAt n offset))
  | .seek goal => session.putHandle index .count (handle.seek goal)
  | .write data => session.putHandle index .count (handle.write data)
  | .readDir n => session.putHandle index .page (handle.readDir n)
  | .stat => session.report .entry (.mk handle.stat)
  | .close => session.putHandle index (fun _ => .done) (.done handle.close)

/-- The failure of an operation of something that was never taken. -/
def missing : FsError :=
  .invalidInput "no such filesystem or handle"

/-- One operation. -/
def step (session : Session) (patterns : Glob.Library) :
    Command → Program (Except FsError Reply × Session)
  | .view index command =>
    match session.views[index]? with
    | some fs => session.viewStep patterns fs command
    | none => .done (.error missing, session)
  | .handle index command =>
    match session.handles[index]? with
    | some handle => session.handleStep index handle command
    | none => .done (.error missing, session)

/-- A run of operations on a disk, each at its time. -/
def run (session : Session) (libraries : Libraries) (disk : Disk) :
    List (Time × Command) → List (Except FsError Reply) × Session × Disk
  | [] => ([], session, disk)
  | (now, command) :: rest =>
    let ((answer, session), disk) :=
      (session.step libraries.patterns command).run libraries { disk with now := now }
    let (answers, session, disk) := run session libraries disk rest
    (answer :: answers, session, disk)

end Session

end VirtualFs.Host
