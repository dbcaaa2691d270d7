import VirtualFs.Tree.Walk

namespace VirtualFs.Tree

/-- A tree in use. Views, handles and pagers are numbered in the order in which they were taken
and stay, also when they are closed. -/
structure Session where
  store : Store
  views : List View
  handles : List Handle
  pagers : List Pager

/-- An operation of a view. -/
inductive ViewCommand where
  | openRead (path : String)
  | openFile (path : String) (flags : OpenFlags) (mode : FileMode)
  | create (path : String)
  | mkdir (path : String) (mode : FileMode)
  | mkdirAll (path : String) (mode : FileMode)
  | writeFile (path : String) (data : Bytes) (mode : FileMode)
  | content (path : String)
  | stat (path : String)
  | exists? (path : String)
  | readDir (path : String)
  | dirIter (path : String)
  | sub (path : String)
  | glob (patterns : Glob.Library) (pattern : String)
  | listing
  | remove (path : String)
  | removeAll (path : String)
  | rename (path target : String)
  | close

/-- An operation of a handle. -/
inductive HandleCommand where
  | read (n : Nat)
  | readAt (n offset : Nat)
  | readToEnd (out : Bytes)
  | seek (goal : SeekTo)
  | write (data : Bytes)
  | readFrom (source : Source)
  | readDir (n : Int)
  | stat
  | close

/-- An operation of a paged reading. -/
inductive PagerCommand where
  | next
  | nextPage (n : Int)

/-- An operation, and the number of what it is an operation of. -/
inductive Command where
  | view (index : Nat) (command : ViewCommand)
  | handle (index : Nat) (command : HandleCommand)
  | pager (index : Nat) (command : PagerCommand)

/-- What an operation that succeeds answers. -/
inductive Reply where
  | done
  | view (index : Nat)
  | handle (index : Nat)
  | pager (index : Nat)
  | entry (entry : Entry)
  | entries (entries : List Entry)
  | maybeEntry (entry : Option Entry)
  | page (page : Page)
  | names (names : List String)
  | data (bytes : Bytes)
  | piece (bytes : Bytes) (eof : Bool)
  | appended (count : Nat) (whole : Bytes)
  | count (n : Nat)
  | verdict (found : Bool)
  deriving Repr, DecidableEq

namespace Session

/-- A new tree with the view of the whole. -/
def create (config : Config) (rules : PathRules) (now : Time) : Session :=
  ⟨.create config rules now, [.whole], [], []⟩

/-- A new tree with its settings checked. Rules that are given replace those of the settings. -/
def build (config : Config) (rules : Option PathRules) (now : Time) : Except FsError Session :=
  match config.validate with
  | .error e => .error e
  | .ok () => .ok (create config (rules.getD config.pathPolicy.rules) now)

/-- The outcome of an operation that opens a handle. -/
def takeHandle (session : Session) : Except FsError Handle × Store → Except FsError Reply × Session
  | (.error e, store) => (.error e, { session with store := store })
  | (.ok handle, store) =>
    (.ok (.handle session.handles.length),
      { session with store := store, handles := session.handles ++ [handle] })

/-- The outcome of an operation that answers nothing. -/
def settle (session : Session) : Except FsError Unit × Store → Except FsError Reply × Session
  | (result, store) => (result.map fun _ => .done, { session with store := store })

/-- An operation of a view. -/
def viewStep (session : Session) (clock : Clock) (view : View) :
    ViewCommand → Except FsError Reply × Session
  | .openRead path => session.takeHandle (view.openRead session.store clock path)
  | .openFile path flags mode =>
    session.takeHandle (view.openFile session.store clock path flags mode)
  | .create path => session.takeHandle (view.create session.store clock path)
  | .mkdir path mode => session.settle (view.mkdir session.store clock path mode)
  | .mkdirAll path mode => session.settle (view.mkdirAll session.store clock path mode)
  | .writeFile path data mode =>
    session.settle (view.writeFile session.store clock path data mode)
  | .content path =>
    let (result, store) := view.content session.store clock path
    (result.map .data, { session with store := store })
  | .stat path => ((view.stat session.store path).map .entry, session)
  | .exists? path => (.ok (.verdict (view.exists? session.store path)), session)
  | .readDir path => ((view.readDir session.store path).map .entries, session)
  | .dirIter path =>
    match view.dirIter session.store path with
    | .error e => (.error e, session)
    | .ok pager =>
      (.ok (.pager session.pagers.length), { session with pagers := session.pagers ++ [pager] })
  | .sub path =>
    match view.sub session.store path with
    | .error e => (.error e, session)
    | .ok sub => (.ok (.view session.views.length), { session with views := session.views ++ [sub] })
  | .glob patterns pattern => ((view.glob session.store patterns pattern).map .names, session)
  | .listing => (.ok (.names (view.listing session.store)), session)
  | .remove path => ((View.remove path).map fun _ => .done, session)
  | .removeAll path => ((View.removeAll path).map fun _ => .done, session)
  | .rename path _ => ((View.rename path).map fun _ => .done, session)
  | .close => session.settle (view.close session.store)

/-- Keeps what became of the handle `index`. -/
def putHandle (session : Session) (index : Nat) (handle : Handle) : Session :=
  { session with handles := session.handles.set index handle }

/-- An operation of the handle `index`. -/
def handleStep (session : Session) (clock : Clock) (index : Nat) (handle : Handle) :
    HandleCommand → Except FsError Reply × Session
  | .read n =>
    let (result, handle) := handle.read session.store n
    (result.map .data, session.putHandle index handle)
  | .readAt n offset =>
    ((handle.readAt session.store n offset).map fun (bytes, eof) => .piece bytes eof, session)
  | .readToEnd out =>
    let (result, whole, handle) := handle.readToEnd session.store out
    (result.map fun n => .appended n whole, session.putHandle index handle)
  | .seek goal =>
    let (result, handle) := handle.seek session.store goal
    (result.map .count, session.putHandle index handle)
  | .write data =>
    let (result, handle, store) := handle.write session.store (clock 0) data
    (result.map .count, { session with store := store }.putHandle index handle)
  | .readFrom source =>
    let ((result, handle, store), _) := handle.readFrom session.store clock source
    (result.map .count, { session with store := store }.putHandle index handle)
  | .readDir n =>
    let (result, handle) := handle.readDir session.store n
    (result.map .page, session.putHandle index handle)
  | .stat => ((handle.stat session.store).map .entry, session)
  | .close =>
    let (result, handle) := handle.close
    (result.map fun _ => .done, session.putHandle index handle)

/-- An operation of the pager `index`. -/
def pagerStep (session : Session) (index : Nat) (pager : Pager) :
    PagerCommand → Except FsError Reply × Session
  | .next =>
    let (entry, pager) := pager.next session.store
    (.ok (.maybeEntry entry), { session with pagers := session.pagers.set index pager })
  | .nextPage n =>
    let (result, pager) := pager.nextPage session.store n
    (result.map .page, { session with pagers := session.pagers.set index pager })

/-- The failure of an operation of something that was never taken. -/
def missing : FsError :=
  .invalidInput "no such view, handle or pager"

/-- One operation, with what the clock shows during it. -/
def step (session : Session) (clock : Clock) : Command → Except FsError Reply × Session
  | .view index command =>
    match session.views[index]? with
    | some view => session.viewStep clock view command
    | none => (.error missing, session)
  | .handle index command =>
    match session.handles[index]? with
    | some handle => session.handleStep clock index handle command
    | none => (.error missing, session)
  | .pager index command =>
    match session.pagers[index]? with
    | some pager => session.pagerStep index pager command
    | none => (.error missing, session)

/-- A run of operations, each with its own readings of the clock. -/
def run (session : Session) : List (Clock × Command) → List (Except FsError Reply) × Session
  | [] => ([], session)
  | (clock, command) :: rest =>
    let (answer, session) := session.step clock command
    let (answers, session) := run session rest
    (answer :: answers, session)

end Session

end VirtualFs.Tree
