import VirtualFs.Cursor
import VirtualFs.Flags
import VirtualFs.Source
import VirtualFs.Tree.Pager

namespace VirtualFs.Tree

/-- What a handle is open on. -/
inductive Target where
  | dir (inode : Nat)
  | file (inode : Nat)
  deriving Repr, DecidableEq

/-- The number of the node. -/
def Target.inode : Target → Nat
  | .dir i => i
  | .file i => i

/-- The node is a directory. -/
def Target.isDir : Target → Bool
  | .dir _ => true
  | .file _ => false

/-- An open file or directory, with a cursor for reading and one for writing. -/
structure Handle where
  target : Target
  flags : OpenFlags
  /-- The path it was opened with, cleaned. -/
  path : String
  /-- The tree path of the root of the view it was opened through. -/
  base : String
  readOff : Nat
  writeOff : Nat
  closed : Bool
  /-- The paged reading of a directory handle, once it has begun. -/
  pager : Option Pager
  deriving Repr, DecidableEq

/-- The number of positions that a cursor can have. -/
def cursorLimit : Int := 0x10000000000000000

namespace Handle

/-- A handle on a directory, which is always read-only. -/
def onDir (inode : Nat) (path base : String) : Handle :=
  ⟨.dir inode, .rdonly, path, base, 0, 0, false, none⟩

/-- Opens a file: `OpenFlags.trunc` empties it, and with `OpenFlags.append` the write cursor starts
at the end. -/
def openFile (store : Store) (inode : Nat) (flags : OpenFlags) (path base : String) :
    Handle × Store :=
  let store := if flags.has .trunc then store.modifyCell inode Cell.truncate else store
  let size := match store.cell? inode with
    | some cell => cell.size
    | none => 0
  let writeOff := if flags.has .append then size else 0
  (⟨.file inode, flags, path, base, 0, writeOff, false, none⟩, store)

/-- Opens the node of this number, whichever it is. -/
def onNode (store : Store) (inode : Nat) (flags : OpenFlags) (path base : String) :
    Handle × Store :=
  match store.dir? inode with
  | some _ => (onDir inode path base, store)
  | none => openFile store inode flags path base

/-- The error of an operation through this handle. -/
def failure (handle : Handle) (operation : Operation) (e : FsError) : FsError :=
  .tagged operation handle.path e

/-- A transfer is refused by a closed handle, then on a directory, then without the access. -/
def checkTransfer (handle : Handle) (allowed : Bool) (refusal : FsError) : Except FsError Unit :=
  if handle.closed then .error .closed
  else if handle.target.isDir then .error (.isADirectory handle.path)
  else if allowed then .ok ()
  else .error refusal

def checkReadable (handle : Handle) : Except FsError Unit :=
  handle.checkTransfer handle.flags.readable .writeOnly

def checkWritable (handle : Handle) : Except FsError Unit :=
  handle.checkTransfer handle.flags.writable .readOnly

/-- The cell of a file handle. -/
def cell? (handle : Handle) (store : Store) : Option Cell :=
  store.cell? handle.target.inode

/-- The size of the buffer of a file, zero for a directory. -/
def capacity (handle : Handle) (store : Store) : Nat :=
  match handle.cell? store with
  | some cell => cell.capacity
  | none => 0

/-- The size of a file, zero for a directory. -/
def size (handle : Handle) (store : Store) : Nat :=
  match handle.cell? store with
  | some cell => cell.size
  | none => 0

/-- Up to `n` bytes of the content from `offset` on. -/
def bytesAt (handle : Handle) (store : Store) (offset n : Nat) : Bytes :=
  match handle.cell? store with
  | some cell => cell.readAt offset n
  | none => []

/-- Up to `n` bytes from the read cursor, which moves behind them. -/
def read (handle : Handle) (store : Store) (n : Nat) : Except FsError Bytes × Handle :=
  match handle.checkReadable with
  | .error e => (.error (handle.failure .read e), handle)
  | .ok () =>
    let data := handle.bytesAt store handle.readOff n
    (.ok data, { handle with readOff := handle.readOff + data.length })

/-- Up to `n` bytes from `offset`, and whether there were fewer. No cursor moves. -/
def readAt (handle : Handle) (store : Store) (n offset : Nat) : Except FsError (Bytes × Bool) :=
  match handle.checkReadable with
  | .error e => .error (handle.failure .readAt e)
  | .ok () =>
    let data := handle.bytesAt store offset n
    .ok (data, decide (data.length < n))

/-- Everything from the read cursor to the end, appended to `out`, and its length. -/
def readToEnd (handle : Handle) (store : Store) (out : Bytes) :
    Except FsError Nat × Bytes × Handle :=
  match handle.checkReadable with
  | .error e => (.error (handle.failure .read e), out, handle)
  | .ok () =>
    let tail := match handle.cell? store with
      | some cell => cell.readFromOffset handle.readOff
      | none => []
    (.ok tail.length, out ++ tail, { handle with readOff := handle.readOff + tail.length })

/-- Moves the read cursor to any position from zero to the largest word. -/
def seek (handle : Handle) (store : Store) (goal : SeekTo) : Except FsError Nat × Handle :=
  match handle.checkReadable with
  | .error e => (.error (handle.failure .seek e), handle)
  | .ok () =>
    let target := goal.target handle.readOff (handle.size store)
    if 0 ≤ target ∧ target < cursorLimit then
      (.ok target.toNat, { handle with readOff := target.toNat })
    else
      (.error (handle.failure .seek
        (.invalidInput ("invalid seek position " ++ toString target))), handle)

/-- The paged reading of a directory handle, which begins now if it has not begun. Only then the
directory has to be there. -/
def pager? (handle : Handle) (store : Store) (inode : Nat) : Option Pager :=
  match handle.pager with
  | some pager => some pager
  | none => (store.dir? inode).map fun _ => .start store inode handle.base

/-- The next page of a directory. The first call takes the names. -/
def readDir (handle : Handle) (store : Store) (n : Int) : Except FsError Page × Handle :=
  if handle.closed then (.error (handle.failure .readDir .closed), handle)
  else
    match handle.target with
    | .file _ => (.error (handle.failure .readDir (.notADirectory handle.path)), handle)
    | .dir inode =>
      match handle.pager? store inode with
      | none => (.error (handle.failure .readDir (.notFound handle.path)), handle)
      | some pager =>
        let (page, pager) := pager.nextPage store n
        (FsError.tag .readDir handle.path page, { handle with pager := some pager })

/-- The entry of the node as it is now, as seen from the view of the handle. -/
def stat (handle : Handle) (store : Store) : Except FsError Entry :=
  if handle.closed then .error (handle.failure .stat .closed)
  else
    match store.node? handle.target.inode with
    | some node => .ok (node.entry.rebased handle.base)
    | none => .error (handle.failure .stat (.notFound handle.path))

/-- Puts `data` at the write cursor, which moves behind it. A refused write moves nothing. -/
def put (handle : Handle) (store : Store) (now : Time) (data : Bytes) :
    Except FsError Nat × Handle × Store :=
  match handle.cell? store with
  | none => (.ok 0, handle, store)
  | some cell =>
    match cell.writeAt store.config now handle.writeOff data with
    | (.error e, cell) =>
      (.error (handle.failure .write e), handle,
        store.modifyCell handle.target.inode fun _ => cell)
    | (.ok n, cell) =>
      (.ok n, { handle with writeOff := handle.writeOff + n },
        store.modifyCell handle.target.inode fun _ => cell)

/-- Writes at the write cursor. -/
def write (handle : Handle) (store : Store) (now : Time) (data : Bytes) :
    Except FsError Nat × Handle × Store :=
  match handle.checkWritable with
  | .error e => (.error (handle.failure .write e), handle, store)
  | .ok () => handle.put store now data

/-- Writes what the source delivers, piece by piece, and counts it. Every read of the source is a
stage of the clock. With the outcome comes what is left of the source. -/
def copyFrom (handle : Handle) (store : Store) (clock : Clock) (source : Source) (total : Nat) :
    (Except FsError Nat × Handle × Store) × Source :=
  match _hread : source.read Source.chunkSize with
  | (.ok [], rest) => ((.ok total, handle, store), rest)
  | (.ok (b :: bytes), rest) =>
    match handle.write store (clock 0) (b :: bytes) with
    | (.error e, handle, store) => ((.error e, handle, store), rest)
    | (.ok _, handle, store) =>
      copyFrom handle store (clock.later 1) rest (total + (b :: bytes).length)
  | (.error e, rest) =>
    if e.kind = .interrupted then copyFrom handle store (clock.later 1) rest total
    else ((.error (handle.failure .readFrom (.io e)), handle, store), rest)
termination_by source.weight
decreasing_by
  · have hlt := source.weight_read_lt Source.chunkSize_pos (by simp [_hread])
    simpa [_hread] using hlt
  · have hlt := source.weight_read_lt Source.chunkSize_pos (by simp [_hread])
    simpa [_hread] using hlt

/-- Writes everything that the source delivers before its end. The access is checked before the
source is read. -/
def readFrom (handle : Handle) (store : Store) (clock : Clock) (source : Source) :
    (Except FsError Nat × Handle × Store) × Source :=
  match handle.checkWritable with
  | .error e => ((.error (handle.failure .readFrom e), handle, store), source)
  | .ok () => handle.copyFrom store clock source 0

/-- Closes the handle, once. -/
def close (handle : Handle) : Except FsError Unit × Handle :=
  if handle.closed then (.error (handle.failure .close .closed), handle)
  else (.ok (), { handle with closed := true, pager := none })

end Handle

end VirtualFs.Tree
