import VirtualFs.Cursor
import VirtualFs.Flags
import VirtualFs.Host.Program
import VirtualFs.Page
import VirtualFs.Transfer

namespace VirtualFs.Host

/-- An open file or directory of the host. A file has one cursor for reading and writing. The names
of a directory are taken when its first page is read, and its members looked up as they are
delivered. -/
structure Handle where
  /-- The path it was opened with. -/
  path : String
  /-- The host path it was opened with. -/
  full : String
  flags : OpenFlags
  /-- The number of the open file, nothing for a directory. -/
  file : Option Nat
  /-- Every write goes to the end of the file. -/
  append : Bool
  offset : Nat
  listing : Option Listing
  closed : Bool
  deriving Repr, DecidableEq

/-- The entry of host metadata. A creation time later than the modification time is lowered to it;
directories have no size. -/
def entryOf (path : String) (m : Metadata) : Except FsError Entry :=
  let draft := { Attributes.Draft.empty with
    ctime := some (min m.stamp.born m.stamp.mtime)
    mtime := some m.stamp.mtime
    mode := m.mode
    size := if m.isDir then 0 else m.size
    inode := m.inode }
  match draft.build m.stamp.mtime with
  | .ok attrs => Entry.create path attrs .permissive
  | .error e => .error e

namespace Handle

/-- A handle on a file. -/
def onFile (path full : String) (flags : OpenFlags) (file : Nat) : Handle :=
  ⟨path, full, flags, some file, flags.has .append, 0, none, false⟩

/-- A handle on a directory, which is only read. -/
def onDir (path full : String) : Handle :=
  ⟨path, full, .rdonly, none, false, 0, none, false⟩

/-- The error of an operation through this handle. -/
def failure (handle : Handle) (operation : Operation) (e : FsError) : FsError :=
  .tagged operation handle.path e

/-- The number of the file for a transfer: refused by a closed handle, then on a directory, then
without the access. -/
def transferred (handle : Handle) (allowed : Bool) (refusal : FsError) : Except FsError Nat :=
  if handle.closed then .error .closed
  else
    match handle.file with
    | none => .error (.isADirectory handle.path)
    | some file => if allowed then .ok file else .error refusal

def readable (handle : Handle) : Except FsError Nat :=
  handle.transferred handle.flags.readable .writeOnly

def writable (handle : Handle) : Except FsError Nat :=
  handle.transferred handle.flags.writable .readOnly

/-- Up to `n` bytes from the cursor, which moves behind them. -/
def read (handle : Handle) (n : Nat) : Program (Except FsError Bytes × Handle) :=
  match handle.readable with
  | .error e => .done (.error (handle.failure .read e), handle)
  | .ok file =>
    .call (.read file handle.offset n) fun
      | .error e => .done (.error (handle.failure .read (.io e.toIo)), handle)
      | .ok data => .done (.ok data, { handle with offset := handle.offset + data.length })

/-- The host knows no larger offset. -/
def offsetLimit : Int := 0x8000000000000000

/-- Up to `n` bytes from `offset`, and whether there were fewer. The cursor stays. -/
def readAt (handle : Handle) (n offset : Nat) : Program (Except FsError (Bytes × Bool)) :=
  match handle.readable with
  | .error e => .done (.error (handle.failure .readAt e))
  | .ok file =>
    if offsetLimit ≤ offset then
      .done (.error (handle.failure .readAt (.io Failure.invalidArgument.toIo)))
    else
      .call (.read file offset n) fun
        | .error e => .done (.error (handle.failure .readAt (.io e.toIo)))
        | .ok data => .done (.ok (data, decide (data.length < n)))

/-- Moves the cursor to any offset that the host knows. -/
def seek (handle : Handle) (goal : SeekTo) : Program (Except FsError Nat × Handle) :=
  match handle.readable with
  | .error e => .done (.error (handle.failure .seek e), handle)
  | .ok file =>
    .call (.size file) fun size =>
      let target := goal.target handle.offset size
      if 0 ≤ target ∧ target < offsetLimit then
        .done (.ok target.toNat, { handle with offset := target.toNat })
      else .done (.error (handle.failure .seek (.io Failure.invalidArgument.toIo)), handle)

/-- Writes all of `data` at the cursor, or at the end for appending; the cursor moves behind it. -/
def write (handle : Handle) (data : Bytes) : Program (Except FsError Nat × Handle) :=
  match handle.writable with
  | .error e => .done (.error (handle.failure .write e), handle)
  | .ok file =>
    if data = [] then .done (.ok 0, handle)
    else
      .call (.size file) fun size =>
        let offset := if handle.append then size else handle.offset
        .call (.write file offset data) fun
          | .error e => .done (.error (handle.failure .write (.io e.toIo)), handle)
          | .ok () => .done (.ok data.length, { handle with offset := offset + data.length })

/-- The entries of the first `limit` names, and the names after them. -/
def deliver (handle : Handle) (dir : Nat) :
    Nat → List String → Program (Except FsError (List Entry) × List String)
  | 0, names => .done (.ok [], names)
  | _, [] => .done (.ok [], [])
  | limit + 1, name :: names =>
    .call (.member dir name) fun
      | .error e => .done (.error (.io e.toIo), names)
      | .ok m =>
        match entryOf (Path.join handle.path name) m with
        | .error e => .done (.error e, names)
        | .ok entry =>
          (handle.deliver dir limit names).bind fun
            | (.ok entries, rest) => .done (.ok (entry :: entries), rest)
            | (.error e, rest) => .done (.error e, rest)

/-- A page of at most `n` of the entries left, of all of them when `n` is not positive. Only a
positive `n` can meet the end, and fails when nothing is left. -/
def page (handle : Handle) (n : Int) (listing : Listing) :
    Program (Except FsError Page × Handle) :=
  let limit := if 0 < n then n.toNat else listing.names.length
  (handle.deliver listing.dir limit listing.names).bind fun (result, rest) =>
    let handle := { handle with listing := some ⟨listing.dir, rest⟩ }
    match result with
    | .error e => .done (.error (handle.failure .readDir e), handle)
    | .ok entries =>
      if 0 < n ∧ entries = [] then
        .done (.error (handle.failure .readDir .endOfDirectory), handle)
      else .done (.ok ⟨entries, decide (n ≤ 0 ∨ entries.length < n.toNat)⟩, handle)

/-- The next page of a directory. -/
def readDir (handle : Handle) (n : Int) : Program (Except FsError Page × Handle) :=
  if handle.closed then .done (.error (handle.failure .readDir .closed), handle)
  else if handle.file.isSome then
    .done (.error (handle.failure .readDir (.notADirectory handle.path)), handle)
  else
    match handle.listing with
    | some listing => handle.page n listing
    | none =>
      .call (.list handle.full) fun
        | .error e => .done (.error (handle.failure .readDir (.io e.toIo)), handle)
        | .ok listing => handle.page n listing

/-- The entry of what is at the host path now. -/
def stat (handle : Handle) : Program (Except FsError Entry) :=
  if handle.closed then .done (.error (handle.failure .stat .closed))
  else
    .call (.metadata handle.full) fun
      | .error e => .done (.error (handle.failure .stat (.io e.toIo)))
      | .ok m =>
        match entryOf handle.path m with
        | .ok entry => .done (.ok entry)
        | .error e => .done (.error (handle.failure .stat e))

/-- Closes the handle, once. -/
def close (handle : Handle) : Except FsError Unit × Handle :=
  if handle.closed then (.error (handle.failure .close .closed), handle)
  else (.ok (), { handle with closed := true, file := none, listing := none })

/-- The bytes between the cursor and the end of the file. -/
def left (handle : Handle) (disk : Disk) : Nat :=
  match handle.file with
  | some file => (disk.content file).length - handle.offset
  | none => 0

/-- Only an open file is read or written. -/
theorem file_of_transferred {handle : Handle} {allowed : Bool} {refusal : FsError} {file : Nat}
    (hfile : handle.transferred allowed refusal = .ok file) : handle.file = some file := by
  unfold transferred at hfile
  split at hfile
  · simp at hfile
  · split at hfile
    · simp at hfile
    · split at hfile
      · simp_all
      · simp at hfile

/-- A read that is not at the end leaves less to read. -/
theorem left_read_lt (handle : Handle) (libraries : Libraries) (disk : Disk) (n : Nat)
    {data : Bytes}
    (hread : ((handle.read n).run libraries disk).1.1 = .ok data) (hdata : data ≠ []) :
    ((handle.read n).run libraries disk).1.2.left ((handle.read n).run libraries disk).2 <
      handle.left disk := by
  unfold read at hread ⊢
  cases hfile : handle.readable with
  | error e => simp [hfile, Program.run] at hread
  | ok file =>
    have hopen := file_of_transferred hfile
    by_cases hdir : disk.isDir file = true
    · simp [hfile, Program.run, Disk.answer, Disk.read, hdir] at hread
    · have hpos := List.length_pos_iff.2 hdata
      simp [hfile, Program.run, Disk.answer, Disk.read, hdir] at hread
      simp [Program.run, Disk.answer, Disk.read, hdir, left, hopen]
      rw [← hread] at hpos
      simp at hpos
      omega

/-- A handle as something to read from, on a disk. -/
def reader (libraries : Libraries) : Readable (Handle × Disk) where
  read := fun (handle, disk) n =>
    let ((result, handle), disk) := (handle.read n).run libraries disk
    (result, handle, disk)
  left := fun (handle, disk) => handle.left disk
  left_lt := by
    rintro ⟨handle, disk⟩ n b s' hread hb
    simp only [Prod.mk.injEq] at hread
    obtain ⟨hresult, rfl⟩ := hread
    exact left_read_lt handle libraries disk n hresult hb

/-- A handle as something to write to, on a disk. -/
def writer (libraries : Libraries) : Writable (Handle × Disk) where
  write := fun (handle, disk) data hdata =>
    let ((result, handle), disk) := (handle.write data).run libraries disk
    (result.map fun _ => ⟨data.length, List.length_pos_iff.2 hdata, Nat.le_refl _⟩, handle, disk)
  stat := fun (handle, disk) => (handle.stat.run libraries disk).1

/-- Everything from the cursor to the end, appended to `out`, and its length. -/
def readToEnd (handle : Handle) (libraries : Libraries) (disk : Disk) (out : Bytes) :
    Except FsError Nat × Bytes × Handle × Disk :=
  (reader libraries).readToEnd (handle, disk) out 0

/-- Writes everything that the source delivers before its end, and counts it. -/
def readFrom (handle : Handle) (libraries : Libraries) (disk : Disk) (source : Source) :
    Except FsError Nat × Handle × Disk :=
  (writer libraries).readFrom (handle, disk) source 0

end Handle

end VirtualFs.Host
