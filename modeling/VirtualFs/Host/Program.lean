import VirtualFs.Host.Libraries

namespace VirtualFs.Host

/-- A call of the host, with the type of its answer. Open files are named by their numbers. -/
inductive Request : Type → Type where
  | metadata (path : String) : Request (Except Failure Metadata)
  | canonical (path : String) : Request (Except Failure String)
  | openFile (path : String) (options : OpenOptions) : Request (Except Failure Nat)
  | size (file : Nat) : Request Nat
  | read (file offset n : Nat) : Request (Except Failure Bytes)
  | write (file offset : Nat) (data : Bytes) : Request (Except Failure Unit)
  | list (path : String) : Request (Except Failure Listing)
  | member (dir : Nat) (name : String) : Request (Except Failure Metadata)
  | search (pattern : String) : Request (Except SearchError (List String))
  | makeDir (path : String) (perm : UInt32) : Request (Except Failure Unit)
  | makeDirs (path : String) (perm : UInt32) : Request (Except Failure Unit)
  | removeDir (path : String) : Request (Except Failure Unit)
  | removeFile (path : String) : Request (Except Failure Unit)
  | removeTree (path : String) : Request (Except Failure Unit)
  | rename (path target : String) : Request (Except Failure Unit)

/-- What is answered to a call about a disk, and what becomes of the disk. -/
def Disk.answer {β : Type} (disk : Disk) (libraries : Libraries) : Request β → β × Disk
  | .metadata path => (disk.metadata path, disk)
  | .canonical path => (libraries.canonical disk path, disk)
  | .openFile path options => disk.openFile path options
  | .size file => ((disk.content file).length, disk)
  | .read file offset n => (disk.read file offset n, disk)
  | .write file offset data => disk.write file offset data
  | .list path => (disk.list path, disk)
  | .member dir name => (disk.memberMetadata dir name, disk)
  | .search pattern => (libraries.search disk pattern, disk)
  | .makeDir path perm => disk.makeDir path perm
  | .makeDirs path perm => disk.makeDirs path perm
  | .removeDir path => disk.removeDir path
  | .removeFile path => disk.removeFile path
  | .removeTree path => disk.removeTree path
  | .rename path target => disk.rename path target

/-- Calls of the host, each chosen by the answers to those before it, up to a result. What an
operation hands to the host can be told from it alone, whatever the host answers. -/
inductive Program (α : Type) : Type 1 where
  | done (result : α)
  | call {β : Type} (request : Request β) (next : β → Program α)

namespace Program

/-- Goes on with `next` after the result of a program. -/
def bind {α β : Type} (program : Program α) (next : α → Program β) : Program β :=
  match program with
  | .done result => next result
  | .call request rest => .call request fun answer => (rest answer).bind next

instance : Monad Program where
  pure := .done
  bind := bind

/-- Runs a program on a disk. -/
def run {α : Type} (program : Program α) (libraries : Libraries) (disk : Disk) : α × Disk :=
  match program with
  | .done result => (result, disk)
  | .call request next =>
    let (answer, disk) := disk.answer libraries request
    (next answer).run libraries disk

/-- One call. -/
def ask {β : Type} (request : Request β) : Program β :=
  .call request .done

theorem run_bind {α β : Type} (program : Program α) (next : α → Program β) (libraries : Libraries)
    (disk : Disk) : (program.bind next).run libraries disk =
      (next (program.run libraries disk).1).run libraries (program.run libraries disk).2 := by
  induction program generalizing disk with
  | done result => rfl
  | call request rest ih => exact ih _ _

end Program

/-- A program that may fail. -/
abbrev Attempt (α : Type) := ExceptT FsError Program α

namespace Attempt

/-- A call whose refusal is the failure of the whole. -/
def ask {β : Type} (request : Request (Except Failure β)) : Attempt β :=
  ExceptT.mk (.call request fun
    | .ok answer => .done (.ok answer)
    | .error failure => .done (.error (.io failure.toIo)))

/-- A result that is known without the host. -/
def lift {α : Type} (result : Except FsError α) : Attempt α :=
  ExceptT.mk (.done result)

/-- Tags the failure, if there is one. -/
def tag {α : Type} (operation : Operation) (path : String) (attempt : Attempt α) : Attempt α :=
  ExceptT.mk (attempt.run.bind fun result => .done (FsError.tag operation path result))

end Attempt

end VirtualFs.Host
