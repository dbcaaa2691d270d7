import VirtualFs.Proofs.Content.Cell
import VirtualFs.Proofs.Tree.HandleMoves
import VirtualFs.Proofs.Tree.Run

namespace VirtualFs.Tree.Handle

/-- What a handle on a file knows, without the node it is open on. -/
def plain (handle : Handle) : Plain.Handle :=
  ⟨handle.flags, handle.path, handle.readOff, handle.writeOff, handle.closed⟩

variable {handle : Handle} {store : Store} {inode : Nat} {cell : Cell} {bound : Nat}

theorem checkTransfer_plain (htarget : handle.target = .file inode) (allowed : Bool)
    (refusal : FsError) :
    handle.checkTransfer allowed refusal = handle.plain.check allowed refusal := by
  simp only [checkTransfer, Plain.Handle.check, plain, htarget, Target.isDir, Bool.false_eq_true,
    if_false]
  rfl

theorem checkReadable_plain (htarget : handle.target = .file inode) :
    handle.checkReadable = handle.plain.checkReadable :=
  checkTransfer_plain htarget _ _

theorem checkWritable_plain (htarget : handle.target = .file inode) :
    handle.checkWritable = handle.plain.checkWritable :=
  checkTransfer_plain htarget _ _

theorem cell?_of_target (htarget : handle.target = .file inode)
    (hcell : store.cell? inode = some cell) : handle.cell? store = some cell := by
  simp [cell?, htarget, Target.inode, hcell]

theorem bytesAt_plain (htarget : handle.target = .file inode)
    (hcell : store.cell? inode = some cell) (offset n : Nat) :
    handle.bytesAt store offset n = (cell.plain.bytes.drop offset).take n := by
  simp only [bytesAt, cell?_of_target htarget hcell]
  rfl

theorem size_plain (htarget : handle.target = .file inode)
    (hcell : store.cell? inode = some cell) (hsound : cell.Sound bound) :
    handle.size store = cell.plain.bytes.length := by
  simp only [size, cell?_of_target htarget hcell]
  exact hsound.length_active.symm

theorem read_plain (htarget : handle.target = .file inode)
    (hcell : store.cell? inode = some cell) (n : Nat) :
    ((handle.read store n).1, (handle.read store n).2.plain) =
      handle.plain.read cell.plain n := by
  unfold read Plain.Handle.read
  rw [checkReadable_plain htarget, bytesAt_plain htarget hcell]
  cases handle.plain.checkReadable <;> rfl

theorem readAt_plain (htarget : handle.target = .file inode)
    (hcell : store.cell? inode = some cell) (n offset : Nat) :
    handle.readAt store n offset = handle.plain.readAt cell.plain n offset := by
  unfold readAt Plain.Handle.readAt
  rw [checkReadable_plain htarget, bytesAt_plain htarget hcell]
  cases handle.plain.checkReadable <;> rfl

theorem readToEnd_plain (htarget : handle.target = .file inode)
    (hcell : store.cell? inode = some cell) (out : Bytes) :
    ((handle.readToEnd store out).1, (handle.readToEnd store out).2.1,
      (handle.readToEnd store out).2.2.plain) = handle.plain.readToEnd cell.plain out := by
  unfold readToEnd Plain.Handle.readToEnd
  rw [checkReadable_plain htarget, cell?_of_target htarget hcell]
  cases handle.plain.checkReadable <;> rfl

theorem seek_plain (htarget : handle.target = .file inode)
    (hcell : store.cell? inode = some cell) (hsound : cell.Sound bound) (goal : SeekTo) :
    ((handle.seek store goal).1, (handle.seek store goal).2.plain) =
      handle.plain.seek cell.plain goal := by
  unfold seek Plain.Handle.seek
  rw [checkReadable_plain htarget, size_plain htarget hcell hsound]
  cases handle.plain.checkReadable with
  | error e => rfl
  | ok u =>
    have hread : handle.plain.readOff = handle.readOff := rfl
    have hlimit : cursorLimit = 0x10000000000000000 := rfl
    cases goal with
    | start offset => simp only [SeekTo.target, hlimit]; split <;> rfl
    | current delta => simp only [SeekTo.target, hlimit, hread]; split <;> rfl
    | fromEnd delta => simp only [SeekTo.target, hlimit]; split <;> rfl

theorem close_plain : (handle.close.1, handle.close.2.plain) = handle.plain.close := by
  unfold close Plain.Handle.close
  have hclosed : handle.plain.closed = handle.closed := rfl
  rw [hclosed]
  split <;> rfl

/-- What a transfer into a file leads to: the answer, the handle and the file are those of the plain
machine, and nothing but the cell is touched. -/
structure Writes (bound : Nat) (store : Store) (start : Handle) (inode : Nat)
    (outcome : Except FsError Nat × Handle × Store)
    (plain : Except FsError Nat × Plain.Handle × Plain.File) : Prop where
  answer : outcome.1 = plain.1
  handle : outcome.2.1.plain = plain.2.1
  target : outcome.2.1.target = start.target
  cell : ∃ cell, outcome.2.2.cell? inode = some cell ∧ cell.Sound bound ∧ cell.plain = plain.2.2
  dirs : ∀ i, outcome.2.2.dir? i = store.dir? i

theorem write_plain (htarget : handle.target = .file inode)
    (hcell : store.cell? inode = some cell) (hsound : cell.Sound bound)
    (hgrows : store.config.GrowsWithin bound) (now : Time) (data : Bytes) :
    Writes bound store handle inode (handle.write store now data)
      (handle.plain.write store.config cell.plain now data) := by
  unfold write Plain.Handle.write
  rw [checkWritable_plain htarget]
  cases handle.plain.checkWritable with
  | error e => exact ⟨rfl, rfl, rfl, ⟨cell, hcell, hsound, rfl⟩, fun _ => rfl⟩
  | ok u =>
    obtain ⟨hsound', hplain⟩ := Cell.writeAt_spec hsound hgrows now handle.writeOff data
    have hoff : handle.plain.writeOff = handle.writeOff := rfl
    have htargetInode : handle.target.inode = inode := by rw [htarget]; rfl
    simp only [put, cell?_of_target htarget hcell, hoff, ← hplain, htargetInode]
    have hkept : ∀ written : Cell,
        (store.modifyCell inode fun _ => written).cell? inode = some written := by
      intro written
      rw [store.cell?_modifyCell, if_pos rfl, hcell]
      rfl
    rcases hwrite : cell.writeAt store.config now handle.writeOff data with ⟨_ | n, written⟩
    · rw [hwrite] at hsound'
      exact ⟨rfl, rfl, rfl, ⟨written, hkept written, hsound', rfl⟩, fun i => by simp⟩
    · rw [hwrite] at hsound'
      exact ⟨rfl, rfl, rfl, ⟨written, hkept written, hsound', rfl⟩, fun i => by simp⟩

theorem copyFrom_plain (htarget : handle.target = .file inode)
    (hcell : store.cell? inode = some cell) (hsound : cell.Sound bound)
    (hgrows : store.config.GrowsWithin bound) (clock : Clock) (source : Source) (total : Nat) :
    Writes bound store handle inode (handle.copyFrom store clock source total).1
      (handle.plain.copyFrom store.config cell.plain clock source total) := by
  fun_induction copyFrom handle store clock source total generalizing cell with
  | case1 handle store clock source total rest hread =>
    rw [Plain.Handle.copyFrom_of_end hread]
    exact ⟨rfl, rfl, rfl, ⟨cell, hcell, hsound, rfl⟩, fun _ => rfl⟩
  | case2 handle store clock source total b bytes rest hread e handle' store' hwrite =>
    have hw := write_plain htarget hcell hsound hgrows (clock 0) (b :: bytes)
    rw [Plain.Handle.copyFrom_of_data hread]
    rw [hwrite] at hw
    rcases hplain : handle.plain.write store.config cell.plain (clock 0) (b :: bytes) with ⟨r, p, f⟩
    rw [hplain] at hw
    obtain rfl : .error e = r := hw.answer
    exact hw
  | case3 handle store clock source total b bytes rest hread n handle' store' hwrite ih =>
    have hw := write_plain htarget hcell hsound hgrows (clock 0) (b :: bytes)
    have hconfig : store'.config = store.config := by
      have hchanges : Store.Changes (fun _ => True) store _ :=
        handle.write_changes store (clock 0) (b :: bytes)
      rw [hwrite] at hchanges
      exact hchanges.config_eq
    rw [Plain.Handle.copyFrom_of_data hread]
    rw [hwrite] at hw
    rcases hplain : handle.plain.write store.config cell.plain (clock 0) (b :: bytes) with ⟨r, p, f⟩
    rw [hplain] at hw
    obtain ⟨hanswer, hhandle, htarget', ⟨cell', hcell', hsound', hfile⟩, hdirs⟩ := hw
    obtain rfl : .ok n = r := hanswer
    obtain rfl : handle'.plain = p := hhandle
    obtain rfl : cell'.plain = f := hfile
    have hrest := ih (htarget'.trans htarget) hcell' hsound' (by rwa [hconfig])
    rw [hconfig] at hrest
    exact ⟨hrest.answer, hrest.handle, hrest.target.trans htarget', hrest.cell,
      fun i => (hrest.dirs i).trans (hdirs i)⟩
  | case4 handle store clock source total e rest hread hkind ih =>
    rw [Plain.Handle.copyFrom_of_failure hread, if_pos hkind]
    exact ih htarget hcell hsound hgrows
  | case5 handle store clock source total e rest hread hkind =>
    rw [Plain.Handle.copyFrom_of_failure hread, if_neg hkind]
    exact ⟨rfl, rfl, rfl, ⟨cell, hcell, hsound, rfl⟩, fun _ => rfl⟩

theorem readFrom_plain (htarget : handle.target = .file inode)
    (hcell : store.cell? inode = some cell) (hsound : cell.Sound bound)
    (hgrows : store.config.GrowsWithin bound) (clock : Clock) (source : Source) :
    Writes bound store handle inode (handle.readFrom store clock source).1
      (handle.plain.readFrom store.config cell.plain clock source) := by
  unfold readFrom Plain.Handle.readFrom
  rw [checkWritable_plain htarget]
  cases handle.plain.checkWritable with
  | error e => exact ⟨rfl, rfl, rfl, ⟨cell, hcell, hsound, rfl⟩, fun _ => rfl⟩
  | ok u => exact copyFrom_plain htarget hcell hsound hgrows clock source 0

/-- Opening a file opens the plain file that its cell holds. -/
theorem onNode_plain (hcell : store.cell? inode = some cell) (hsound : cell.Sound bound)
    (flags : OpenFlags) (path base : String) :
    (onNode store inode flags path base).1.target = .file inode ∧
      (∃ opened, (onNode store inode flags path base).2.cell? inode = some opened ∧
        opened.Sound bound ∧
        ((onNode store inode flags path base).1.plain, opened.plain) =
          Plain.Handle.openOn cell.plain flags path) ∧
      ∀ i, (onNode store inode flags path base).2.dir? i = store.dir? i := by
  have hdir : store.dir? inode = none := store.dir?_eq_none_of_cell? hcell
  unfold onNode
  rw [hdir]
  unfold openFile Plain.Handle.openOn
  by_cases htrunc : flags.has .trunc
  · simp only [htrunc, if_true]
    have hkept : (store.modifyCell inode Cell.truncate).cell? inode = some cell.truncate := by
      rw [store.cell?_modifyCell, if_pos rfl, hcell]
      rfl
    refine ⟨trivial, ⟨cell.truncate, hkept, hsound.truncate, ?_⟩, fun i => by simp⟩
    rw [Cell.plain_truncate hsound, hkept]
    rfl
  · simp only [htrunc, if_false, Bool.false_eq_true]
    refine ⟨trivial, ⟨cell, hcell, hsound, ?_⟩, fun i => trivial⟩
    have hlength : cell.plain.bytes.length = cell.size := hsound.length_active
    rw [hcell, hlength]
    rfl

end VirtualFs.Tree.Handle
