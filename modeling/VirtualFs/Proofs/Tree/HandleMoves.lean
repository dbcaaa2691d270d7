import VirtualFs.Tree.Session

namespace VirtualFs.Tree

/-- The operation closes its handle. -/
def HandleCommand.isClose : HandleCommand → Bool
  | close => true
  | _ => false

namespace Handle

/-- The handle moved on: its cursors and its paged reading may be elsewhere, and it is closed if it
was before or if it was closed in between. -/
def MovedOn (handle : Handle) (closing : Bool) (later : Handle) : Prop :=
  ∃ readOff writeOff pager, later =
    ⟨handle.target, handle.flags, handle.path, handle.base, readOff, writeOff,
      handle.closed || closing, pager⟩

variable {handle later last : Handle} {store : Store}

theorem MovedOn.refl (handle : Handle) : handle.MovedOn false handle :=
  ⟨handle.readOff, handle.writeOff, handle.pager, by rw [Bool.or_false]⟩

theorem MovedOn.trans {closing closing' : Bool} (hfirst : handle.MovedOn closing later)
    (hsecond : later.MovedOn closing' last) : handle.MovedOn (closing || closing') last := by
  obtain ⟨_, _, _, rfl⟩ := hfirst
  obtain ⟨readOff, writeOff, pager, rfl⟩ := hsecond
  exact ⟨readOff, writeOff, pager, by rw [Bool.or_assoc]⟩

theorem MovedOn.target_eq {closing : Bool} (hmoved : handle.MovedOn closing later) :
    later.target = handle.target := by
  obtain ⟨_, _, _, rfl⟩ := hmoved
  rfl

theorem movedOn_read (handle : Handle) (store : Store) (n : Nat) :
    handle.MovedOn false (handle.read store n).2 := by
  unfold read
  split
  · exact .refl handle
  · exact ⟨_, _, _, by rw [Bool.or_false]⟩

theorem movedOn_readToEnd (handle : Handle) (store : Store) (out : Bytes) :
    handle.MovedOn false (handle.readToEnd store out).2.2 := by
  unfold readToEnd
  split
  · exact .refl handle
  · exact ⟨_, _, _, by rw [Bool.or_false]⟩

theorem movedOn_seek (handle : Handle) (store : Store) (goal : SeekTo) :
    handle.MovedOn false (handle.seek store goal).2 := by
  unfold seek
  split
  · exact .refl handle
  · dsimp only
    split
    · exact ⟨_, _, _, by rw [Bool.or_false]⟩
    · exact .refl handle

theorem movedOn_readDir (handle : Handle) (store : Store) (n : Int) :
    handle.MovedOn false (handle.readDir store n).2 := by
  unfold readDir
  split
  · exact .refl handle
  split
  · exact .refl handle
  split
  · exact .refl handle
  · exact ⟨_, _, _, by rw [Bool.or_false]⟩

theorem movedOn_write (handle : Handle) (store : Store) (now : Time) (data : Bytes) :
    handle.MovedOn false (handle.write store now data).2.1 := by
  unfold write
  split
  · exact .refl handle
  unfold put
  split
  · exact .refl handle
  split
  · exact .refl handle
  · exact ⟨_, _, _, by rw [Bool.or_false]⟩

theorem movedOn_copyFrom (handle : Handle) (store : Store) (clock : Clock) (source : Source)
    (total : Nat) : handle.MovedOn false (handle.copyFrom store clock source total).1.2.1 := by
  fun_induction copyFrom handle store clock source total with
  | case1 => exact .refl _
  | case2 handle store clock source total b bytes rest hread e handle' store' hwrite =>
    have hmoved := handle.movedOn_write store (clock 0) (b :: bytes)
    rwa [hwrite] at hmoved
  | case3 handle store clock source total b bytes rest hread n handle' store' hwrite ih =>
    have hmoved := handle.movedOn_write store (clock 0) (b :: bytes)
    rw [hwrite] at hmoved
    exact hmoved.trans ih
  | case4 handle store clock source total e rest hread hkind ih => exact ih
  | case5 => exact .refl _

theorem movedOn_readFrom (handle : Handle) (store : Store) (clock : Clock) (source : Source) :
    handle.MovedOn false (handle.readFrom store clock source).1.2.1 := by
  unfold readFrom
  split
  · exact .refl handle
  · exact handle.movedOn_copyFrom store clock source 0

theorem movedOn_close (handle : Handle) : handle.MovedOn true handle.close.2 := by
  unfold close
  split
  · next hclosed => exact ⟨_, _, _, by rw [Bool.or_true, ← hclosed]⟩
  · exact ⟨_, _, _, by rw [Bool.or_true]⟩

/-- An operation by itself: the answer, what becomes of the handle, and the tree. -/
def perform (handle : Handle) (store : Store) (clock : Clock) :
    HandleCommand → Except FsError Reply × Handle × Store
  | .read n =>
    let (result, handle) := handle.read store n
    (result.map .data, handle, store)
  | .readAt n offset =>
    ((handle.readAt store n offset).map fun (bytes, eof) => .piece bytes eof, handle, store)
  | .readToEnd out =>
    let (result, whole, handle) := handle.readToEnd store out
    (result.map fun n => .appended n whole, handle, store)
  | .seek goal =>
    let (result, handle) := handle.seek store goal
    (result.map .count, handle, store)
  | .write data =>
    let (result, handle, store) := handle.write store (clock 0) data
    (result.map .count, handle, store)
  | .readFrom source =>
    let ((result, handle, store), _) := handle.readFrom store clock source
    (result.map .count, handle, store)
  | .readDir n =>
    let (result, handle) := handle.readDir store n
    (result.map .page, handle, store)
  | .stat => ((handle.stat store).map .entry, handle, store)
  | .close =>
    let (result, handle) := handle.close
    (result.map fun _ => .done, handle, store)

/-- Whatever is done with a handle, it stays open as it was opened. -/
theorem movedOn_perform (handle : Handle) (store : Store) (clock : Clock)
    (command : HandleCommand) :
    handle.MovedOn command.isClose (handle.perform store clock command).2.1 := by
  cases command with
  | read n => exact handle.movedOn_read store n
  | readAt n offset => exact .refl handle
  | readToEnd out => exact handle.movedOn_readToEnd store out
  | seek goal => exact handle.movedOn_seek store goal
  | write data => exact handle.movedOn_write store (clock 0) data
  | readFrom source => exact handle.movedOn_readFrom store clock source
  | readDir n => exact handle.movedOn_readDir store n
  | stat => exact .refl handle
  | close => exact handle.movedOn_close

end Handle

end VirtualFs.Tree
