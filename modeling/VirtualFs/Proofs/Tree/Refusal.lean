import VirtualFs.Proofs.Tree.HandleStep
import VirtualFs.Proofs.Tree.ReadBack

namespace VirtualFs.Tree

/-- What an operation needs its handle to allow. -/
inductive Need where
  | reading
  | writing
  | listing
  /-- It needs the handle to be open, and no more. -/
  | open
  deriving Repr, DecidableEq

namespace HandleCommand

def need : HandleCommand → Need
  | read _ | readAt _ _ | readToEnd _ | seek _ => .reading
  | write _ | readFrom _ => .writing
  | readDir _ => .listing
  | stat | close => .open

/-- The operation that its errors name. -/
def operation : HandleCommand → Operation
  | read _ | readToEnd _ => .read
  | readAt _ _ => .readAt
  | seek _ => .seek
  | write _ => .write
  | readFrom _ => .readFrom
  | readDir _ => .readDir
  | stat => .stat
  | close => .close

end HandleCommand

namespace Handle

/-- Why the handle refuses what is needed of it, if it does: first because it is closed, then because
of its node, and last because of its flags. The flags of a handle on a directory do not matter. -/
def refusal? (handle : Handle) (need : Need) : Option FsError :=
  if handle.closed then some .closed
  else
    match need with
    | .reading =>
      if handle.target.isDir then some (.isADirectory handle.path)
      else if handle.flags.readable then none
      else some .writeOnly
    | .writing =>
      if handle.target.isDir then some (.isADirectory handle.path)
      else if handle.flags.writable then none
      else some .readOnly
    | .listing => if handle.target.isDir then none else some (.notADirectory handle.path)
    | .open => none

variable {handle : Handle} {store : Store} {clock : Clock} {command : HandleCommand}
  {cause : FsError}

theorem closed_of_refusal (hrefusal : handle.refusal? .open = some cause) :
    handle.closed = true ∧ cause = .closed := by
  simp only [refusal?] at hrefusal
  split at hrefusal
  · next hclosed => exact ⟨hclosed, (Option.some.inj hrefusal).symm⟩
  · cases hrefusal

theorem checkReadable_of_refusal (hrefusal : handle.refusal? .reading = some cause) :
    handle.checkReadable = .error cause := by
  simp only [refusal?] at hrefusal
  unfold checkReadable checkTransfer
  split_ifs at hrefusal ⊢ <;> cases hrefusal <;> rfl

theorem checkWritable_of_refusal (hrefusal : handle.refusal? .writing = some cause) :
    handle.checkWritable = .error cause := by
  simp only [refusal?] at hrefusal
  unfold checkWritable checkTransfer
  split_ifs at hrefusal ⊢ <;> cases hrefusal <;> rfl

theorem readDir_of_refusal (hrefusal : handle.refusal? .listing = some cause) (n : Int) :
    handle.readDir store n = (.error (handle.failure .readDir cause), handle) := by
  simp only [refusal?] at hrefusal
  unfold readDir
  split_ifs at hrefusal ⊢ with hclosed hdir
  · cases hrefusal
    rfl
  · cases htarget : handle.target with
    | dir i => simp [htarget, Target.isDir] at hdir
    | file i =>
      cases hrefusal
      rfl

/-- A refused operation fails with the reason and changes nothing. -/
theorem perform_of_refusal (hrefusal : handle.refusal? command.need = some cause) :
    handle.perform store clock command =
      (.error (handle.failure command.operation cause), handle, store) := by
  cases command with
  | read n => simp only [perform, read, checkReadable_of_refusal hrefusal]; rfl
  | readAt n offset => simp only [perform, readAt, checkReadable_of_refusal hrefusal]; rfl
  | readToEnd out => simp only [perform, readToEnd, checkReadable_of_refusal hrefusal]; rfl
  | seek goal => simp only [perform, seek, checkReadable_of_refusal hrefusal]; rfl
  | write data => simp only [perform, write, checkWritable_of_refusal hrefusal]; rfl
  | readFrom source => simp only [perform, readFrom, checkWritable_of_refusal hrefusal]; rfl
  | readDir n => simp only [perform, readDir_of_refusal hrefusal]; rfl
  | stat =>
    obtain ⟨hclosed, rfl⟩ := closed_of_refusal hrefusal
    simp only [perform, stat, hclosed, if_true]
    rfl
  | close =>
    obtain ⟨hclosed, rfl⟩ := closed_of_refusal hrefusal
    simp only [perform, close, hclosed, if_true]
    rfl

/-- A refused transfer does not read its source. -/
theorem readFrom_source_of_refusal (hrefusal : handle.refusal? .writing = some cause)
    (source : Source) : (handle.readFrom store clock source).2 = source := by
  simp only [readFrom, checkWritable_of_refusal hrefusal]

end Handle

namespace Session

variable {session : Session} {index : Nat} {handle : Handle} {command : HandleCommand}
  {cause : FsError}

/-- The session refuses an operation of the handle `index` for this reason: it answers with it,
stays as it is and does not touch the source of a transfer. As a byte stream it does the same with
the error of a stream. -/
structure Refuses (session : Session) (clock : Clock) (index : Nat) (handle : Handle)
    (command : HandleCommand) (cause : FsError) : Prop where
  step : session.step clock (.handle index command) =
    (.error (.tagged command.operation handle.path cause), session)
  source : ∀ source, command = .readFrom source →
    (handle.readFrom session.store clock source).2 = source
  stream : ∀ stream : StreamCommand, stream.command? = some command →
    session.streamStep clock index stream =
      (.error ⟨FsError.ioKind cause.kind,
        (FsError.tagged command.operation handle.path cause).message⟩, session)

theorem refuses_of_refusal (hget : session.handles[index]? = some handle) (clock : Clock)
    (hrefusal : handle.refusal? command.need = some cause) :
    session.Refuses clock index handle command cause := by
  have hstep : session.step clock (.handle index command) =
      (.error (.tagged command.operation handle.path cause), session) := by
    rw [step_handle hget, Handle.perform_of_refusal hrefusal, handles_set_self hget]
    rfl
  refine ⟨hstep, ?_, ?_⟩
  · rintro source rfl
    exact Handle.readFrom_source_of_refusal hrefusal source
  · intro stream hcommand
    simp only [streamStep, hcommand, hstep]
    rfl

/-- What the session does with its handle `index`, which is `handle` now. -/
structure Guards (session : Session) (index : Nat) (handle : Handle) : Prop where
  /-- The handle takes its node for what it is. -/
  kind : handle.target.isDir = true ↔ (session.store.dir? handle.target.inode).isSome
  /-- What the handle has a reason to refuse is refused. -/
  refuses : ∀ clock command cause, handle.refusal? command.need = some cause →
    session.Refuses clock index handle command cause
  /-- The first close succeeds. -/
  closes : handle.closed = false →
    ∀ clock, (session.step clock (.handle index .close)).1 = .ok .done
  /-- A stream can be flushed at any time. -/
  flushes : ∀ clock, session.streamStep clock index .flush = (.ok .done, session)

theorem guards_of_reachable (hreach : session.Reachable)
    (hget : session.handles[index]? = some handle) : session.Guards index handle := by
  refine ⟨?_, fun clock command cause => refuses_of_refusal hget clock, ?_, fun clock => rfl⟩
  · have hstands := hreach.aimed.stands hget
    cases htarget : handle.target with
    | dir i =>
      rw [htarget] at hstands
      exact iff_of_true rfl hstands
    | file i =>
      rw [htarget] at hstands
      obtain ⟨cell, hcell⟩ := Option.isSome_iff_exists.mp hstands
      have hnone : session.store.dir? (Target.file i).inode = none :=
        session.store.dir?_eq_none_of_cell? hcell
      simp [Target.isDir, hnone]
  · intro hopen clock
    rw [step_handle hget]
    simp [Handle.perform, Handle.close, hopen, Except.map]

theorem ReachableBy.calls (hreach : session.Reachable) (calls : List (Clock × Call)) :
    (session.calls calls).2.Reachable := by
  induction calls generalizing session with
  | nil => exact hreach
  | cons c rest ih =>
    refine ih ?_
    obtain ⟨clock, command | ⟨i, stream⟩⟩ := c
    · exact .step hreach trivial
    · cases hcommand : stream.command? with
      | none => simpa only [call, streamStep, hcommand] using hreach
      | some command =>
        simp only [streamStep, hcommand]
        exact .step hreach trivial

/-- Along any run of calls a handle stays open as it was opened until it is closed, and is closed
from its first close on. What it refuses then, for being closed, for its node or for its flags, it
refuses without a trace. -/
theorem guards_calls (hreach : session.Reachable) (hget : session.handles[index]? = some handle)
    (calls : List (Clock × Call)) :
    ∃ later, (session.calls calls).2.handles[index]? = some later ∧
      later.target = handle.target ∧ later.flags = handle.flags ∧ later.path = handle.path ∧
      (later.closed = true ↔ handle.closed = true ∨ ∃ c ∈ calls, c.2.closes index = true) ∧
      (session.calls calls).2.Guards index later := by
  obtain ⟨later, hlater, readOff, writeOff, pager, rfl⟩ := movedOn_calls hget calls
  exact ⟨_, hlater, rfl, rfl, rfl, by simp, guards_of_reachable (hreach.calls calls) hlater⟩

/-- A handle on the root, opened for reading and writing. -/
def rootOpened : Session :=
  (emptyTree.step (fun k => k) (.view 0 (.openFile "." .rdwr ⟨0⟩))).2

theorem guards_calls_rootOpened :
    rootOpened.Reachable ∧ rootOpened.handles[0]? = some (.onDir 1 "." ".") ∧
      ∃ later, (rootOpened.calls [(fun k => k, .stream 0 (.write [1])),
          (fun k => k, .command (.handle 0 .close))]).2.handles[0]? = some later ∧
        later.closed = true ∧ later.refusal? .open = some .closed := by
  have hreach : rootOpened.Reachable := .step emptyTree_reachable trivial
  have hget : rootOpened.handles[0]? = some (.onDir 1 "." ".") := by decide +kernel
  obtain ⟨later, hlater, -, -, -, hclosed, -⟩ := guards_calls hreach hget
    [(fun k => k, .stream 0 (.write [1])), (fun k => k, .command (.handle 0 .close))]
  have hnow : later.closed = true :=
    hclosed.mpr (.inr ⟨_, List.mem_cons_of_mem _ List.mem_cons_self, by decide⟩)
  exact ⟨hreach, hget, later, hlater, hnow, by simp [Handle.refusal?, hnow]⟩

end Session

end VirtualFs.Tree
