import VirtualFs.Proofs.Tree.Handles
import VirtualFs.Tree.Stream

namespace VirtualFs.Tree

/-- The operation closes the handle `index`. -/
def Command.closes (index : Nat) : Command → Bool
  | handle i command => i == index && command.isClose
  | _ => false

/-- The call closes the handle `index`. No stream does. -/
def Call.closes (index : Nat) : Call → Bool
  | .command c => c.closes index
  | .stream .. => false

/-- What an operation that opens a path opens it with: the path, the flags and the mode of what is
made. Reading and writing a whole file open it too. -/
def ViewCommand.opening? (config : Config) : ViewCommand → Option (String × OpenFlags × FileMode)
  | openRead path => some (path, .rdonly, ⟨0⟩)
  | openFile path flags mode => some (path, flags, mode)
  | create path => some (path, View.anew, FileMode.file config.fileMode)
  | content path => some (path, .rdonly, ⟨0⟩)
  | writeFile path _ mode => some (path, View.anew, mode)
  | _ => none

/-- The handle that an operation of the view opens. -/
def View.opened? (view : View) (store : Store) (clock : Clock) (command : ViewCommand) :
    Option Handle :=
  match command.opening? store.config with
  | some (path, flags, mode) => (view.openNode store clock path flags mode).1.toOption
  | none => none

theorem StreamCommand.isClose_of_command? {stream : StreamCommand} {command : HandleCommand}
    (hcommand : stream.command? = some command) : command.isClose = false := by
  cases stream <;> cases hcommand <;> rfl

namespace Session

variable {session : Session} {index : Nat} {handle : Handle}

/-- A handle that stays as it is changes nothing. -/
theorem handles_set_self (hget : session.handles[index]? = some handle) :
    session.handles.set index handle = session.handles := by
  obtain ⟨hindex, rfl⟩ := List.getElem?_eq_some_iff.mp hget
  exact List.set_getElem_self hindex

/-- A step of a handle is what the handle does, kept under its number. -/
theorem step_handle (hget : session.handles[index]? = some handle) (clock : Clock)
    (command : HandleCommand) :
    session.step clock (.handle index command) =
      ((handle.perform session.store clock command).1,
        { session with
          store := (handle.perform session.store clock command).2.2
          handles := session.handles.set index (handle.perform session.store clock command).2.1 }) := by
  simp only [step, hget]
  cases command with
  | readAt n offset => simp only [handleStep, Handle.perform, handles_set_self hget]
  | stat => simp only [handleStep, Handle.perform, handles_set_self hget]
  | _ => rfl

/-- The handles of a view come behind those that there were, and are those that it has opened. -/
theorem handles_viewStep_eq (session : Session) (clock : Clock) (view : View)
    (command : ViewCommand) :
    ∃ taken, (session.viewStep clock view command).2.handles = session.handles ++ taken ∧
      (taken = [] ∨ ∃ handle, taken = [handle] ∧
        view.opened? session.store clock command = some handle) := by
  have hnone : ∃ taken, session.handles = session.handles ++ taken ∧
      (taken = [] ∨ ∃ handle, taken = [handle] ∧
        view.opened? session.store clock command = some handle) :=
    ⟨[], (List.append_nil _).symm, .inl rfl⟩
  have htaken : ∀ operation path flags mode,
      command.opening? session.store.config = some (path, flags, mode) →
      ∃ taken, (session.takeHandle
          (FsError.tag operation path (view.openNode session.store clock path flags mode).1,
            (view.openNode session.store clock path flags mode).2)).2.handles =
          session.handles ++ taken ∧
        (taken = [] ∨ ∃ handle, taken = [handle] ∧
          view.opened? session.store clock command = some handle) := by
    intro operation path flags mode hopening
    simp only [View.opened?, hopening]
    rcases view.openNode session.store clock path flags mode with ⟨e | handle, opened⟩
    · exact ⟨[], (List.append_nil _).symm, .inl rfl⟩
    · exact ⟨[handle], rfl, .inr ⟨handle, rfl, rfl⟩⟩
  cases command with
  | openRead path => exact htaken .open path .rdonly ⟨0⟩ rfl
  | openFile path flags mode => exact htaken .openFile path flags mode rfl
  | create path =>
    exact htaken .create path View.anew (FileMode.file session.store.config.fileMode) rfl
  | dirIter path =>
    simp only [viewStep]
    split <;> exact hnone
  | sub path =>
    simp only [viewStep]
    split <;> exact hnone
  | _ => exact hnone

/-- A view takes no handle away and leaves all of them as they are. -/
theorem handles_viewStep (session : Session) (clock : Clock) (view : View) (command : ViewCommand) :
    session.handles <+: (session.viewStep clock view command).2.handles := by
  obtain ⟨taken, htaken, -⟩ := session.handles_viewStep_eq clock view command
  rw [htaken]
  exact List.prefix_append _ _

/-- What becomes of a handle in one step. -/
theorem movedOn_step (hget : session.handles[index]? = some handle) (clock : Clock)
    (command : Command) :
    ∃ later, (session.step clock command).2.handles[index]? = some later ∧
      handle.MovedOn (command.closes index) later := by
  cases command with
  | view i command =>
    refine ⟨handle, ?_, .refl handle⟩
    simp only [step]
    split
    · next view _ =>
      obtain ⟨rest, hrest⟩ := session.handles_viewStep clock view command
      rw [← hrest, List.getElem?_append_left (List.getElem?_eq_some_iff.mp hget).1, hget]
    · exact hget
  | pager i command =>
    refine ⟨handle, ?_, .refl handle⟩
    simp only [step]
    split
    · cases command <;> exact hget
    · exact hget
  | handle i command =>
    by_cases hi : i = index
    · subst hi
      rw [step_handle hget, List.getElem?_set_self (List.getElem?_eq_some_iff.mp hget).1]
      refine ⟨_, rfl, ?_⟩
      rw [Command.closes, beq_self_eq_true, Bool.true_and]
      exact handle.movedOn_perform session.store clock command
    · refine ⟨handle, ?_, ?_⟩
      · cases hother : session.handles[i]? with
        | none => simp only [step, hother, hget]
        | some other =>
          rw [step_handle hother]
          exact (List.getElem?_set_ne hi).trans hget
      · rw [Command.closes, beq_false_of_ne hi, Bool.false_and]
        exact .refl handle

/-- What becomes of a handle in one call. -/
theorem movedOn_call (hget : session.handles[index]? = some handle) (clock : Clock) (call : Call) :
    ∃ later, (session.call clock call).2.handles[index]? = some later ∧
      handle.MovedOn (call.closes index) later := by
  cases call with
  | command command => exact movedOn_step hget clock command
  | stream i stream =>
    cases hcommand : stream.command? with
    | none =>
      simp only [call, streamStep, hcommand]
      exact ⟨handle, hget, .refl handle⟩
    | some command =>
      have hmoved := movedOn_step hget clock (.handle i command)
      rw [Command.closes, StreamCommand.isClose_of_command? hcommand, Bool.and_false] at hmoved
      simp only [call, streamStep, hcommand]
      exact hmoved

/-- What becomes of a handle along a run of calls. -/
theorem movedOn_calls (hget : session.handles[index]? = some handle) (calls : List (Clock × Call)) :
    ∃ later, (session.calls calls).2.handles[index]? = some later ∧
      handle.MovedOn (calls.any (·.2.closes index)) later := by
  induction calls generalizing session handle with
  | nil => exact ⟨handle, hget, .refl handle⟩
  | cons c rest ih =>
    obtain ⟨next, hnext, hmoved⟩ := movedOn_call hget c.1 c.2
    obtain ⟨later, hlater, hrest⟩ := ih hnext
    exact ⟨later, hlater, hmoved.trans hrest⟩

/-- A run of commands is a run of calls. -/
theorem run_eq_calls (session : Session) (commands : List (Clock × Command)) :
    (session.run commands).2 =
      (session.calls (commands.map fun c => (c.1, .command c.2))).2 := by
  induction commands generalizing session with
  | nil => rfl
  | cons c rest ih => exact ih (session.step c.1 c.2).2

/-- What becomes of a handle along a run. -/
theorem movedOn_run (hget : session.handles[index]? = some handle)
    (commands : List (Clock × Command)) :
    ∃ later, (session.run commands).2.handles[index]? = some later ∧
      handle.MovedOn (commands.any (·.2.closes index)) later := by
  have hmoved := movedOn_calls hget (commands.map fun c => (c.1, .command c.2))
  rw [List.any_map] at hmoved
  rw [run_eq_calls]
  exact hmoved

end Session

end VirtualFs.Tree
