import VirtualFs.Proofs.Tree.HandleFrame
import VirtualFs.Proofs.Tree.Opening
import VirtualFs.Proofs.Tree.Refusal

namespace VirtualFs.Tree

namespace Handle

variable {handle : Handle} {store : Store} {i : Nat}

/-- A handle changes no file but the one that it is open on. -/
theorem cell?_perform_of_ne (hne : handle.target ≠ .file i) (store : Store) (clock : Clock)
    (command : HandleCommand) :
    (handle.perform store clock command).2.2.cell? i = store.cell? i := by
  cases htarget : handle.target with
  | dir j => rw [store_perform_of_dir htarget]
  | file j =>
    obtain ⟨change, hstore⟩ := handle.store_perform store clock command
    rw [htarget] at hstore hne
    rw [hstore, Store.cell?_modifyCell, if_neg]
    rintro rfl
    exact hne rfl

theorem cell?_write_of_ne (hne : handle.target ≠ .file i) (store : Store) (now : Time)
    (data : Bytes) : (handle.write store now data).2.2.cell? i = store.cell? i :=
  cell?_perform_of_ne hne store (fun _ => now) (.write data)

/-- A handle that is closed or whose flags do not allow it writes nothing. -/
theorem store_perform_of_unwritable (hnot : ¬ (handle.closed = false ∧ handle.flags.writable = true))
    {command : HandleCommand} (hwrites : command.writes = true) (store : Store) (clock : Clock) :
    (handle.perform store clock command).2.2 = store := by
  have hrefusal : ∃ cause, handle.refusal? .writing = some cause := by
    unfold refusal?
    cases hclosed : handle.closed with
    | true => exact ⟨.closed, rfl⟩
    | false =>
      have hreadOnly : handle.flags.writable = false := by simpa [hclosed] using hnot
      cases handle.target.isDir with
      | true => exact ⟨.isADirectory handle.path, rfl⟩
      | false => exact ⟨.readOnly, by simp [hreadOnly]⟩
  obtain ⟨cause, hrefusal⟩ := hrefusal
  have hneed : command.need = .writing := by
    cases command with
    | write data => rfl
    | readFrom source => rfl
    | _ => cases hwrites
  rw [← hneed] at hrefusal
  rw [perform_of_refusal hrefusal]

theorem store_perform_of_reading {command : HandleCommand} (hreads : command.writes = false)
    (handle : Handle) (store : Store) (clock : Clock) :
    (handle.perform store clock command).2.2 = store := by
  cases command with
  | write data => cases hreads
  | readFrom source => cases hreads
  | _ => rfl

end Handle

/-- The operation goes on to write to the file that it has opened. -/
def ViewCommand.refills : ViewCommand → Bool
  | writeFile .. => true
  | _ => false

/-- The same of an operation of a session. -/
def Command.refills : Command → Bool
  | view _ command => command.refills
  | _ => false

/-- The operation writes through the handle `index`. -/
def Command.writesThrough (index : Nat) : Command → Bool
  | handle i command => i == index && command.writes
  | _ => false

namespace Session

variable {session : Session} {clock : Clock} {command : Command} {index inode : Nat}
  {handle later : Handle} {c : Cell}

/-- The operation writes to the file `inode` through an open handle whose flags allow it. -/
def WritesTo (session : Session) (inode : Nat) : Command → Prop
  | .handle index command =>
    command.writes = true ∧ ∃ handle, session.handles[index]? = some handle ∧
      handle.target = .file inode ∧ handle.closed = false ∧ handle.flags.writable = true
  | _ => False

/-- What an operation that opens `opened` makes of the file `inode`. -/
structure OpensFor (later : Store) (opened : Option Handle) (refills : Bool) (inode : Nat)
    (c : Cell) : Prop where
  emptied : ∀ handle, opened = some handle → handle.Empties inode → refills = false →
    later.cell? inode = some c.truncate
  kept : (∀ handle, opened = some handle → ¬ handle.Empties inode) → later.cell? inode = some c

theorem opensFor_of_kept {later : Store} (hcell : later.cell? inode = some c) (refills : Bool) :
    OpensFor later none refills inode c :=
  ⟨fun _ hopened => (by cases hopened), fun _ => hcell⟩

/-- An operation of a view empties the file that it opens if it is told to, and changes no other
file. What it writes afterwards it writes into the file that it has emptied. -/
theorem opensFor_viewStep {view : View} (hroot : (session.store.dir? view.root).isSome)
    (hcell : session.store.cell? inode = some c) (clock : Clock) (command : ViewCommand) :
    OpensFor (session.viewStep clock view command).2.store
      (view.opened? session.store clock command) command.refills inode c := by
  have hopens : ∀ {path flags mode store},
      command.opening? session.store.config = some (path, flags, mode) →
      store = (view.openNode session.store clock path flags mode).2 →
      OpensFor store (view.opened? session.store clock command) command.refills inode c := by
    rintro path flags mode _ hopening rfl
    simp only [View.opened?, hopening]
    rcases hopen : view.openNode session.store clock path flags mode with ⟨e | handle, opened⟩
    · exact opensFor_of_kept (View.cell?_openNode_of_error hroot hcell hopen) _
    · have hafter := View.cell?_openNode_of_ok hroot hcell hopen
      constructor
      · rintro _ hopened hempties -
        obtain rfl := Option.some.inj hopened
        rwa [if_pos hempties] at hafter
      · intro hnone
        rwa [if_neg (hnone handle rfl)] at hafter
  cases command with
  | openRead path => exact hopens rfl (store_takeHandle_tag ..)
  | openFile path flags mode => exact hopens rfl (store_takeHandle_tag ..)
  | create path => exact hopens rfl (store_takeHandle_tag ..)
  | content path =>
    refine hopens rfl ?_
    simp only [viewStep, View.content]
    split <;> next heq => rw [heq]
  | mkdir path mode =>
    exact opensFor_of_kept ((Store.cell?_mkdir hroot clock path mode inode).trans hcell) _
  | mkdirAll path mode =>
    exact opensFor_of_kept ((Store.cell?_mkdirAll hroot clock path mode inode).trans hcell) _
  | writeFile path data mode =>
    simp only [View.opened?, ViewCommand.opening?]
    rcases hopen : view.openNode session.store clock path View.anew mode with ⟨e | handle, opened⟩
    · have hafter := View.cell?_openNode_of_error hroot hcell hopen
      simp only [viewStep, View.writeFile, hopen]
      exact opensFor_of_kept hafter _
    · refine ⟨fun _ _ _ hrefills => (by cases hrefills), fun hnone => ?_⟩
      have hempties : ¬ handle.Empties inode := hnone handle rfl
      have hne : handle.target ≠ .file inode := by
        intro htarget
        refine hempties ⟨htarget, ?_⟩
        rw [View.flags_of_openNode hopen htarget]
        exact View.has_trunc_anew
      have hafter := View.cell?_openNode_of_ok hroot hcell hopen
      rw [if_neg hempties] at hafter
      simp only [viewStep, View.writeFile, hopen]
      exact (Handle.cell?_write_of_ne hne opened _ data).trans hafter
  | close =>
    refine opensFor_of_kept ?_ _
    simp only [viewStep, settle, View.close]
    split
    · exact hcell
    split
    · exact hcell
    · exact hcell
  | dirIter path =>
    simp only [viewStep]
    split <;> exact opensFor_of_kept hcell _
  | sub path =>
    simp only [viewStep]
    split <;> exact opensFor_of_kept hcell _
  | _ => exact opensFor_of_kept hcell _

/-- The operation empties the file `inode`: it opens the file and is told to. -/
def Empties (session : Session) (clock : Clock) (inode : Nat) (command : Command) : Prop :=
  ∃ handle, session.opened? clock command = some handle ∧ handle.Empties inode

/-- A file that is emptied is left without bytes. -/
theorem cell?_step_of_empties (hrooted : session.Rooted)
    (hcell : session.store.cell? inode = some c)
    (hempties : session.Empties clock inode command) (hrefills : command.refills = false) :
    (session.step clock command).2.store.cell? inode = some c.truncate := by
  obtain ⟨handle, hopened, hempties⟩ := hempties
  cases command with
  | handle index command => cases hopened
  | pager index command => cases hopened
  | view index command =>
    obtain ⟨view, hview, hopened⟩ := Option.bind_eq_some_iff.mp hopened
    have hroot := hrooted view (List.mem_of_getElem? hview)
    simp only [step, hview]
    exact (opensFor_viewStep hroot hcell clock command).emptied handle hopened hempties hrefills

/-- A file that is neither written to nor emptied is left as it is. -/
theorem cell?_step_of_kept (hrooted : session.Rooted)
    (hcell : session.store.cell? inode = some c) (hwrites : ¬ session.WritesTo inode command)
    (hempties : ¬ session.Empties clock inode command) :
    (session.step clock command).2.store.cell? inode = some c := by
  cases command with
  | view index command =>
    cases hview : session.views[index]? with
    | none => simpa only [step, hview] using hcell
    | some view =>
      have hroot := hrooted view (List.mem_of_getElem? hview)
      simp only [step, hview]
      refine (opensFor_viewStep hroot hcell clock command).kept fun handle hopened hempty => ?_
      exact hempties ⟨handle, by simp only [opened?, hview, Option.bind_some, hopened], hempty⟩
  | handle index command =>
    cases hget : session.handles[index]? with
    | none => simpa only [step, hget] using hcell
    | some handle =>
      rw [step_handle hget]
      by_cases htarget : handle.target = .file inode
      · cases hwritesAtAll : command.writes with
        | false => rwa [Handle.store_perform_of_reading hwritesAtAll]
        | true =>
          have hunwritable : ¬ (handle.closed = false ∧ handle.flags.writable = true) :=
            fun hopen => hwrites ⟨hwritesAtAll, handle, hget, htarget, hopen⟩
          rwa [Handle.store_perform_of_unwritable hunwritable hwritesAtAll]
      · exact (Handle.cell?_perform_of_ne htarget session.store clock command).trans hcell
  | pager index command =>
    simp only [step]
    split
    · cases command <;> exact hcell
    · exact hcell

/-- The handles that a run opens, also those that are open for one operation only. -/
def opens (session : Session) : List (Clock × Command) → List Handle
  | [] => []
  | (clock, command) :: rest =>
    (session.opened? clock command).toList ++ opens (session.step clock command).2 rest

/-- Along the run the file is opened for reading only and never emptied, and handles from before that
allow writing are not written through. -/
structure OnlyRead (session : Session) (inode : Nat) (commands : List (Clock × Command)) : Prop where
  opens : ∀ handle ∈ session.opens commands, handle.target = .file inode →
    handle.flags.access = .readOnly ∧ handle.flags.has .trunc = false
  held : ∀ index handle, session.handles[index]? = some handle → handle.target = .file inode →
    handle.flags.access ≠ .readOnly → ∀ c ∈ commands, c.2.writesThrough index = false

theorem OnlyRead.tail {rest : List (Clock × Command)}
    (honly : session.OnlyRead inode ((clock, command) :: rest)) :
    (session.step clock command).2.OnlyRead inode rest where
  opens := fun handle hopened => honly.opens handle (List.mem_append_right _ hopened)
  held := by
    intro index later hget htarget haccess c hc
    rcases exists_handle_or_opened hget with ⟨handle, hold, hsame, hflags⟩ | hopened
    · rw [hsame] at htarget
      rw [hflags] at haccess
      exact honly.held index handle hold htarget haccess c (List.mem_cons_of_mem _ hc)
    · have hmem : later ∈ session.opens ((clock, command) :: rest) :=
        List.mem_append_left _ (by simp [hopened])
      exact absurd (honly.opens later hmem htarget).1 haccess

theorem cell?_run_of_onlyRead (hreach : session.Reachable)
    (hcell : session.store.cell? inode = some c) {commands : List (Clock × Command)}
    (honly : session.OnlyRead inode commands) :
    (session.run commands).2.store.cell? inode = some c := by
  induction commands generalizing session with
  | nil => exact hcell
  | cons first rest ih =>
    obtain ⟨clock, command⟩ := first
    refine ih (.step hreach trivial) (cell?_step_of_kept hreach.rooted hcell ?_ ?_) honly.tail
    · intro hwrites
      cases command with
      | view index command => exact hwrites
      | pager index command => exact hwrites
      | handle index command =>
        obtain ⟨hwrite, handle, hget, htarget, -, hwritable⟩ := hwrites
        have hunused := honly.held index handle hget htarget
          (by simpa [OpenFlags.writable] using hwritable) _ List.mem_cons_self
        simp [Command.writesThrough, hwrite] at hunused
    · rintro ⟨handle, hopened, htarget, htrunc⟩
      have hmem : handle ∈ session.opens ((clock, command) :: rest) :=
        List.mem_append_left _ (by simp [hopened])
      exact absurd ((honly.opens handle hmem htarget).2.symm.trans htrunc) Bool.false_ne_true

/-- The content of a file changes by writes through handles that allow it and by opens that empty the
file, and by nothing else. Along a run in which the file is opened for reading only, without being
emptied, and not written through a handle from before, it stays what it is, with the rest of its
cell. -/
theorem cell?_step_and_run_of_onlyRead (hreach : session.Reachable)
    (hcell : session.store.cell? inode = some c) :
    (∀ clock command, (session.step clock command).2.store.cell? inode ≠ some c →
      session.WritesTo inode command ∨ session.Empties clock inode command) ∧
    (∀ clock command, session.Empties clock inode command → command.refills = false →
      (session.step clock command).2.store.cell? inode = some c.truncate) ∧
    ∀ commands, session.OnlyRead inode commands →
      (session.run commands).2.store.cell? inode = some c := by
  refine ⟨fun clock command hchanged => ?_,
    fun clock command => cell?_step_of_empties hreach.rooted hcell,
    fun commands => cell?_run_of_onlyRead hreach hcell⟩
  by_contra hneither
  rw [not_or] at hneither
  exact hchanged (cell?_step_of_kept hreach.rooted hcell hneither.1 hneither.2)

/-- A file with two bytes, and a handle on it that allows writing. -/
def filledFile : Session :=
  (emptyTree.run [(fun k => k, .view 0 (.create "f")), (fun k => k + 9, .handle 0 (.write [1, 2]))]).2

theorem filledFile_reachable : filledFile.Reachable :=
  emptyTree_reachable.run _

/-- Opens for reading with other flags, a write through the handle of one of them, and reading through
the handle that would allow writing. -/
def onlyReading : List (Clock × Command) :=
  [(fun k => k, .view 0 (.openFile "f" (.union .append .create) ⟨0o644⟩)),
    (fun k => k + 20, .handle 1 (.write [3])), (fun k => k, .view 0 (.content "f")),
    (fun k => k, .view 0 (.create "g")), (fun k => k + 30, .handle 2 (.write [4])),
    (fun k => k, .handle 0 (.read 9))]

theorem cell?_step_and_run_of_onlyRead_onlyReading :
    filledFile.Reachable ∧ ∃ c, filledFile.store.cell? 2 = some c ∧ c.active = [1, 2] ∧
      filledFile.OnlyRead 2 onlyReading ∧
      (filledFile.run onlyReading).2.store.cell? 2 = some c ∧
      (filledFile.run onlyReading).1[1]? = some (.error (.tagged .write "f" .readOnly)) := by
  obtain ⟨c, hcell, hactive⟩ : ∃ c, filledFile.store.cell? 2 = some c ∧ c.active = [1, 2] := by
    refine ⟨(filledFile.store.cell? 2).get (by decide +kernel), ?_, by decide +kernel⟩
    exact (Option.some_get _).symm
  have honly : filledFile.OnlyRead 2 onlyReading := by
    refine ⟨by decide +kernel, fun index handle hget _ _ => ?_⟩
    have hlength : filledFile.handles.length = 1 := by decide +kernel
    obtain rfl : index = 0 := by
      have hbound := (List.getElem?_eq_some_iff.mp hget).1
      omega
    decide
  exact ⟨filledFile_reachable, c, hcell, hactive, honly,
    (cell?_step_and_run_of_onlyRead filledFile_reachable hcell).2.2 onlyReading honly,
    by decide +kernel⟩

/-- Opening for reading only does not by itself protect the content: with the flag for emptying the
file it loses its bytes. -/
theorem not_forall_cell?_run_of_readOnly :
    ¬ ∀ (session : Session) (inode : Nat) (c : Cell) (commands : List (Clock × Command)),
      session.Reachable → session.store.cell? inode = some c →
      (∀ handle ∈ session.opens commands, handle.target = .file inode →
        handle.flags.access = .readOnly) →
      (∀ index, ∀ c ∈ commands, c.2.writesThrough index = false) →
      ∃ c', (session.run commands).2.store.cell? inode = some c' ∧ c'.active = c.active ∧
        c'.size = c.size := by
  intro h
  have hcell : filledFile.store.cell? 2 =
      some ((filledFile.store.cell? 2).get (by decide +kernel)) := (Option.some_get _).symm
  obtain ⟨c', hcell', -, hsize⟩ := h filledFile 2 _
    [(fun k => k, .view 0 (.openFile "f" (.union .rdonly .trunc) ⟨0⟩))] filledFile_reachable hcell
    (by decide +kernel) (fun index => by simp [Command.writesThrough])
  have hempty : ((filledFile.run
      [(fun k => k, .view 0 (.openFile "f" (.union .rdonly .trunc) ⟨0⟩))]).2.store.cell? 2).map
        (·.size) = some 0 := by decide +kernel
  rw [hcell', Option.map_some, hsize] at hempty
  revert hempty
  decide +kernel

end Session

end VirtualFs.Tree
