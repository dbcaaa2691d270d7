import VirtualFs.Proofs.Content.HandleWords
import VirtualFs.Proofs.Tree.Opening

namespace VirtualFs.Tree

/-- The store in which the file `inode` is opened. Where it is emptied, a slice of its buffer is
overwritten. -/
def Store.emptied? (store : Store) (inode : Nat) (flags : OpenFlags) : Option Store :=
  if flags.has .trunc then
    match store.cell? inode with
    | some cell => cell.truncate?.map fun emptied => store.modifyCell inode fun _ => emptied
    | none => some store
  else some store

/-- `Handle.openFile` in words. -/
def Handle.openFile? (store : Store) (inode : Nat) (flags : OpenFlags) (path base : String) :
    Option (Handle × Store) :=
  (store.emptied? inode flags).map fun store =>
    let size := match store.cell? inode with
      | some cell => cell.size
      | none => 0
    let writeOff := if flags.has .append then size else 0
    (⟨.file inode, flags, path, base, 0, writeOff, false, none⟩, store)

/-- `Handle.onNode` in words. -/
def Handle.onNode? (store : Store) (inode : Nat) (flags : OpenFlags) (path base : String) :
    Option (Handle × Store) :=
  match store.dir? inode with
  | some _ => some (onDir inode path base, store)
  | none => openFile? store inode flags path base

/-- `View.openNode` in words. Making nodes does no sums with positions. -/
def View.openNode? (view : View) (store : Store) (clock : Clock) (path : String)
    (flags : OpenFlags) (mode : FileMode) : Option (Except FsError Handle × Store) :=
  match store.rules.clean path with
  | .error e => some (.error e, store)
  | .ok cleaned =>
    match store.resolve view.root cleaned with
    | .ok inode =>
      (Handle.onNode? store inode flags cleaned (view.base store)).map fun (handle, store) =>
        (.ok handle, store)
    | .error e =>
      if e.kind = .notFound ∧ flags.has .create then
        match store.createAt clock view.root cleaned mode with
        | (.error e, store) => some (.error e, store)
        | (.ok inode, store) =>
          (Handle.onNode? store inode flags cleaned (view.base store)).map fun (handle, store) =>
            (.ok handle, store)
      else some (.error e, store)

variable {bound : Nat} {store opened : Store} {handle : Handle} {view : View} {clock : Clock}
  {path : String} {flags : OpenFlags} {mode : FileMode}

theorem Store.emptied?_eq (hfit : store.Fit bound) (inode : Nat) (flags : OpenFlags) :
    store.emptied? inode flags =
      some (if flags.has .trunc then store.modifyCell inode Cell.truncate else store) := by
  unfold emptied?
  split
  · cases hcell : store.cell? inode with
    | none => rw [store.modifyCell_of_cell?_eq_none hcell]
    | some cell =>
      dsimp only
      rw [Cell.truncate?_eq (hfit.sound inode cell hcell), Option.map_some,
        store.modifyCell_const hcell]
  · rfl

namespace Handle

theorem onNode?_eq (hfit : store.Fit bound) (inode : Nat) (flags : OpenFlags)
    (path base : String) :
    onNode? store inode flags path base = some (onNode store inode flags path base) := by
  unfold onNode? onNode
  cases store.dir? inode with
  | some d => rfl
  | none =>
    dsimp only
    rw [openFile?, Store.emptied?_eq hfit]
    rfl

/-- The cursors of a handle start at zero, or at the end of what was written. -/
theorem placed_onNode (hfit : store.Fit bound) (inode : Nat) (flags : OpenFlags)
    (path base : String) :
    (onNode store inode flags path base).1.Placed store.config.maxContentLen := by
  have hchanges : Store.Changes (fun _ => True) store _ := onNode_changes store inode flags path base
  have hsizes := (hchanges.fit hfit).sizes inode
  rw [hchanges.config_eq] at hsizes
  unfold onNode at hsizes ⊢
  cases hdir : store.dir? inode with
  | some d => exact ⟨wordLimit_pos, Nat.zero_le _⟩
  | none =>
    rw [hdir] at hsizes
    refine ⟨wordLimit_pos, ?_⟩
    simp only [openFile] at hsizes ⊢
    split
    · split
      · next cell hcell => exact hsizes cell hcell
      · exact Nat.zero_le _
    · exact Nat.zero_le _

end Handle

namespace View

/-- What is made before a node is opened leaves the store fit. -/
theorem fit_createAt (hfit : store.Fit bound) (hroot : (store.dir? view.root).isSome)
    (clock : Clock) (path : String) (mode : FileMode) :
    (store.createAt clock view.root path mode).2.Fit bound :=
  (store.createAt_changes clock mode hroot (store.rules.yields_segment path).1).fit hfit

theorem openNode?_eq (hfit : store.Fit bound) (hroot : (store.dir? view.root).isSome)
    (clock : Clock) (path : String) (flags : OpenFlags) (mode : FileMode) :
    view.openNode? store clock path flags mode =
      some (view.openNode store clock path flags mode) := by
  unfold openNode? openNode
  cases store.rules.clean path with
  | error e => rfl
  | ok cleaned =>
    have hmade := fit_createAt hfit hroot clock cleaned mode
    dsimp only
    cases store.resolve view.root cleaned with
    | ok inode =>
      dsimp only
      rw [Handle.onNode?_eq hfit]
      rfl
    | error e =>
      dsimp only
      split
      · rcases hcreate : store.createAt clock view.root cleaned mode with ⟨e' | inode, grown⟩
        · rfl
        · rw [hcreate] at hmade
          dsimp only
          rw [Handle.onNode?_eq hmade]
          rfl
      · rfl

theorem placed_of_openNode (hfit : store.Fit bound) (hroot : (store.dir? view.root).isSome)
    (hopen : view.openNode store clock path flags mode = (.ok handle, opened)) :
    handle.Placed store.config.maxContentLen := by
  obtain ⟨cleaned, grown, inode, -, hopens, honNode⟩ := openNode_eq_ok hopen
  have hchanges := hopens.changes hroot
  have hplaced :=
    Handle.placed_onNode (hchanges.fit hfit) inode flags cleaned (view.base grown)
  rwa [honNode, hchanges.config_eq] at hplaced

end View

/-- The data that the operation is given to write is in words. -/
def ViewCommand.InWords : ViewCommand → Prop
  | writeFile _ data _ => data.length ≤ longestBuffer
  | _ => True

/-- The numbers that the operation is given are in words. -/
def Command.InWords : Command → Prop
  | .view _ command => command.InWords
  | .handle _ command => command.InWords
  | .pager _ _ => True

namespace Session

/-- `Session.viewStep` in words. Only the operations that open a path come to contents. -/
def viewStep? (session : Session) (clock : Clock) (view : View) :
    ViewCommand → Option (Except FsError Reply × Session)
  | .openRead path =>
    (view.openNode? session.store clock path .rdonly ⟨0⟩).map fun (result, store) =>
      session.takeHandle (FsError.tag .open path result, store)
  | .openFile path flags mode =>
    (view.openNode? session.store clock path flags mode).map fun (result, store) =>
      session.takeHandle (FsError.tag .openFile path result, store)
  | .create path =>
    (view.openNode? session.store clock path View.anew
      (FileMode.file session.store.config.fileMode)).map fun (result, store) =>
        session.takeHandle (FsError.tag .create path result, store)
  | .content path =>
    (view.openNode? session.store clock path .rdonly ⟨0⟩).bind fun
      | (.error e, store) =>
        some (.error (.tagged .readFile path e), { session with store := store })
      | (.ok handle, store) =>
        (handle.readToEnd? store []).map fun (result, data, _) =>
          ((FsError.tag .readFile path (result.map fun _ => data)).map .data,
            { session with store := store })
  | .writeFile path data mode =>
    (view.openNode? session.store clock path View.anew mode).bind fun
      | (.error e, store) =>
        some (.error (.tagged .writeFile path e), { session with store := store })
      | (.ok handle, store) =>
        (handle.write? store (clock store.stage) data).map fun (result, _, store) =>
          session.settle (FsError.tag .writeFile path (result.map fun _ => ()), store)
  | command => some (session.viewStep clock view command)

/-- `Session.step` in words. -/
def step? (session : Session) (clock : Clock) :
    Command → Option (Except FsError Reply × Session)
  | .view index command =>
    match session.views[index]? with
    | some view => session.viewStep? clock view command
    | none => some (.error missing, session)
  | .handle index command =>
    match session.handles[index]? with
    | some handle =>
      (handle.perform? session.store clock command).map fun (answer, handle, store) =>
        (answer, { session with store := store }.putHandle index handle)
    | none => some (.error missing, session)
  | .pager index command => some (session.step clock (.pager index command))

/-- `Session.run` in words: nothing if one of the steps comes to a number or a slice that there is
not. -/
def run? (session : Session) :
    List (Clock × Command) → Option (List (Except FsError Reply) × Session)
  | [] => some ([], session)
  | (clock, command) :: rest =>
    (session.step? clock command).bind fun (answer, session) =>
      (run? session rest).map fun (answers, session) => (answer :: answers, session)

variable {session : Session} {index : Nat} {command : Command}

theorem viewStep?_eq (hfit : session.store.Fit bound)
    (hroot : (session.store.dir? view.root).isSome) {command : ViewCommand}
    (hwords : command.InWords) (clock : Clock) :
    session.viewStep? clock view command = some (session.viewStep clock view command) := by
  have hopened : ∀ path flags mode, view.openNode? session.store clock path flags mode =
      some (view.openNode session.store clock path flags mode) :=
    fun path flags mode => View.openNode?_eq hfit hroot clock path flags mode
  have hafter : ∀ {path flags mode handle opened},
      view.openNode session.store clock path flags mode = (.ok handle, opened) →
      opened.Fit bound ∧ handle.Placed opened.config.maxContentLen := by
    intro path flags mode handle opened hopen
    have hchanges : Store.Changes Path.IsSegment session.store
        (view.openNode session.store clock path flags mode).2 :=
      view.openNode_changes session.store clock flags mode hroot
        fun cleaned _ => (session.store.rules.yields_segment cleaned).1
    have hplaced := View.placed_of_openNode hfit hroot hopen
    rw [hopen] at hchanges
    exact ⟨hchanges.fit hfit, by rwa [hchanges.config_eq]⟩
  cases command with
  | openRead path => simp only [viewStep?, hopened, Option.map_some, viewStep, View.openRead]
  | openFile path flags mode =>
    simp only [viewStep?, hopened, Option.map_some, viewStep, View.openFile]
  | create path => simp only [viewStep?, hopened, Option.map_some, viewStep, View.create]
  | content path =>
    simp only [viewStep?, hopened, Option.bind_some, viewStep, View.content]
    rcases hopen : view.openNode session.store clock path .rdonly ⟨0⟩ with ⟨e | handle, opened⟩
    · rfl
    · obtain ⟨hfit', hplaced⟩ := hafter hopen
      simp only [(Handle.readToEnd?_eq hfit' hplaced []).1, Option.map_some]
  | writeFile path data mode =>
    simp only [viewStep?, hopened, Option.bind_some, viewStep, View.writeFile]
    rcases hopen : view.openNode session.store clock path View.anew mode with ⟨e | handle, opened⟩
    · rfl
    · obtain ⟨hfit', hplaced⟩ := hafter hopen
      simp only [(Handle.write?_eq hfit' hplaced hwords _).1, Option.map_some]
  | _ => rfl

/-- The cursors of all handles are where they may be. -/
def Placed (session : Session) : Prop :=
  ∀ handle ∈ session.handles, handle.Placed session.store.config.maxContentLen

theorem config_step (hrooted : session.Rooted) (clock : Clock) (command : Command) :
    (session.step clock command).2.store.config = session.store.config :=
  (step_changes_segment hrooted clock command).config_eq

theorem placed_viewStep (hfit : session.store.Fit bound)
    (hroot : (session.store.dir? view.root).isSome) (hplaced : session.Placed) (clock : Clock)
    (command : ViewCommand) :
    ∀ handle ∈ (session.viewStep clock view command).2.handles,
      handle.Placed session.store.config.maxContentLen := by
  intro handle hmem
  obtain ⟨taken, htaken, hopened⟩ := session.handles_viewStep_eq clock view command
  rw [htaken] at hmem
  rcases List.mem_append.mp hmem with hold | hnew
  · exact hplaced handle hold
  rcases hopened with rfl | ⟨opened, rfl, hopened⟩
  · cases hnew
  obtain rfl := List.mem_singleton.mp hnew
  unfold View.opened? at hopened
  split at hopened
  · next path flags mode _ =>
    rcases hopen : view.openNode session.store clock path flags mode with ⟨e | found, store⟩
    · rw [hopen] at hopened
      cases hopened
    · rw [hopen] at hopened
      obtain rfl := Option.some.inj hopened
      exact View.placed_of_openNode hfit hroot hopen
  · cases hopened

/-- No step leaves the words, and it leaves all cursors where they may be. -/
theorem step?_eq (hreach : session.Reachable) (hfit : session.store.Fit bound)
    (hplaced : session.Placed) (hwords : command.InWords) (clock : Clock) :
    session.step? clock command = some (session.step clock command) ∧
      (session.step clock command).2.Placed := by
  have hconfig := config_step hreach.rooted clock command
  unfold Placed
  rw [hconfig]
  cases command with
  | view index command =>
    simp only [step?, step]
    cases hview : session.views[index]? with
    | none => exact ⟨rfl, hplaced⟩
    | some view =>
      have hroot := hreach.rooted view (List.mem_of_getElem? hview)
      exact ⟨viewStep?_eq hfit hroot hwords clock,
        placed_viewStep hfit hroot hplaced clock command⟩
  | handle index command =>
    cases hget : session.handles[index]? with
    | none =>
      simp only [step?, step, hget]
      exact ⟨trivial, hplaced⟩
    | some handle =>
      obtain ⟨heq, hafter⟩ := Handle.perform?_eq hfit (hreach.aimed.stands hget)
        (hplaced handle (List.mem_of_getElem? hget)) hwords clock
      rw [step_handle hget]
      refine ⟨by simp only [step?, hget, heq, Option.map_some, putHandle], fun later hlater => ?_⟩
      rcases List.mem_or_eq_of_mem_set hlater with hold | rfl
      · exact hplaced later hold
      · exact hafter
  | pager index command =>
    refine ⟨rfl, ?_⟩
    simp only [step]
    split
    · cases command <;> exact hplaced
    · exact hplaced

/-- Neither does a run. -/
theorem run?_eq (hreach : session.Reachable) (hfit : session.store.Fit bound)
    (hplaced : session.Placed) {commands : List (Clock × Command)}
    (hwords : ∀ c ∈ commands, c.2.InWords) :
    session.run? commands = some (session.run commands) ∧ (session.run commands).2.Placed := by
  induction commands generalizing session with
  | nil => exact ⟨rfl, hplaced⟩
  | cons c rest ih =>
    obtain ⟨hfirst, hrest⟩ := List.forall_mem_cons.mp hwords
    obtain ⟨heq, hplaced'⟩ := step?_eq hreach hfit hplaced hfirst c.1
    have hfit' := (step_changes_segment hreach.rooted c.1 c.2).fit hfit
    obtain ⟨hrun, hlast⟩ := ih (.step hreach trivial) hfit' hplaced' hrest
    refine ⟨?_, hlast⟩
    obtain ⟨clock, command⟩ := c
    simp only [run?, heq, Option.bind_some, hrun, Option.map_some, run]

/-- Where a seek is to go: to an offset from the start, or by a distance from the cursor for reading
or from the end of the content. -/
def sought (session : Session) (handle : Handle) : SeekTo → Int
  | .start offset => offset
  | .current delta => handle.readOff + delta
  | .fromEnd delta => handle.size session.store + delta

theorem target_eq_sought (session : Session) (handle : Handle) (goal : SeekTo) :
    goal.target handle.readOff (handle.size session.store) = session.sought handle goal := by
  cases goal <;> rfl

/-- A seek of the handle `index` moves the cursor for reading to where it is to go if that is a word,
and is refused otherwise. A handle that cannot be read refuses it in any case. Nothing else
changes. -/
structure Seeks (session : Session) (index : Nat) (handle : Handle) (clock : Clock)
    (goal : SeekTo) : Prop where
  refused : ∀ e, handle.checkReadable = .error e →
    session.step clock (.handle index (.seek goal)) =
      (.error (.tagged .seek handle.path e), session)
  found : handle.checkReadable = .ok () →
    ∀ target : Nat, session.sought handle goal = target →
      target < wordLimit →
        session.step clock (.handle index (.seek goal)) =
          (.ok (.count target), session.putHandle index { handle with readOff := target })
  missed : handle.checkReadable = .ok () →
    ∀ target : Int, session.sought handle goal = target →
      target < 0 ∨ wordLimit ≤ target →
        session.step clock (.handle index (.seek goal)) =
          (.error (.tagged .seek handle.path
            (.invalidInput ("invalid seek position " ++ toString target))), session)

theorem seeks_of_getElem? (hget : session.handles[index]? = some handle) (clock : Clock)
    (goal : SeekTo) : session.Seeks index handle clock goal := by
  have hlimit : cursorLimit = (wordLimit : Int) := rfl
  have hkept : session.putHandle index handle = session := by
    rw [putHandle, handles_set_self hget]
  constructor
  · intro e hcheck
    simp only [step, hget, handleStep, Handle.seek, hcheck, hkept]
    rfl
  · intro hcheck target htarget hword
    have hrange : 0 ≤ (target : Int) ∧ (target : Int) < cursorLimit := by omega
    simp only [step, hget, handleStep, Handle.seek, hcheck, target_eq_sought, htarget,
      if_pos hrange]
    rfl
  · intro hcheck target htarget houtside
    have hnot : ¬ (0 ≤ target ∧ target < cursorLimit) := by omega
    simp only [step, hget, handleStep, Handle.seek, hcheck, target_eq_sought, htarget,
      if_neg hnot, hkept]
    rfl

/-- Whatever a run does with cursors, offsets and contents, no sum leaves the words and no slice its
buffer: the run comes to what it does on unbounded numbers. The cursors stay where they may be, and
a seek succeeds exactly if its target is a word. -/
theorem run?_and_seeks_of_build {config : Config} {rules : Option PathRules} {now : Time}
    (hbuild : build config rules now = .ok session) (hgrows : config.GrowsWithin bound)
    {commands : List (Clock × Command)} (hwords : ∀ c ∈ commands, c.2.InWords) :
    session.run? commands = some (session.run commands) ∧ (session.run commands).2.Placed ∧
      ∀ index handle, (session.run commands).2.handles[index]? = some handle →
        ∀ clock goal, (session.run commands).2.Seeks index handle clock goal := by
  have hreach : session.Reachable := .build hbuild
  obtain ⟨-, hcreated⟩ := eq_create_of_build hbuild
  have hfit : session.store.Fit bound := hreach.fit (by rw [hcreated]; exact hgrows)
  have hplaced : session.Placed := by
    rw [hcreated]
    exact fun handle hmem => by cases hmem
  obtain ⟨hrun, hlast⟩ := run?_eq hreach hfit hplaced hwords
  exact ⟨hrun, hlast, fun index handle hget => seeks_of_getElem? hget⟩

/-- A cursor put at the last word and not behind it, a file emptied under the cursor of another
handle, which writes on, and a write that would end behind the bound on the content. -/
def farOff : List (Clock × Command) :=
  [(fun _ => 1, .view 0 (.create "f")), (fun _ => 1, .handle 0 (.write [1, 2])),
    (fun _ => 1, .handle 0 (.seek (.start (wordLimit - 1)))), (fun _ => 1, .handle 0 (.read 3)),
    (fun _ => 1, .handle 0 (.seek (.current 1))), (fun _ => 1, .handle 0 (.seek (.fromEnd (-3)))),
    (fun _ => 1, .view 0 (.openFile "f" (.union .rdwr .trunc) ⟨0⟩)),
    (fun _ => 1, .handle 0 (.write [3])), (fun _ => 1, .handle 0 (.seek (.fromEnd (-1)))),
    (fun _ => 1, .handle 1 (.readToEnd [])), (fun _ => 1, .handle 0 (.write [4, 5, 6, 7, 8, 9]))]

theorem run?_and_seeks_of_build_farOff :
    let session := create scant .permissive 0
    build scant none 0 = .ok session ∧ (∀ c ∈ farOff, c.2.InWords) ∧
      session.run? farOff = some (session.run farOff) ∧
      (session.run farOff).2.handles.map Handle.readOff = [2, 3] ∧
      ((session.run farOff).1.drop 2).take 4 =
        [.ok (.count 0xFFFFFFFFFFFFFFFF), .ok (.data []),
          .error (.tagged .seek "f" (.invalidInput "invalid seek position 18446744073709551616")),
          .error (.tagged .seek "f" (.invalidInput "invalid seek position -1"))] := by
  have hbuild : build scant none 0 = .ok (create scant .permissive 0) :=
    build_eq_ok scant_valid none 0
  have hwords : ∀ c ∈ farOff, c.2.InWords := by
    simp [farOff, Command.InWords, ViewCommand.InWords, HandleCommand.InWords, SeekTo.InWords,
      wordLimit, longestBuffer]
  exact ⟨hbuild, hwords, (run?_and_seeks_of_build hbuild scant_growsWithin hwords).1,
    by decide +kernel, by decide +kernel⟩

end Session

end VirtualFs.Tree
