import VirtualFs.Proofs.Content.Handle
import VirtualFs.Proofs.Tree.Growth

namespace VirtualFs.Tree

/-- The target is a node of the store, of the kind that the handle takes it for. -/
def Target.Stands (store : Store) : Target → Prop
  | .dir i => (store.dir? i).isSome
  | .file i => (store.cell? i).isSome

theorem Target.Stands.of_changes {named : String → Prop} {store store' : Store} {target : Target}
    (hstands : target.Stands store) (hchanges : Store.Changes named store store') :
    target.Stands store' := by
  cases target with
  | dir i => exact hchanges.dir?_isSome hstands
  | file i => exact hchanges.cell?_isSome hstands

/-- A number belongs to one target at most. -/
theorem Target.Stands.eq_of_inode_eq {store : Store} {target target' : Target}
    (hstands : target.Stands store) (hstands' : target'.Stands store)
    (hinode : target.inode = target'.inode) : target = target' := by
  have hnotBoth : ∀ {i}, (store.dir? i).isSome → (store.cell? i).isSome → False := by
    intro i hdir hcell
    obtain ⟨c, hc⟩ := Option.isSome_iff_exists.mp hcell
    rw [store.dir?_eq_none_of_cell? hc] at hdir
    cases hdir
  cases target <;> cases target' <;> obtain rfl : _ = _ := hinode
  · rfl
  · exact (hnotBoth hstands hstands').elim
  · exact (hnotBoth hstands' hstands).elim
  · rfl

/-- A handle is opened on the node that it was opened for. -/
theorem Handle.target_onNode {store : Store} {inode : Nat} (hnode : (store.node? inode).isSome)
    (flags : OpenFlags) (path base : String) :
    (onNode store inode flags path base).1.target.inode = inode ∧
      (onNode store inode flags path base).1.target.Stands
        (onNode store inode flags path base).2 := by
  rcases (store.node?_isSome_iff).mp hnode with hdir | hcell
  · obtain ⟨d, hd⟩ := Option.isSome_iff_exists.mp hdir
    rw [onNode_of_dir hd]
    exact ⟨rfl, hdir⟩
  · have hchanges : Store.Changes (fun _ => True) store _ :=
      onNode_changes store inode flags path base
    have hkept := hchanges.cell?_isSome hcell
    obtain ⟨c, hc⟩ := Option.isSome_iff_exists.mp hcell
    have htarget : (onNode store inode flags path base).1.target = .file inode := by
      rw [onNode, store.dir?_eq_none_of_cell? hc]
      rfl
    rw [htarget]
    exact ⟨rfl, hkept⟩

/-- What is found or made at a path is reached from where the path starts. -/
theorem Store.exists_leads_of_createAt {store grown : Store} {clock : Clock} {root inode : Nat}
    {path : String} {mode : FileMode} (hroot : (store.dir? root).isSome)
    (hmade : store.createAt clock root path mode = (.ok inode, grown)) :
    ∃ way, grown.leads root way = some inode := by
  cases hmode : mode.isDir with
  | false =>
    obtain ⟨name, -, -, hleads⟩ := createAt_grownAlong hroot hmode hmade
    exact ⟨_, hleads⟩
  | true =>
    rw [createAt, if_pos hmode] at hmade
    exact ⟨_, (mkdirAll_grownAlong hroot hmade).2⟩

namespace View

variable {view : View} {store opened grown : Store} {clock : Clock} {path cleaned : String}
  {flags : OpenFlags} {mode : FileMode} {handle : Handle} {inode : Nat}

/-- The node that an open takes, and the store that has it: what the path leads to, or what is made
there if the flags say so. -/
inductive Opens (view : View) (store : Store) (clock : Clock) (cleaned : String)
    (flags : OpenFlags) (mode : FileMode) : Store → Nat → Prop where
  | found {inode : Nat} (hfound : store.resolve view.root cleaned = .ok inode) :
      Opens view store clock cleaned flags mode store inode
  | made {e : FsError} {grown : Store} {inode : Nat}
      (hmissing : store.resolve view.root cleaned = .error e) (hkind : e.kind = .notFound)
      (hcreate : flags.has .create)
      (hmade : store.createAt clock view.root cleaned mode = (.ok inode, grown)) :
      Opens view store clock cleaned flags mode grown inode

/-- An open that succeeds gives a handle on the node that it takes. -/
theorem openNode_eq_ok
    (hopen : view.openNode store clock path flags mode = (.ok handle, opened)) :
    ∃ cleaned grown inode, store.rules.clean path = .ok cleaned ∧
      view.Opens store clock cleaned flags mode grown inode ∧
      Handle.onNode grown inode flags cleaned (view.base grown) = (handle, opened) := by
  unfold openNode at hopen
  split at hopen
  · cases hopen
  next cleaned hclean =>
  split at hopen
  · next inode hfound =>
    obtain ⟨hhandle, hopened⟩ := Prod.mk.inj hopen
    exact ⟨cleaned, store, inode, hclean, .found hfound, Prod.ext (Except.ok.inj hhandle) hopened⟩
  next e hmissing =>
  split at hopen
  · next hcreates =>
    split at hopen
    · cases hopen
    next inode grown hmade =>
    obtain ⟨hhandle, hopened⟩ := Prod.mk.inj hopen
    exact ⟨cleaned, grown, inode, hclean, .made hmissing hcreates.1 hcreates.2 hmade,
      Prod.ext (Except.ok.inj hhandle) hopened⟩
  · cases hopen

theorem Opens.changes (hopens : view.Opens store clock cleaned flags mode grown inode)
    (hroot : (store.dir? view.root).isSome) : Store.Changes (fun _ => True) store grown := by
  cases hopens with
  | found => exact .refl store
  | made _ _ _ hmade =>
    have hchanges : Store.Changes (fun _ => True) store
        (store.createAt clock view.root cleaned mode).2 :=
      store.createAt_changes clock mode hroot fun _ _ =>
        ⟨fun _ _ => trivial, fun _ _ _ _ => trivial⟩
    rwa [hmade] at hchanges

theorem Opens.exists_leads (hopens : view.Opens store clock cleaned flags mode grown inode)
    (hroot : (store.dir? view.root).isSome) : ∃ way, grown.leads view.root way = some inode := by
  cases hopens with
  | found hfound => exact ⟨_, (Store.resolve_eq_ok_iff.mp hfound).choose_spec.2⟩
  | made _ _ _ hmade => exact Store.exists_leads_of_createAt hroot hmade

theorem Opens.isSome_node? (hopens : view.Opens store clock cleaned flags mode grown inode)
    (hshape : store.Shape) (hroot : (store.dir? view.root).isSome) :
    (grown.node? inode).isSome := by
  obtain ⟨way, hleads⟩ := hopens.exists_leads hroot
  have hchanges := hopens.changes hroot
  have hrootNode := grown.isSome_node?_of_dir? (hchanges.dir?_isSome hroot)
  exact (hchanges.shape hshape).node?_isSome_of_leads hrootNode hleads

/-- Whichever way a path is opened, the handle has a node of its kind. -/
theorem stands_of_openNode (hshape : store.Shape) (hroot : (store.dir? view.root).isSome)
    (hopen : view.openNode store clock path flags mode = (.ok handle, opened)) :
    handle.target.Stands opened := by
  obtain ⟨cleaned, grown, inode, -, hopens, honNode⟩ := openNode_eq_ok hopen
  have hstands :=
    (Handle.target_onNode (hopens.isSome_node? hshape hroot) flags cleaned (view.base grown)).2
  rwa [honNode] at hstands

end View

namespace Session

variable {session later last : Session} {index : Nat} {handle handle' : Handle}

/-- The targets of all handles, in the order in which they were taken. -/
def targets (session : Session) : List Target :=
  session.handles.map Handle.target

/-- The views and handles of the one session are in the other under the same numbers, and new
handles have nodes of their kinds. -/
structure Extends (session later : Session) : Prop where
  views : session.views <+: later.views
  targets : session.targets <+: later.targets
  fresh : ∀ target ∈ later.targets, target ∈ session.targets ∨ target.Stands later.store

theorem Extends.of_eq (hviews : later.views = session.views)
    (htargets : later.targets = session.targets) : session.Extends later := by
  refine ⟨hviews ▸ List.prefix_refl _, htargets ▸ List.prefix_refl _, fun target htarget => ?_⟩
  rw [htargets] at htarget
  exact .inl htarget

theorem targets_putHandle (hget : session.handles[index]? = some handle)
    (htarget : handle'.target = handle.target) :
    (session.putHandle index handle').targets = session.targets := by
  refine List.ext_getElem? fun i => ?_
  simp only [targets, putHandle, List.getElem?_map, List.getElem?_set]
  split
  · next hi =>
    subst hi
    split
    · rw [hget, Option.map_some, Option.map_some, htarget]
    · next hbound => rw [List.getElem?_eq_none (Nat.le_of_not_lt hbound)]
  · rfl

/-- Whatever is done with a handle, it stays open on its node. -/
theorem extends_putHandle {store : Store} (hget : session.handles[index]? = some handle)
    (htarget : handle'.target = handle.target) :
    session.Extends ({ session with store := store }.putHandle index handle') := by
  have hkept : (putHandle { session with store := store } index handle').targets =
      session.targets := targets_putHandle hget htarget
  exact .of_eq rfl hkept

theorem extends_takeHandle {outcome : Except FsError Handle × Store}
    (hstands : ∀ handle, outcome.1 = .ok handle → handle.target.Stands outcome.2) :
    session.Extends (session.takeHandle outcome).2 := by
  obtain ⟨e | handle, store⟩ := outcome
  · exact .of_eq rfl rfl
  · refine ⟨List.prefix_refl _, ?_, ?_⟩
    · simp only [takeHandle, targets, List.map_append]
      exact List.prefix_append _ _
    · intro target htarget
      simp only [takeHandle, targets, List.map_append, List.mem_append] at htarget
      refine htarget.imp_right fun hnew => ?_
      obtain rfl : target = handle.target := by simpa using hnew
      exact hstands handle rfl

theorem viewStep_extends (hshape : session.store.Shape) (clock : Clock) {view : View}
    (hroot : (session.store.dir? view.root).isSome) (command : ViewCommand) :
    session.Extends (session.viewStep clock view command).2 := by
  have hopened : ∀ operation path flags mode,
      session.Extends (session.takeHandle
        (FsError.tag operation path (view.openNode session.store clock path flags mode).1,
          (view.openNode session.store clock path flags mode).2)).2 := by
    intro operation path flags mode
    refine extends_takeHandle fun handle hhandle => ?_
    rcases hopen : view.openNode session.store clock path flags mode with ⟨e | opened, store⟩
    · rw [hopen] at hhandle
      cases hhandle
    · rw [hopen] at hhandle
      obtain rfl := Except.ok.inj hhandle
      exact View.stands_of_openNode hshape hroot hopen
  cases command with
  | openRead path => exact hopened .open path .rdonly ⟨0⟩
  | openFile path flags mode => exact hopened .openFile path flags mode
  | create path => exact hopened .create path View.anew (FileMode.file session.store.config.fileMode)
  | dirIter path =>
    simp only [viewStep]
    split <;> exact .of_eq rfl rfl
  | sub path =>
    simp only [viewStep]
    split
    · exact .of_eq rfl rfl
    · exact ⟨List.prefix_append _ _, List.prefix_refl _, fun _ htarget => .inl htarget⟩
  | _ => exact .of_eq rfl rfl

theorem handleStep_extends (clock : Clock) (hget : session.handles[index]? = some handle)
    (command : HandleCommand) :
    session.Extends (session.handleStep clock index handle command).2 := by
  cases command with
  | read n => exact extends_putHandle hget (handle.movedOn_read _ n).target_eq
  | readToEnd out => exact extends_putHandle hget (handle.movedOn_readToEnd _ out).target_eq
  | seek goal => exact extends_putHandle hget (handle.movedOn_seek _ goal).target_eq
  | write data => exact extends_putHandle hget (handle.movedOn_write _ (clock 0) data).target_eq
  | readFrom source => exact extends_putHandle hget (handle.movedOn_readFrom _ clock source).target_eq
  | readDir n => exact extends_putHandle hget (handle.movedOn_readDir _ n).target_eq
  | close => exact extends_putHandle hget handle.movedOn_close.target_eq
  | readAt n offset => exact .of_eq rfl rfl
  | stat => exact .of_eq rfl rfl

theorem step_extends (hshape : session.store.Shape) (hrooted : session.Rooted) (clock : Clock)
    (command : Command) : session.Extends (session.step clock command).2 := by
  cases command with
  | view index command =>
    simp only [step]
    split
    · next view hview =>
      exact viewStep_extends hshape clock (hrooted view (List.mem_of_getElem? hview)) command
    · exact .of_eq rfl rfl
  | handle index command =>
    simp only [step]
    split
    · next handle hget => exact handleStep_extends clock hget command
    · exact .of_eq rfl rfl
  | pager index command =>
    simp only [step]
    split
    · cases command <;> exact .of_eq rfl rfl
    · exact .of_eq rfl rfl

/-- All handles have nodes of their kinds. -/
def Aimed (session : Session) : Prop :=
  ∀ target ∈ session.targets, target.Stands session.store

theorem ReachableBy.aimed {allowed : Session → Clock → Command → Prop}
    (hreach : ReachableBy allowed session) : session.Aimed := by
  induction hreach with
  | build hbuild =>
    obtain ⟨_, rfl⟩ := eq_create_of_build hbuild
    exact fun target htarget => by cases htarget
  | @step session hreach clock command _ ih =>
    intro target htarget
    rcases (step_extends hreach.shape hreach.rooted clock command).fresh target htarget with
      hold | hstands
    · exact (ih target hold).of_changes (step_changes_segment hreach.rooted clock command)
    · exact hstands

/-- The views and handles that a session has keep their numbers and nodes along every run. -/
theorem ReachableBy.run_keeps (hreach : session.Reachable) (commands : List (Clock × Command)) :
    session.views <+: (session.run commands).2.views ∧
      session.targets <+: (session.run commands).2.targets := by
  induction commands generalizing session with
  | nil => exact ⟨List.prefix_refl _, List.prefix_refl _⟩
  | cons c rest ih =>
    have hstep := step_extends hreach.shape hreach.rooted c.1 c.2
    obtain ⟨hviews, htargets⟩ := ih (.step hreach trivial)
    exact ⟨hstep.views.trans hviews, hstep.targets.trans htargets⟩

/-- A handle keeps its number and its target. -/
theorem exists_handle_of_prefix (htargets : session.targets <+: later.targets) {k : Nat}
    {handle : Handle} (hget : session.handles[k]? = some handle) :
    ∃ kept, later.handles[k]? = some kept ∧ kept.target = handle.target := by
  have htarget : session.targets[k]? = some handle.target := by
    rw [targets, List.getElem?_map, hget]
    rfl
  obtain ⟨rest, hrest⟩ := htargets
  have hkept : later.targets[k]? = some handle.target := by
    rw [← hrest, List.getElem?_append_left (List.getElem?_eq_some_iff.mp htarget).1, htarget]
  rw [targets, List.getElem?_map] at hkept
  exact Option.map_eq_some_iff.mp hkept

theorem Aimed.stands (haimed : session.Aimed) {k : Nat} {handle : Handle}
    (hget : session.handles[k]? = some handle) : handle.target.Stands session.store :=
  haimed _ (List.mem_map_of_mem (List.mem_of_getElem? hget))

end Session

end VirtualFs.Tree
