import VirtualFs.Proofs.Tree.Change
import VirtualFs.Tree.Session

namespace VirtualFs

/-- Every name that can be made along the path meets `named`. The parents of a new file are joined
and split a second time, which may change them. -/
def PathRules.Names (rules : PathRules) (named : String → Prop) (path : String) : Prop :=
  ∀ segments, rules.split path = .ok segments →
    (∀ s ∈ segments, named s) ∧
      ∀ parents, rules.split (Path.joinAll segments.dropLast) = .ok parents → ∀ s ∈ parents, named s

/-- The same of the path as it is and of the cleaned path, which opening a file splits. -/
def PathRules.Yields (rules : PathRules) (named : String → Prop) (path : String) : Prop :=
  rules.Names named path ∧ ∀ cleaned, rules.clean path = .ok cleaned → rules.Names named cleaned

namespace Tree

variable {named : String → Prop} {store store' : Store}

namespace Store

theorem createAt_changes (store : Store) (clock : Clock) {root : Nat} {path : String}
    (mode : FileMode) (hroot : (store.dir? root).isSome)
    (hnames : store.rules.Names named path) :
    Changes named store (store.createAt clock root path mode).2 := by
  unfold createAt
  split
  · exact store.mkdirAll_changes clock mode hroot fun segments hsplit => (hnames segments hsplit).1
  split
  · exact .refl store
  next segments hsplit =>
  obtain ⟨hsegments, hparents⟩ := hnames segments hsplit
  split
  · exact .refl store
  next name hlast =>
  have hname := hsegments name (List.mem_of_getLast? hlast)
  by_cases hnone : segments.dropLast = []
  · simp only [hnone, if_true]
    exact store.findOrCreate_changes clock mode hroot hname
  · simp only [hnone, if_false]
    have hmade := store.mkdirAll_changes clock mode hroot hparents
    split
    · next heq =>
      rw [heq] at hmade
      exact hmade
    · next parent grown heq =>
      rw [heq] at hmade
      exact hmade.trans
        (grown.findOrCreate_changes clock mode (dir?_of_mkdirAll hroot heq) hname)

end Store

namespace Handle

theorem onNode_changes (store : Store) (inode : Nat) (flags : OpenFlags) (path base : String) :
    Store.Changes named store (onNode store inode flags path base).2 := by
  unfold onNode
  split
  · exact .refl store
  unfold openFile
  dsimp only
  split
  · rcases hcell : store.cell? inode with _ | c
    · rw [store.modifyCell_of_cell?_eq_none hcell]
      exact .refl store
    · exact (Store.Change.truncate hcell).changes
  · exact .refl store

theorem onNode_of_dir {store : Store} {inode : Nat} {d : Directory}
    (hdir : store.dir? inode = some d) (flags : OpenFlags) (path base : String) :
    onNode store inode flags path base = (onDir inode path base, store) := by
  unfold onNode
  rw [hdir]

/-- The handle that opening a file anew gives. -/
def anewOn (inode : Nat) (path base : String) : Handle :=
  ⟨.file inode, View.anew, path, base, 0, 0, false, none⟩

/-- Opening a file anew empties it. -/
theorem onNode_anew {store : Store} {inode : Nat} {c : Cell} (hcell : store.cell? inode = some c)
    (path base : String) :
    onNode store inode View.anew path base =
      (anewOn inode path base, store.modifyCell inode Cell.truncate) := by
  have hnone : store.dir? inode = none := store.dir?_eq_none_of_cell? hcell
  unfold onNode
  rw [hnone]
  simp only [openFile, View.has_trunc_anew, View.has_append_anew, if_true, Bool.false_eq_true,
    if_false]
  rfl

theorem checkWritable_anewOn (inode : Nat) (path base : String) :
    (anewOn inode path base).checkWritable = .ok () := by
  simp [checkWritable, checkTransfer, anewOn, Target.isDir, View.writable_anew]

theorem onNode_rdonly (store : Store) (inode : Nat) (path base : String) :
    (onNode store inode .rdonly path base).2 = store := by
  unfold onNode
  split
  · rfl
  · simp [openFile, OpenFlags.has_trunc_rdonly]

theorem put_changes (handle : Handle) (store : Store) (now : Time) (data : Bytes) :
    Store.Changes named store (handle.put store now data).2.2 := by
  unfold put
  split
  · exact .refl store
  next c hcell =>
  have hwritten : Store.Changes named store _ :=
    (Store.Change.write hcell now handle.writeOff data).changes
  split <;> next heq =>
    rw [heq] at hwritten
    exact hwritten

theorem write_changes (handle : Handle) (store : Store) (now : Time) (data : Bytes) :
    Store.Changes named store (handle.write store now data).2.2 := by
  unfold write
  split
  · exact .refl store
  · exact handle.put_changes store now data

theorem copyFrom_changes (handle : Handle) (store : Store) (clock : Clock) (source : Source)
    (total : Nat) : Store.Changes named store (handle.copyFrom store clock source total).1.2.2 := by
  fun_induction copyFrom handle store clock source total with
  | case1 => exact .refl _
  | case2 handle store clock source total b bytes rest hread e handle' store' hwrite =>
    have hwritten : Store.Changes named store _ :=
      handle.write_changes store (clock 0) (b :: bytes)
    rwa [hwrite] at hwritten
  | case3 handle store clock source total b bytes rest hread n handle' store' hwrite ih =>
    have hwritten : Store.Changes named store _ :=
      handle.write_changes store (clock 0) (b :: bytes)
    rw [hwrite] at hwritten
    exact hwritten.trans ih
  | case4 handle store clock source total e rest hread hkind ih => exact ih
  | case5 => exact .refl _

theorem readFrom_changes (handle : Handle) (store : Store) (clock : Clock) (source : Source) :
    Store.Changes named store (handle.readFrom store clock source).1.2.2 := by
  unfold readFrom
  split
  · exact .refl store
  · exact handle.copyFrom_changes store clock source 0

end Handle

namespace View

variable (view : View)

section

variable {view} {store grown : Store} {clock : Clock} {path cleaned : String} {flags : OpenFlags}
  {mode : FileMode} {inode : Nat} {e e' : FsError}

/-- What is there is opened. -/
theorem openNode_of_found (hclean : store.rules.clean path = .ok cleaned)
    (hfound : store.resolve view.root cleaned = .ok inode) :
    view.openNode store clock path flags mode =
      (.ok (Handle.onNode store inode flags cleaned (view.base store)).1,
        (Handle.onNode store inode flags cleaned (view.base store)).2) := by
  unfold openNode
  rw [hclean]
  simp only [hfound]

/-- What is not there is made if the flags say so, and then opened. -/
theorem openNode_of_made (hclean : store.rules.clean path = .ok cleaned)
    (hmissing : store.resolve view.root cleaned = .error e) (hkind : e.kind = .notFound)
    (hcreate : flags.has .create = true)
    (hmade : store.createAt clock view.root cleaned mode = (.ok inode, grown)) :
    view.openNode store clock path flags mode =
      (.ok (Handle.onNode grown inode flags cleaned (view.base grown)).1,
        (Handle.onNode grown inode flags cleaned (view.base grown)).2) := by
  unfold openNode
  rw [hclean]
  simp only [hmissing, hkind, hcreate, and_self, if_true, hmade]

theorem openNode_of_refused (hclean : store.rules.clean path = .ok cleaned)
    (hmissing : store.resolve view.root cleaned = .error e) (hkind : e.kind = .notFound)
    (hcreate : flags.has .create = true)
    (hmade : store.createAt clock view.root cleaned mode = (.error e', grown)) :
    view.openNode store clock path flags mode = (.error e', grown) := by
  unfold openNode
  rw [hclean]
  simp only [hmissing, hkind, hcreate, and_self, if_true, hmade]

theorem openNode_of_missing (hclean : store.rules.clean path = .ok cleaned)
    (hmissing : store.resolve view.root cleaned = .error e)
    (hno : ¬ (e.kind = .notFound ∧ flags.has .create = true)) :
    view.openNode store clock path flags mode = (.error e, store) := by
  unfold openNode
  rw [hclean]
  simp only [hmissing, hno, if_false]

end

/-- The content of a file is what was written. -/
theorem content_of_cell {view : View} {store : Store} {clock : Clock} {path cleaned : String}
    {inode : Nat} {c : Cell} (hclean : store.rules.clean path = .ok cleaned)
    (hfound : store.resolve view.root cleaned = .ok inode) (hcell : store.cell? inode = some c) :
    view.content store clock path = (.ok c.active, store) := by
  have hnone : store.dir? inode = none := store.dir?_eq_none_of_cell? hcell
  unfold content
  rw [openNode_of_found hclean hfound, Handle.onNode_rdonly]
  simp [Handle.onNode, hnone, Handle.openFile, OpenFlags.has_trunc_rdonly, Handle.readToEnd,
    Handle.checkReadable, Handle.checkTransfer, Target.isDir, OpenFlags.readable_rdonly,
    Handle.cell?, Target.inode, hcell, Cell.readFromOffset, Except.map]

theorem openNode_changes (store : Store) (clock : Clock) {path : String} (flags : OpenFlags)
    (mode : FileMode) (hroot : (store.dir? view.root).isSome)
    (hnames : ∀ cleaned, store.rules.clean path = .ok cleaned → store.rules.Names named cleaned) :
    Store.Changes named store (view.openNode store clock path flags mode).2 := by
  unfold openNode
  split
  · exact .refl store
  next cleaned hclean =>
  split
  · exact Handle.onNode_changes store _ flags cleaned _
  split
  · have hmade := store.createAt_changes clock mode hroot (hnames cleaned hclean)
    split
    · next heq =>
      rw [heq] at hmade
      exact hmade
    · next inode grown heq =>
      rw [heq] at hmade
      exact hmade.trans (Handle.onNode_changes grown inode flags cleaned _)
  · exact .refl store

/-- Opening for reading makes no nodes, whatever the path is. -/
theorem openNode_rdonly (store : Store) (clock : Clock) (path : String) (mode : FileMode) :
    (view.openNode store clock path .rdonly mode).2 = store := by
  unfold openNode
  split
  · rfl
  split
  · exact Handle.onNode_rdonly store _ _ _
  · simp [OpenFlags.has_create_rdonly]

theorem writeFile_changes (store : Store) (clock : Clock) {path : String} (data : Bytes)
    (mode : FileMode) (hroot : (store.dir? view.root).isSome)
    (hnames : ∀ cleaned, store.rules.clean path = .ok cleaned → store.rules.Names named cleaned) :
    Store.Changes named store (view.writeFile store clock path data mode).2 := by
  have hopened := view.openNode_changes store clock anew mode hroot hnames
  unfold writeFile
  split
  · next heq =>
    rw [heq] at hopened
    exact hopened
  · next handle grown heq =>
    rw [heq] at hopened
    exact hopened.trans (handle.write_changes grown (clock grown.stage) data)

end View

/-- The path of a command that may make nodes. -/
def ViewCommand.newPath? : ViewCommand → Option String
  | .openFile path _ _ => some path
  | .create path => some path
  | .mkdir path _ => some path
  | .mkdirAll path _ => some path
  | .writeFile path _ _ => some path
  | _ => none

/-- The names that a command may make meet `named`. -/
def Command.Yields (rules : PathRules) (named : String → Prop) : Command → Prop
  | .view _ command => ∀ path, command.newPath? = some path → rules.Yields named path
  | _ => True

namespace Session

/-- Every view is rooted at a directory. -/
def Rooted (session : Session) : Prop :=
  ∀ view ∈ session.views, (session.store.dir? view.root).isSome

variable {session : Session}

theorem Rooted.of_changes (hrooted : session.Rooted) {session' : Session}
    (hchanges : Store.Changes named session.store session'.store)
    (hviews : session'.views = session.views) : session'.Rooted := by
  intro view hview
  rw [hviews] at hview
  exact hchanges.dir?_isSome (hrooted view hview)

theorem viewStep_changes (hrooted : session.Rooted) (clock : Clock) {view : View}
    (hview : view ∈ session.views) {command : ViewCommand}
    (hnames : ∀ path, command.newPath? = some path → session.store.rules.Yields named path) :
    Store.Changes named session.store (session.viewStep clock view command).2.store := by
  have hroot := hrooted view hview
  have hunchanged : Store.Changes named session.store session.store := .refl _
  cases command with
  | openRead path =>
    have hstore := view.openNode_rdonly session.store clock path ⟨0⟩
    simp only [viewStep, View.openRead, takeHandle]
    split <;> simp_all
  | openFile path flags mode =>
    have hopened := view.openNode_changes session.store clock flags mode hroot (hnames path rfl).2
    simp only [viewStep, View.openFile, takeHandle]
    split <;> simp_all
  | create path =>
    have hopened := view.openNode_changes session.store clock View.anew
      (FileMode.file session.store.config.fileMode) hroot (hnames path rfl).2
    simp only [viewStep, View.create, takeHandle]
    split <;> simp_all
  | mkdir path mode =>
    exact session.store.mkdir_changes clock mode hroot fun segments hsplit =>
      ((hnames path rfl).1 segments hsplit).1
  | mkdirAll path mode =>
    exact session.store.mkdirAll_changes clock mode hroot fun segments hsplit =>
      ((hnames path rfl).1 segments hsplit).1
  | writeFile path data mode =>
    exact view.writeFile_changes session.store clock data mode hroot (hnames path rfl).2
  | content path =>
    have hstore := view.openNode_rdonly session.store clock path ⟨0⟩
    simp only [viewStep, View.content]
    split <;> simp_all
  | close =>
    simp only [viewStep, settle, View.close]
    split
    · exact hunchanged
    split
    · exact hunchanged
    · exact (Store.Change.close session.store).changes
  | dirIter path =>
    simp only [viewStep]
    split <;> exact hunchanged
  | sub path =>
    simp only [viewStep]
    split <;> exact hunchanged
  | _ => exact hunchanged

theorem handleStep_changes (clock : Clock) (index : Nat) (handle : Handle)
    (command : HandleCommand) :
    Store.Changes named session.store (session.handleStep clock index handle command).2.store := by
  cases command with
  | write data => exact handle.write_changes session.store (clock 0) data
  | readFrom source => exact handle.readFrom_changes session.store clock source
  | _ => exact .refl _

theorem step_changes (hrooted : session.Rooted) (clock : Clock) {command : Command}
    (hnames : command.Yields session.store.rules named) :
    Store.Changes named session.store (session.step clock command).2.store := by
  cases command with
  | view index command =>
    simp only [step]
    split
    · next view hview =>
      exact viewStep_changes hrooted clock (List.mem_of_getElem? hview) hnames
    · exact .refl _
  | handle index command =>
    simp only [step]
    split
    · exact handleStep_changes clock index _ command
    · exact .refl _
  | pager index command =>
    simp only [step]
    split
    · cases command <;> exact .refl _
    · exact .refl _

end Session

end Tree

end VirtualFs
