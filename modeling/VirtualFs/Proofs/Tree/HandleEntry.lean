import VirtualFs.Proofs.Tree.AppendOnly
import VirtualFs.Proofs.Tree.HandleStep

namespace VirtualFs.Tree

namespace Store

variable {store grown : Store} {clock : Clock} {dir inode : Nat} {names : List String}
  {path : String} {mode : FileMode}

/-- Names that stay in place can be left out on the way. -/
theorem Shape.leads_moving (hshape : store.Shape) (hleads : store.leads dir names = some inode) :
    store.leads dir (moving names) = some inode := by
  induction names generalizing dir with
  | nil => exact hleads
  | cons name rest ih =>
    rw [leads_cons] at hleads
    obtain ⟨child, hchild, hrest⟩ := Option.bind_eq_some_iff.mp hleads
    by_cases hdot : name = "."
    · subst hdot
      rw [hshape.self dir (dir?_isSome_of_child? hchild)] at hchild
      obtain rfl := Option.some.inj hchild
      exact ih hrest
    · have hmoves : moving (name :: rest) = name :: moving rest :=
        List.filter_cons_of_pos (by simpa using hdot)
      rw [hmoves, leads_cons, hchild]
      exact ih hrest

/-- What is made at a tidy path stands where the path leads. -/
theorem leads_of_createAt (hshape : store.Shape) (hroot : (store.dir? dir).isSome)
    (htidy : Path.Tidy path) (hmade : store.createAt clock dir path mode = (.ok inode, grown)) :
    grown.leads dir (way path) = some inode := by
  cases hmode : mode.isDir with
  | true =>
    rw [createAt, if_pos hmode] at hmade
    exact (mkdirAll_grownAlong hroot hmade).2
  | false =>
    obtain ⟨name, hlast, hgrown, hleads⟩ := createAt_grownAlong hroot hmode hmade
    have hparents : ∀ s ∈ parents path, Path.IsTidyName s := by
      intro s hs
      have hmem := List.dropLast_subset _ hs
      rw [htidy.segments_cleaned] at hmem
      exact htidy.isTidyName hmem
    have hway : way path = moving (moving (parents path) ++ [name]) := by
      rw [way, ← List.dropLast_append_getLast? name hlast]
      simp [moving, parents]
    rw [way_joinAll hparents] at hleads
    rw [hway]
    exact (hgrown.changes.shape hshape).leads_moving hleads

end Store

/-- A handle is opened with the path and the base that it is given, and open. -/
theorem Handle.onNode_opened (store : Store) (inode : Nat) (flags : OpenFlags) (path base : String) :
    (onNode store inode flags path base).1.path = path ∧
      (onNode store inode flags path base).1.base = base ∧
      (onNode store inode flags path base).1.closed = false := by
  unfold onNode
  split <;> exact ⟨rfl, rfl, rfl⟩

namespace View

variable {view : View} {store store' opened : Store} {clock : Clock} {path : String}
  {flags : OpenFlags} {mode : FileMode} {handle : Handle}

/-- The path of the handle leads from the view to the node that the handle is open on. -/
structure LeadsTo (view : View) (store : Store) (handle : Handle) : Prop where
  accepts : store.rules.accepts (Text.trim handle.path) = true
  leads : store.leads view.root (Store.way handle.path) = some handle.target.inode
  base : handle.base = view.base store

/-- It goes on to do so, whatever happens to the tree. -/
theorem LeadsTo.of_changes {named : String → Prop} (h : view.LeadsTo store handle)
    (hroot : (store.dir? view.root).isSome) (hchanges : Store.Changes named store store') :
    view.LeadsTo store' handle where
  accepts := by
    rw [hchanges.rules_eq]
    exact h.accepts
  leads := hchanges.leads_eq_some h.leads
  base := h.base.trans (hchanges.pathOf_eq (store.isSome_node?_of_dir? hroot)).symm

/-- The entry of the handle is the one that the view shows at its path. -/
theorem LeadsTo.stat (h : view.LeadsTo store handle) (hshape : store.Shape)
    (hroot : (store.dir? view.root).isSome) (hopen : handle.closed = false) :
    ∃ entry, handle.stat store = .ok entry ∧ view.stat store handle.path = .ok entry := by
  obtain ⟨node, hnode⟩ := Option.isSome_iff_exists.mp
    (hshape.node?_isSome_of_leads (store.isSome_node?_of_dir? hroot) h.leads)
  refine ⟨node.entry.rebased handle.base, ?_, ?_⟩
  · simp [Handle.stat, hopen, hnode]
  · exact stat_eq_ok_iff.mpr ⟨handle.target.inode, node,
      Store.resolve_eq_ok_iff_leads.mpr ⟨h.accepts, h.leads⟩, hnode, by rw [h.base]⟩

theorem leadsTo_onNode {inode : Nat} (hnode : (store.node? inode).isSome)
    (hroot : (store.dir? view.root).isSome)
    (haccepts : store.rules.accepts (Text.trim path) = true)
    (hleads : store.leads view.root (Store.way path) = some inode) :
    view.LeadsTo (Handle.onNode store inode flags path (view.base store)).2
      (Handle.onNode store inode flags path (view.base store)).1 := by
  obtain ⟨hpath, hbase, -⟩ := Handle.onNode_opened store inode flags path (view.base store)
  have hchanges : Store.Changes (fun _ => True) store _ :=
    Handle.onNode_changes store inode flags path (view.base store)
  have hinode := (Handle.target_onNode hnode flags path (view.base store)).1
  refine LeadsTo.of_changes ⟨?_, ?_, hbase⟩ hroot hchanges
  · rw [hpath, haccepts]
  · rw [hpath, hleads, hinode]

/-- Opening a tidy path gives an open handle on what the path leads to then. -/
theorem leadsTo_of_openNode (hshape : store.Shape) (hroot : (store.dir? view.root).isSome)
    (htidy : Path.Tidy path)
    (hopen : view.openNode store clock path flags mode = (.ok handle, opened)) :
    store.rules.clean path = .ok handle.path ∧ handle.closed = false ∧
      view.LeadsTo opened handle := by
  obtain ⟨cleaned, grown, inode, hclean, hopens, honNode⟩ := openNode_eq_ok hopen
  have hcleaned : Path.Tidy cleaned := by
    rw [PathRules.cleaned_of_clean _ hclean]
    exact htidy.cleaned
  have hchanges := hopens.changes hroot
  have hway : grown.rules.accepts (Text.trim cleaned) = true ∧
      grown.leads view.root (Store.way cleaned) = some inode := by
    cases hopens with
    | found hfound => exact Store.resolve_eq_ok_iff_leads.mp hfound
    | made hmissing hkind _ hmade =>
      rw [hchanges.rules_eq]
      exact ⟨Store.accepts_of_notFound hmissing hkind,
        Store.leads_of_createAt hshape hroot hcleaned hmade⟩
  have hleads : view.LeadsTo (Handle.onNode grown inode flags cleaned (view.base grown)).2
      (Handle.onNode grown inode flags cleaned (view.base grown)).1 :=
    leadsTo_onNode (hopens.isSome_node? hshape hroot) (hchanges.dir?_isSome hroot) hway.1 hway.2
  obtain ⟨hpath, -, hclosed⟩ := Handle.onNode_opened grown inode flags cleaned (view.base grown)
  rw [honNode] at hpath hclosed hleads
  exact ⟨hpath ▸ hclean, hclosed, hleads⟩

/-- Moving on changes nothing of that. -/
theorem LeadsTo.of_movedOn {later : Handle} {closing : Bool} (h : view.LeadsTo store handle)
    (hmoved : handle.MovedOn closing later) : view.LeadsTo store later := by
  obtain ⟨readOff, writeOff, pager, rfl⟩ := hmoved
  exact ⟨h.accepts, h.leads, h.base⟩

end View

/-- The path of a command that opens a handle. -/
def ViewCommand.opens? : ViewCommand → Option String
  | openRead path => some path
  | openFile path _ _ => some path
  | create path => some path
  | _ => none

namespace Session

variable {session opened : Session} {clock : Clock} {view : View} {command : ViewCommand}
  {path : String} {v k : Nat}

/-- The session after a handle was opened is the one before with the handle added. -/
theorem viewStep_opened (hopens : command.opens? = some path)
    (hstep : session.viewStep clock view command = (.ok (.handle k), opened)) :
    ∃ flags mode handle store,
      view.openNode session.store clock path flags mode = (.ok handle, store) ∧
      k = session.handles.length ∧
      opened = { session with store := store, handles := session.handles ++ [handle] } := by
  have htaken : ∀ operation flags mode,
      session.takeHandle (FsError.tag operation path
          (view.openNode session.store clock path flags mode).1,
        (view.openNode session.store clock path flags mode).2) = (.ok (.handle k), opened) →
      ∃ handle store, view.openNode session.store clock path flags mode = (.ok handle, store) ∧
        k = session.handles.length ∧
        opened = { session with store := store, handles := session.handles ++ [handle] } := by
    intro operation flags mode htaken
    rcases hopen : view.openNode session.store clock path flags mode with ⟨e | handle, store⟩
    · rw [hopen] at htaken
      cases htaken
    · rw [hopen] at htaken
      obtain ⟨hanswer, rfl⟩ := Prod.mk.inj htaken
      exact ⟨handle, store, rfl, (Reply.handle.inj (Except.ok.inj hanswer)).symm, rfl⟩
  cases command <;> cases hopens
  case openRead => exact ⟨_, _, htaken .open .rdonly ⟨0⟩ hstep⟩
  case openFile flags mode => exact ⟨_, _, htaken .openFile flags mode hstep⟩
  case create => exact ⟨_, _, htaken .create View.anew _ hstep⟩

/-- A handle that was opened at a tidy path shows, at any time until it is closed, the entry that the
view shows at the path of the handle. If it is open on a directory, that is the one which the
directory has under the name `"."`. -/
theorem stat_eq_view_stat (hreach : session.Reachable) (hview : session.views[v]? = some view)
    (hopens : command.opens? = some path) (htidy : Path.Tidy path)
    (hstep : session.step clock (.view v command) = (.ok (.handle k), opened))
    (commands : List (Clock × Command)) :
    (opened.run commands).2.views[v]? = some view ∧
      ∃ handle, (opened.run commands).2.handles[k]? = some handle ∧
        session.store.rules.clean path = .ok handle.path ∧
        (handle.closed = true ↔ ∃ c ∈ commands, c.2.closes k = true) ∧
        (∀ i, handle.target = .dir i →
          (opened.run commands).2.store.child? i "." = some (.dot i)) ∧
        (handle.closed = false → ∃ entry, handle.stat (opened.run commands).2.store = .ok entry ∧
          view.stat (opened.run commands).2.store handle.path = .ok entry) := by
  have hroot := hreach.rooted view (List.mem_of_getElem? hview)
  have hopenedReach : opened.Reachable := by
    have hnext : (session.step clock (.view v command)).2.Reachable := .step hreach trivial
    rwa [hstep] at hnext
  simp only [step, hview] at hstep
  obtain ⟨flags, mode, handle, store, hopen, rfl, hopened⟩ := viewStep_opened hopens hstep
  obtain ⟨hclean, hunclosed, hleads⟩ :=
    View.leadsTo_of_openNode hreach.shape hroot htidy hopen
  have hget : opened.handles[session.handles.length]? = some handle := by
    rw [hopened]
    exact List.getElem?_concat_length
  have hviewOpened : opened.views[v]? = some view := by
    rw [hopened]
    exact hview
  obtain rfl : opened.store = store := by rw [hopened]
  have hrootOpened := hopenedReach.rooted view (List.mem_of_getElem? hviewOpened)
  have hchanges := hopenedReach.rooted.run_changes commands
  obtain ⟨rest, hviews⟩ := (hopenedReach.run_keeps commands).1
  obtain ⟨later, hlater, hmoved⟩ := movedOn_run hget commands
  have hlast := hopenedReach.run commands
  have hstands := hlast.aimed.stands hlater
  have hstat := ((hleads.of_changes hrootOpened hchanges).of_movedOn hmoved).stat hlast.shape
    (hchanges.dir?_isSome hrootOpened)
  obtain ⟨readOff, writeOff, pager, rfl⟩ := hmoved
  refine ⟨?_, _, hlater, hclean, ?_, ?_, hstat⟩
  · rw [← hviews]
    exact (List.getElem?_append_left (List.getElem?_eq_some_iff.mp hviewOpened).1).trans hviewOpened
  · simp [hunclosed]
  · intro i hdir
    have hdirStands : (Target.dir i).Stands _ := hdir ▸ hstands
    exact hlast.shape.self i hdirStands

/-- Directories that are made later, in one that is open and below it. -/
def makingsInside : List (Clock × Command) :=
  [(fun k => k + 9, .view 0 (.mkdir "a/b" ⟨0⟩)), (fun k => k + 20, .view 0 (.mkdirAll "a/b/c" ⟨0⟩))]

theorem stat_eq_view_stat_oneDirectory :
    oneDirectory.Reachable ∧ ∃ opened,
      oneDirectory.step (fun k => k) (.view 0 (.openFile "a" .rdwr ⟨0⟩)) =
        (.ok (.handle 0), opened) ∧
      ∃ handle entry, (opened.run makingsInside).2.handles[0]? = some handle ∧
        handle.stat (opened.run makingsInside).2.store = .ok entry ∧
        View.whole.stat (opened.run makingsInside).2.store handle.path = .ok entry := by
  have hview : oneDirectory.views[0]? = some View.whole := by decide +kernel
  have hstep : oneDirectory.step (fun k => k) (.view 0 (.openFile "a" .rdwr ⟨0⟩)) =
      (.ok (.handle 0), (oneDirectory.step (fun k => k) (.view 0 (.openFile "a" .rdwr ⟨0⟩))).2) :=
    Prod.ext (by decide +kernel) rfl
  obtain ⟨-, handle, hget, -, hclosed, -, hstat⟩ := stat_eq_view_stat oneDirectory_reachable hview
    rfl (by decide) hstep makingsInside
  have hopen : handle.closed = false := by
    rw [Bool.eq_false_iff, Ne, hclosed]
    decide
  obtain ⟨entry, hentry, hshown⟩ := hstat hopen
  exact ⟨oneDirectory_reachable, _, hstep, handle, entry, hget, hentry, hshown⟩

end Session

end VirtualFs.Tree
