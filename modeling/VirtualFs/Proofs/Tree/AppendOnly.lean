import VirtualFs.Proofs.Tree.Handles
import VirtualFs.Proofs.Tree.Lookups

namespace VirtualFs.Tree

namespace Store

variable {named : String → Prop} {store store' : Store} {dir inode : Nat} {path : String}

/-- What was found is found for ever. -/
theorem Changes.resolve_eq_ok (hchanges : Changes named store store')
    (hfound : store.resolve dir path = .ok inode) : store'.resolve dir path = .ok inode := by
  rw [resolve_eq_ok_iff_leads] at hfound ⊢
  rw [hchanges.rules_eq]
  exact ⟨hfound.1, hchanges.leads_eq_some hfound.2⟩

/-- A lookup goes on to show what lasts of the entry, under the same path. -/
theorem Changes.stat_lasting {view : View} {entry : Entry} (hchanges : Changes named store store')
    (hroot : (store.dir? view.root).isSome) (hstat : view.stat store path = .ok entry) :
    ∃ entry', view.stat store' path = .ok entry' ∧ entry'.lasting = entry.lasting := by
  obtain ⟨inode, node, hfound, hnode, rfl⟩ := View.stat_eq_ok_iff.mp hstat
  obtain ⟨node', hnode', hlasting⟩ := hchanges.lasts inode node hnode
  have hbase : view.base store' = view.base store :=
    hchanges.pathOf_eq (store.isSome_node?_of_dir? hroot)
  refine ⟨_, View.stat_eq_ok_iff.mpr
    ⟨inode, node', hchanges.resolve_eq_ok hfound, hnode', rfl⟩, ?_⟩
  rw [hbase]
  exact Entry.lasting_rebased (Prod.mk.inj hlasting).2 _

end Store

/-- An open that is led to a node gives a handle on it. -/
theorem View.openNode_of_resolve {view : View} {store : Store} {clock : Clock}
    {path cleaned : String} {inode : Nat} (hclean : store.rules.clean path = .ok cleaned)
    (hfound : store.resolve view.root cleaned = .ok inode) (hnode : (store.node? inode).isSome)
    (flags : OpenFlags) (mode : FileMode) :
    ∃ handle opened, view.openNode store clock path flags mode = (.ok handle, opened) ∧
      handle.target.inode = inode :=
  ⟨_, _, openNode_of_found hclean hfound, (Handle.target_onNode hnode _ _ _).1⟩

namespace Session

/-- In a later session the path still leads from the view to the node `inode`, and the node is the
one that it was. -/
structure StillThere (session later : Session) (view : View) (path : String) (inode : Nat) :
    Prop where
  viewed : view ∈ later.views
  found : later.store.resolve view.root path = .ok inode
  /-- The node has its kind, and its number, mode, creation time and tree path with the rest of its
  entry; only the size and the modification time may be others. -/
  node : ∃ node node', session.store.node? inode = some node ∧
    later.store.node? inode = some node' ∧ node'.lasting = node.lasting
  shown : ∃ entry entry', view.stat session.store path = .ok entry ∧
    view.stat later.store path = .ok entry' ∧ entry'.lasting = entry.lasting
  /-- An open that is led to the node, with any flags, gives a handle on it. -/
  opened : ∀ (other : View) clock path' cleaned flags mode,
    later.store.rules.clean path' = .ok cleaned →
    later.store.resolve other.root cleaned = .ok inode →
    ∃ handle opened, other.openNode later.store clock path' flags mode = (.ok handle, opened) ∧
      handle.target.inode = inode
  /-- A handle that was opened on the node before and one that was opened on it at any time have
  the same content, whatever becomes of it. -/
  shared : ∀ (k m : Nat) (early late : Handle), session.handles[k]? = some early →
    early.target.inode = inode → later.handles[m]? = some late → late.target.inode = inode →
    ∃ kept : Handle, later.handles[k]? = some kept ∧ kept.target = late.target ∧
      ∀ store, kept.cell? store = late.cell? store

end Session

/-- Whatever a run does, a path that led from a view to a node before it leads to the same node
after it, and handles that are opened on the node before and after have the same content. -/
theorem stillThere_run {session : Session} (hreach : session.Reachable) {view : View}
    (hview : view ∈ session.views) {path : String} {inode : Nat}
    (hfound : session.store.resolve view.root path = .ok inode)
    (commands : List (Clock × Command)) :
    session.StillThere (session.run commands).2 view path inode := by
  have hroot := hreach.rooted view hview
  have hchanges := hreach.rooted.run_changes commands
  obtain ⟨hviews, htargets⟩ := hreach.run_keeps commands
  have hsome : (session.store.node? inode).isSome :=
    hreach.shape.node?_isSome_of_leads (session.store.isSome_node?_of_dir? hroot)
      (Store.resolve_eq_ok_iff_leads.mp hfound).2
  obtain ⟨node, hnode⟩ := Option.isSome_iff_exists.mp hsome
  obtain ⟨node', hnode', hlasting⟩ := hchanges.lasts inode node hnode
  constructor
  case viewed => exact hviews.subset hview
  case found => exact hchanges.resolve_eq_ok hfound
  case node => exact ⟨node, node', hnode, hnode', hlasting⟩
  case shown =>
    have hstat : view.stat session.store path = .ok (node.entry.rebased _) :=
      View.stat_eq_ok_iff.mpr ⟨inode, node, hfound, hnode, rfl⟩
    obtain ⟨entry', hstat', hentry⟩ := hchanges.stat_lasting hroot hstat
    exact ⟨_, entry', hstat, hstat', hentry⟩
  case opened =>
    intro other clock path' cleaned flags mode hclean hfound'
    exact View.openNode_of_resolve hclean hfound' (by rw [hnode']; rfl) flags mode
  case shared =>
    intro k m early late hearly hinode hlate hinode'
    obtain ⟨kept, hkept, htarget⟩ := Session.exists_handle_of_prefix htargets hearly
    -- The number alone decides the target, since all targets are nodes of their kinds.
    have haimed := (hreach.run commands).aimed
    have hsame : kept.target = late.target := (haimed.stands hkept).eq_of_inode_eq
      (haimed.stands hlate) (by rw [htarget, hinode, hinode'])
    exact ⟨kept, hkept, hsame, fun store => by rw [Handle.cell?, Handle.cell?, hsame]⟩

/-- A file in a directory, made and opened through the view of the directory. -/
def inUse : Session :=
  (emptyTree.run [(fun k => k, .view 0 (.mkdirAll "a/b" ⟨0o755⟩)), (fun k => k, .view 0 (.sub "a")),
    (fun k => k, .view 1 (.openFile "f" (.union .rdwr .create) ⟨0o644⟩))]).2

/-- Writes before and after the file is opened again, and all that could be in the way of that. -/
def disturbances : List (Clock × Command) :=
  [(fun k => k + 9, .handle 0 (.write [1, 2, 3])), (fun k => k, .view 0 (.mkdir "a/f" ⟨0⟩)),
    (fun k => k, .view 1 (.mkdirAll "f/g" ⟨0⟩)), (fun k => k, .view 0 (.remove "a/f")),
    (fun k => k, .view 0 (.rename "a" "z")), (fun k => k, .view 0 (.removeAll "a")),
    (fun k => k, .view 0 (.openFile "a/./f" .rdwr ⟨0⟩)), (fun k => k + 99, .handle 1 (.write [7])),
    (fun k => k, .handle 1 .close), (fun k => k, .view 0 .close)]

theorem stillThere_run_disturbances :
    inUse.Reachable ∧ (⟨2, false⟩ : View) ∈ inUse.views ∧
      inUse.store.resolve 2 "f" = .ok 4 ∧
      inUse.StillThere (inUse.run disturbances).2 ⟨2, false⟩ "f" 4 ∧
      (inUse.run disturbances).2.handles.map
        (fun handle => (handle.target.inode, handle.bytesAt (inUse.run disturbances).2.store 0 9)) =
          [(4, [7, 2, 3]), (4, [7, 2, 3])] := by
  have hreach : inUse.Reachable := emptyTree_reachable.run _
  have hview : (⟨2, false⟩ : View) ∈ inUse.views := by decide +kernel
  have hfound : inUse.store.resolve 2 "f" = .ok 4 := by decide +kernel
  exact ⟨hreach, hview, hfound, stillThere_run hreach hview hfound disturbances,
    by decide +kernel⟩

end VirtualFs.Tree
