import VirtualFs.Proofs.Content.OneFile
import VirtualFs.Proofs.Tree.Lookups

namespace VirtualFs.Tree

namespace Store

variable {named : String → Prop} {bound : Nat} {store middle store' : Store}

/-- The files of the one store have buffers in the other that are no smaller. -/
def KeepsRoom (store store' : Store) : Prop :=
  ∀ i c, store.cell? i = some c → ∃ c', store'.cell? i = some c' ∧ c.capacity ≤ c'.capacity

theorem KeepsRoom.refl (store : Store) : KeepsRoom store store :=
  fun _ c hcell => ⟨c, hcell, Nat.le_refl _⟩

theorem KeepsRoom.trans (hfirst : KeepsRoom store middle) (hsecond : KeepsRoom middle store') :
    KeepsRoom store store' := by
  intro i c hcell
  obtain ⟨c', hcell', hle⟩ := hfirst i c hcell
  obtain ⟨c'', hcell'', hle'⟩ := hsecond i c' hcell'
  exact ⟨c'', hcell'', Nat.le_trans hle hle'⟩

theorem keepsRoom_modifyCell {inode : Nat} {change : Cell → Cell}
    (hchange : ∀ c, store.cell? inode = some c → c.capacity ≤ (change c).capacity) :
    KeepsRoom store (store.modifyCell inode change) := by
  intro i c hcell
  rw [cell?_modifyCell]
  split
  · next hi =>
    subst hi
    exact ⟨change c, by rw [hcell]; rfl, hchange c hcell⟩
  · exact ⟨c, hcell, Nat.le_refl _⟩

/-- No primitive step makes a buffer smaller. -/
theorem Change.keepsRoom (hstep : Change named store store')
    (hgrows : store.config.GrowsWithin bound) (hsound : store.Sound bound) :
    KeepsRoom store store' := by
  cases hstep with
  | reserve => exact fun i c hcell => ⟨c, by rwa [cell?_reserve], Nat.le_refl _⟩
  | addDir hparent =>
    exact fun i c hcell => ⟨c, cell?_addNode_of_eq_some hparent hcell, Nat.le_refl _⟩
  | addFile hparent =>
    exact fun i c hcell => ⟨c, cell?_addNode_of_eq_some hparent hcell, Nat.le_refl _⟩
  | touch => exact fun i c hcell => ⟨c, by rwa [cell?_modifyDir], Nat.le_refl _⟩
  | truncate =>
    refine keepsRoom_modifyCell fun c hcell => ?_
    rw [Cell.capacity_truncate (hsound _ c hcell).size_le]
  | write hcell now offset data =>
    refine keepsRoom_modifyCell fun c hc => ?_
    obtain rfl := Option.some.inj (hcell.symm.trans hc)
    exact Cell.capacity_le_writeAt (hsound _ _ hcell).capacity_le hgrows now offset data
  | close => exact .refl store

theorem Changes.keepsRoom (hchanges : Changes named store store') (hvalid : store.config.Valid)
    (hgrows : store.config.GrowsWithin bound) (hsound : store.Sound bound) :
    KeepsRoom store store' := by
  have hkept := hchanges.preserves
    (P := fun s => s.config = store.config ∧ s.Sound bound ∧ KeepsRoom store s) ?_
    ⟨rfl, hsound, .refl store⟩
  · exact hkept.2.2
  · rintro s s' hstep ⟨hconfig, hsound', hroom⟩
    have hgrows' : s.config.GrowsWithin bound := by rwa [hconfig]
    exact ⟨hstep.config_eq.trans hconfig, hstep.sound (by rwa [hconfig]) hgrows' hsound',
      hroom.trans (hstep.keepsRoom hgrows' hsound')⟩

end Store

namespace View

variable {view : View} {store : Store} {clock : Clock} {path : String} {data : Bytes}

/-- What is read at a path is the content of a file. -/
theorem cell_of_content (hshape : store.Shape) (hroot : (store.dir? view.root).isSome)
    (hread : (view.content store clock path).1 = .ok data) :
    ∃ inode c, store.rules.clean path = .ok (Path.cleaned path) ∧
      store.resolve view.root (Path.cleaned path) = .ok inode ∧ store.cell? inode = some c ∧
      c.active = data := by
  obtain ⟨inode, hfound⟩ := resolve_of_content hread
  have hclean := clean_of_content hread
  have hnode := hshape.node?_isSome_of_leads (store.isSome_node?_of_dir? hroot)
    (Store.resolve_eq_ok_iff_leads.mp hfound).2
  rcases (store.node?_isSome_iff).mp hnode with hdir | hcell
  · obtain ⟨d, hd⟩ := Option.isSome_iff_exists.mp hdir
    unfold content at hread
    rw [openNode_of_found hclean hfound, Handle.onNode_of_dir hd] at hread
    cases hread
  · obtain ⟨c, hc⟩ := Option.isSome_iff_exists.mp hcell
    rw [content_of_cell hclean hfound hc] at hread
    exact ⟨inode, c, hclean, hfound, hc, Except.ok.inj hread⟩

/-- What is read at a path is as long as the size that the handle opened there shows, and that every
entry of the same node shows. -/
theorem size_of_content {bound : Nat} (hshape : store.Shape) (hlabelled : store.Labelled)
    (hsound : store.Sound bound) (hroot : (store.dir? view.root).isSome)
    (hread : (view.content store clock path).1 = .ok data) :
    ∃ handle, (view.openRead store clock path).1 = .ok handle ∧
      (handle.stat store).map Entry.size = .ok data.length ∧
      ∀ (other : View) path' entry, other.stat store path' = .ok entry →
        entry.attrs.inode = handle.target.inode → entry.size = data.length := by
  obtain ⟨inode, c, hclean, hfound, hcell, rfl⟩ := cell_of_content hshape hroot hread
  have hnode := (store.cell?_eq_some_iff).mp hcell
  have hsize : c.entry.size = c.active.length := by
    rw [(hsound inode c hcell).entry_size, (hsound inode c hcell).length_active]
  have hopened : view.openNode store clock path .rdonly ⟨0⟩ = _ := openNode_of_found hclean hfound
  refine ⟨_, by rw [openRead, hopened]; rfl, ?_, ?_⟩
  · rw [Handle.stat_onNode hnode]
    exact congrArg Except.ok ((size_rebased c.entry _).trans hsize)
  · intro other path' entry hstat hsame
    obtain ⟨i, node, -, hi, rfl⟩ := stat_eq_ok_iff.mp hstat
    have htarget : (Handle.onNode store inode .rdonly (Path.cleaned path)
        (view.base store)).1.target.inode = inode := by
      rw [Handle.onNode, store.dir?_eq_none_of_cell? hcell]
      rfl
    rw [htarget, Entry.attrs_rebased, hlabelled.inode i node hi] at hsame
    subst hsame
    obtain rfl := Option.some.inj (hnode.symm.trans hi)
    exact (size_rebased c.entry _).trans hsize

end View

namespace Session

/-- What holds of all contents of a tree. -/
structure Buffered (session : Session) : Prop where
  cells : session.store.Sound session.store.config.maxContentLen
  /-- A directory has no content. -/
  dirs : ∀ i d, session.store.dir? i = some d → d.entry.size = 0
  /-- Every entry of a file shows as its size how many bytes are read from it. -/
  sizes : ∀ view ∈ session.views, ∀ clock path data,
    (view.content session.store clock path).1 = .ok data →
    ∃ handle, (view.openRead session.store clock path).1 = .ok handle ∧
      (handle.stat session.store).map Entry.size = .ok data.length ∧
      ∀ (other : View) path' entry, other.stat session.store path' = .ok entry →
        entry.attrs.inode = handle.target.inode → entry.size = data.length

theorem Reachable.buffered {session : Session} (hreach : session.Reachable)
    (hgrows : session.store.config.GrowsWithin session.store.config.maxContentLen) :
    session.Buffered where
  cells := hreach.sound hgrows
  dirs := hreach.shape.dirSize
  sizes := fun view hview _ _ _ hread => View.size_of_content hreach.shape hreach.labelled
    (hreach.sound hgrows) (hreach.rooted view hview) hread

end Session

/-- Whatever a run does, the contents of the tree stay in order, and no buffer becomes smaller. -/
theorem buffered_run {session : Session} (hreach : session.Reachable)
    (hgrows : session.store.config.GrowsWithin session.store.config.maxContentLen)
    (commands : List (Clock × Command)) :
    (session.run commands).2.Buffered ∧
      session.store.KeepsRoom (session.run commands).2.store := by
  have hchanges := hreach.rooted.run_changes commands
  refine ⟨Session.Reachable.buffered (hreach.run commands) ?_,
    hchanges.keepsRoom hreach.config_valid hgrows (hreach.sound hgrows)⟩
  rwa [hchanges.config_eq]

/-- A file without bytes under the settings with room for 8 of them. -/
def newFile : Session :=
  ((Session.create scant .permissive 0).run [(fun _ => 0, .view 0 (.create "f"))]).2

theorem newFile_reachable : newFile.Reachable :=
  Session.ReachableBy.run (.build (Session.build_eq_ok scant_valid none 0)) _

/-- A first byte, two more that are refused because the clock has gone back, the same again in time,
more than there is room for, and the file emptied by another handle. -/
def growAndEmpty : List (Clock × Command) :=
  [(fun _ => 5, .handle 0 (.write [1])), (fun _ => 4, .handle 0 (.write [2, 3])),
    (fun _ => 5, .handle 0 (.write [2, 3])), (fun _ => 6, .handle 0 (.write [4, 5, 6, 7, 8, 9])),
    (fun _ => 6, .view 0 (.openFile "f" (.union .rdwr .trunc) ⟨0⟩))]

theorem buffered_run_growAndEmpty :
    newFile.Reachable ∧ (newFile.run growAndEmpty).2.Buffered ∧
      newFile.store.KeepsRoom (newFile.run growAndEmpty).2.store ∧
      (List.range 6).map (fun n => ((newFile.run (growAndEmpty.take n)).2.store.cell? 2).map
          fun c => (c.active, c.capacity)) =
        [some ([], 0), some ([1], 2), some ([1], 6), some ([1, 2, 3], 6), some ([1, 2, 3], 6),
          some ([], 6)] := by
  obtain ⟨hbuffered, hroom⟩ := buffered_run newFile_reachable scant_growsWithin growAndEmpty
  exact ⟨newFile_reachable, hbuffered, hroom, by decide +kernel⟩

end VirtualFs.Tree
