import VirtualFs.Proofs.Path.Keys
import VirtualFs.Proofs.Tree.Shape

namespace VirtualFs.Tree

namespace Store

/-- What all trees have in common whose nodes were made along tidy paths. -/
structure TidyShape (store : Store) : Prop extends Shape store where
  rootPath : store.pathOf rootInode = "."
  /-- The path of a child continues that of its parent with a tidy name. -/
  child : ∀ i name j, store.child? i name = some (.node j) →
    Path.IsTidyName name ∧ store.pathOf j = Path.join (store.pathOf i) name

variable {store store' : Store} {parent i : Nat} {key : List String} {name : String} {node : Node}

namespace TidyShape

/-- Whatever a key without `"."` leads to has the key joined as its path. -/
theorem pathOf_leads (hshape : store.TidyShape) (hdots : ∀ s ∈ key, s ≠ ".")
    (hleads : store.leads rootInode key = some i) :
    Path.IsKey key ∧ store.pathOf i = Path.ofKey key := by
  induction key using List.reverseRecOn generalizing i with
  | nil =>
    simp only [leads_nil, Option.some.injEq] at hleads
    rw [← hleads, hshape.rootPath]
    exact ⟨Path.isKey_nil, rfl⟩
  | append_singleton front name ih =>
    have hdot := hdots name (by simp)
    obtain ⟨parent, hparent, hchild⟩ := hshape.parent_of_leads_concat hdot hleads
    obtain ⟨hname, hpath⟩ := hshape.child _ _ _ hchild
    obtain ⟨hfront, hparentPath⟩ := ih (fun s hs => hdots s (List.mem_append_left _ hs)) hparent
    rw [hpath, hparentPath, Path.join_ofKey_name hfront hname hdot]
    exact ⟨Path.isKey_append.mpr ⟨hfront, Path.isKey_singleton.mpr ⟨hname, hdot⟩⟩, rfl⟩

theorem path_of_leads (hshape : store.TidyShape) (hdots : ∀ s ∈ key, s ≠ ".")
    (hleads : store.leads rootInode key = some i) (hnode : store.node? i = some node) :
    node.entry.path = Path.ofKey key :=
  (store.pathOf_of_node? hnode).symm.trans (hshape.pathOf_leads hdots hleads).2

theorem isTidyName_of_mem_childNames (hshape : store.TidyShape)
    (hname : name ∈ store.childNames i) : Path.IsTidyName name := by
  obtain ⟨child, node, hchild, -, -, -, hdot⟩ := hshape.exists_node_of_mem_childNames hname
  exact (hshape.child i name child.inode
    (hchild.trans (congrArg some (hshape.child?_eq hchild hdot)))).1

/-- A tidy name in a directory makes the path of a key. -/
theorem exists_key_concat (hshape : store.TidyShape) (hparent : (store.dir? parent).isSome)
    (hname : Path.IsTidyName name) (hdot : name ≠ ".") :
    ∃ key, Path.IsKey key ∧ Path.join (store.pathOf parent) name = Path.ofKey key := by
  obtain ⟨key, hdots, hleads⟩ := hshape.reached parent (store.isSome_node?_of_dir? hparent)
  obtain ⟨hkey, hpath⟩ := hshape.pathOf_leads hdots hleads
  rw [hpath, Path.join_ofKey_name hkey hname hdot]
  exact ⟨_, Path.isKey_append.mpr ⟨hkey, Path.isKey_singleton.mpr ⟨hname, hdot⟩⟩, rfl⟩

/-- The entry of a node that is made under a tidy name has the path that belongs there. -/
theorem path_of_create (hshape : store.TidyShape) {attrs : Attributes} {rules : PathRules}
    {entry : Entry} (hparent : (store.dir? parent).isSome) (hname : Path.IsTidyName name)
    (hdot : name ≠ ".")
    (hentry : Entry.create (Path.join (store.pathOf parent) name) attrs rules = .ok entry) :
    entry.path = Path.join (store.pathOf parent) name := by
  obtain ⟨key, hkey, hpath⟩ := hshape.exists_key_concat hparent hname hdot
  rw [hpath] at hentry ⊢
  exact Entry.path_of_create hkey hentry

/-- A tree keeps its shape when a node is added under a free tidy name, with the path that
belongs there. -/
theorem addNode (hshape : store.TidyShape) (hparent : (store.dir? parent).isSome)
    (hname : Path.IsTidyName name) (hfree : store.child? parent name = none)
    (hpath : node.entry.path = Path.join (store.pathOf parent) name)
    (hkind : node.entry.isDir = node.isDir)
    (hfresh : ∀ d, node = .dir d → d = .empty store.nextInode d.entry ∧ d.entry.size = 0) :
    (store.addNode parent name node).TidyShape where
  toShape := hshape.toShape.addNode hparent hfree hkind hfresh
  rootPath := by
    rw [pathOf_addNode hparent, if_neg (store.ne_nextInode_of_dir? hshape.root)]
    exact hshape.rootPath
  child := by
    intro i query j hlook
    rw [pathOf_addNode hparent, pathOf_addNode hparent]
    rcases child?_addNode_cases hparent hfree (fun d hd => (hfresh d hd).1) hlook with
      ⟨rfl, rfl, hchild⟩ | ⟨-, hchild⟩ | hbefore
    · obtain rfl := Child.node.inj hchild
      exact ⟨hname, by rw [if_pos rfl, if_neg (store.ne_nextInode_of_dir? hparent), hpath]⟩
    · cases hchild
    · obtain ⟨htidy, hjoin⟩ := hshape.child i query j hbefore
      have hi := store.ne_nextInode_of_dir? (dir?_isSome_of_child? hbefore)
      have hj := store.ne_nextInode_of_node? (hshape.edge i query j hbefore).2.1
      exact ⟨htidy, by rw [if_neg hi, if_neg hj, hjoin]⟩

end TidyShape

theorem SameForms.tidyShape (hforms : SameForms store store') (hshape : store.TidyShape) :
    store'.TidyShape where
  toShape := hforms.shape hshape.toShape
  rootPath := hforms.pathOf_eq.trans hshape.rootPath
  child := by
    intro i name j hchild
    rw [hforms.child?_eq] at hchild
    rw [hforms.pathOf_eq, hforms.pathOf_eq]
    exact hshape.child i name j hchild

theorem Change.tidyShape (hstep : Change Path.IsTidyName store store')
    (hshape : store.TidyShape) : store'.TidyShape := by
  rcases hstep.sameForms_or_addNode with
    hforms | ⟨parent, name, node, _, rfl, hparent, hname, hfree, hentry, hkind, hfresh⟩
  · exact hforms.tidyShape hshape
  · have hdot : name ≠ "." := by
      rintro rfl
      rw [hshape.self parent hparent] at hfree
      cases hfree
    exact hshape.addNode hparent hname hfree (hshape.path_of_create hparent hname hdot hentry)
      hkind hfresh

/-- The rules accept the path of every node but the root. -/
def Accepted (store : Store) : Prop :=
  ∀ i, (store.node? i).isSome → i ≠ rootInode → store.rules.accepts (store.pathOf i) = true

/-- No node is made at a path that the rules refuse. -/
theorem Change.accepted (hstep : Change Path.IsTidyName store store') (hshape : store.TidyShape)
    (haccepted : store.Accepted) : store'.Accepted := by
  have hrules := hstep.rules_eq
  intro i hnode hroot
  rw [hrules]
  rcases hstep.sameForms_or_addNode with
    hforms | ⟨parent, name, node, _, rfl, hparent, hname, hfree, hentry, -, -⟩
  · rw [hforms.isSome_node?] at hnode
    rw [hforms.pathOf_eq]
    exact haccepted i hnode hroot
  · rw [pathOf_addNode hparent]
    rcases (isSome_node?_addNode hparent i).mp hnode with rfl | hold
    · have hdot : name ≠ "." := by
        rintro rfl
        rw [hshape.self parent hparent] at hfree
        cases hfree
      obtain ⟨key, hkey, hpath⟩ := hshape.exists_key_concat hparent hname hdot
      rw [if_pos rfl, hshape.path_of_create hparent hname hdot hentry, hpath,
        ← Path.trim_ofKey hkey, ← hpath]
      exact Entry.accepts_of_create hentry
    · rw [if_neg (store.ne_nextInode_of_node? hold)]
      exact haccepted i hold hroot

theorem tidyShape_create (config : Config) (rules : PathRules) (now : Time) :
    (Store.create config rules now).TidyShape where
  toShape := shape_create config rules now
  rootPath := rfl
  child := by
    intro i name j hlook
    obtain ⟨d, hd⟩ := Option.isSome_iff_exists.mp (dir?_isSome_of_child? hlook)
    obtain ⟨-, hdir⟩ := node?_create ((dir?_eq_some_iff _).mp hd)
    rw [child?, hd, Option.bind_some, Node.dir.inj hdir] at hlook
    by_cases hname : name = "." <;> simp [hname] at hlook

end Store

theorem Session.ReachableBy.tidyShape {session : Session} (hreach : session.TidilyReachable) :
    session.store.TidyShape :=
  hreach.store_induction (fun hrooted htidy => htidy.changes hrooted)
    (fun config rules now _ => Store.tidyShape_create config rules now) fun hstep => hstep.tidyShape

theorem Session.ReachableBy.accepted {session : Session} (hreach : session.TidilyReachable) :
    session.store.Accepted := by
  have hboth : session.store.TidyShape ∧ session.store.Accepted :=
    hreach.store_induction (P := fun s => s.TidyShape ∧ s.Accepted)
      (fun hrooted htidy => htidy.changes hrooted)
      (fun config rules now _ => ⟨Store.tidyShape_create config rules now, fun i hnode hroot => by
        obtain ⟨node, hnode⟩ := Option.isSome_iff_exists.mp hnode
        exact absurd (Store.node?_create hnode).1 hroot⟩)
      fun hstep h => ⟨hstep.tidyShape h.1, hstep.accepted h.1 h.2⟩
  exact hboth.2

end VirtualFs.Tree
