import Mathlib.Data.List.Induction
import VirtualFs.Proofs.Tree.Forms
import VirtualFs.Proofs.Tree.Reachable

namespace VirtualFs.Tree

namespace Children

/-- The names stand in the order of their bytes, none of them twice. -/
def Sorted (children : Children) : Prop :=
  (children.map (·.1)).Pairwise fun a b => Text.before a b = true

theorem mem_names_insert {name query : String} {child : Child} {children : Children} :
    query ∈ (children.insert name child).map (·.1) ↔
      query = name ∨ query ∈ children.map (·.1) := by
  induction children with
  | nil => simp [insert]
  | cons head rest ih =>
    obtain ⟨n, c⟩ := head
    unfold insert
    split
    · simp
    · simp only [List.map_cons, List.mem_cons, ih]
      exact or_left_comm

/-- A new name takes its place in the order. -/
theorem Sorted.insert {name : String} {child : Child} {children : Children}
    (hsorted : children.Sorted) (hfree : children.lookup name = none) :
    (children.insert name child).Sorted := by
  induction children with
  | nil => simp [Sorted, Children.insert]
  | cons head rest ih =>
    obtain ⟨n, c⟩ := head
    rw [lookup_cons] at hfree
    have hne : name ≠ n := by
      intro heq
      simp [heq] at hfree
    rw [if_neg hne] at hfree
    simp only [Sorted, List.map_cons, List.pairwise_cons] at hsorted
    obtain ⟨hfirst, hrest⟩ := hsorted
    unfold Children.insert Sorted
    split
    · next hbefore =>
      simp only [List.map_cons, List.pairwise_cons, List.mem_cons]
      refine ⟨?_, hfirst, hrest⟩
      rintro query (rfl | hquery)
      · exact hbefore
      · exact Text.before_trans hbefore (hfirst query hquery)
    · next hnot =>
      simp only [List.map_cons, List.pairwise_cons]
      refine ⟨?_, ih hrest hfree⟩
      intro query hquery
      rcases mem_names_insert.mp hquery with rfl | hold
      · exact Text.before_of_not (by simpa using hnot) hne
      · exact hfirst query hold

end Children

namespace Store

/-- What all trees have in common. -/
structure Shape (store : Store) : Prop where
  root : (store.dir? rootInode).isSome
  /-- A directory leads to itself under the name `"."`. -/
  self : ∀ i, (store.dir? i).isSome → store.child? i "." = some (.dot i)
  dot : ∀ i name j, store.child? i name = some (.dot j) → name = "."
  /-- Every other name leads on to a younger node. -/
  edge : ∀ i name j, store.child? i name = some (.node j) →
    i < j ∧ (store.node? j).isSome ∧ name ≠ "."
  /-- No node has two places. -/
  place : ∀ i name i' name' j, store.child? i name = some (.node j) →
    store.child? i' name' = some (.node j) → i = i' ∧ name = name'
  /-- No node is out of reach. -/
  reached : ∀ i, (store.node? i).isSome → ∃ key : List String, (∀ s ∈ key, s ≠ ".") ∧
    store.leads rootInode key = some i
  sorted : ∀ i d, store.dir? i = some d → d.children.Sorted
  /-- The entry of a node has the type of the node. -/
  kind : ∀ i node, store.node? i = some node → node.entry.isDir = node.isDir
  dirSize : ∀ i d, store.dir? i = some d → d.entry.size = 0

variable {store store' : Store}

namespace Shape

variable {dir inode i j : Nat} {key key' : List String} {name : String} {child : Child}

/-- Names other than `"."` lead to nodes by edges. -/
theorem child?_eq (hshape : store.Shape) (hchild : store.child? i name = some child)
    (hdot : name ≠ ".") : child = .node child.inode := by
  cases child with
  | node j => rfl
  | dot j => exact absurd (hshape.dot i name j hchild) hdot

/-- A directory names its children in the order of their bytes. -/
theorem sorted_childNames (hshape : store.Shape) (i : Nat) :
    (store.childNames i).Pairwise fun a b => Text.before a b = true := by
  unfold childNames Directory.childNames
  cases hdir : store.dir? i with
  | none => exact .nil
  | some d => exact (hshape.sorted i d hdir).sublist List.filter_sublist

theorem nodup_childNames (hshape : store.Shape) (i : Nat) : (store.childNames i).Nodup :=
  (hshape.sorted_childNames i).imp fun hbefore heq => by simp [heq] at hbefore

/-- Each name in a directory leads on to a younger node. -/
theorem exists_node_of_mem_childNames (hshape : store.Shape) (hname : name ∈ store.childNames dir) :
    ∃ child node, store.child? dir name = some child ∧ store.node? child.inode = some node ∧
      dir < child.inode ∧ child.inode ≤ store.nodes.length ∧ name ≠ "." := by
  obtain ⟨hsome, hdot⟩ := store.mem_childNames_iff.mp hname
  obtain ⟨child, hchild⟩ := Option.isSome_iff_exists.mp hsome
  obtain ⟨hlt, hnode, -⟩ := hshape.edge dir name child.inode
    (hchild.trans (congrArg some (hshape.child?_eq hchild hdot)))
  obtain ⟨node, hnode'⟩ := Option.isSome_iff_exists.mp hnode
  exact ⟨child, node, hchild, hnode', hlt, Nat.le_of_lt_succ (store.lt_nextInode_of_node? hnode),
    hdot⟩

/-- No name leads back to the root. -/
theorem ne_root_of_child? (hshape : store.Shape) (hchild : store.child? i name = some child)
    (hdot : name ≠ ".") : child.inode ≠ rootInode := by
  intro hroot
  obtain ⟨hlt, -⟩ := hshape.edge i name child.inode
    (hchild.trans (congrArg some (hshape.child?_eq hchild hdot)))
  rw [hroot, rootInode, Nat.lt_one_iff] at hlt
  subst hlt
  cases hchild

/-- The last step of a way that leads somewhere. -/
theorem parent_of_leads_concat (hshape : store.Shape) (hdot : name ≠ ".")
    (hleads : store.leads dir (key ++ [name]) = some i) :
    ∃ parent, store.leads dir key = some parent ∧ store.child? parent name = some (.node i) := by
  rw [leads_concat] at hleads
  obtain ⟨parent, hparent, hlast⟩ := Option.bind_eq_some_iff.mp hleads
  obtain ⟨child, hchild, rfl⟩ := Option.map_eq_some_iff.mp hlast
  exact ⟨parent, hparent, hchild.trans (congrArg some (hshape.child?_eq hchild hdot))⟩

/-- The tree below the root does not go back to it. -/
theorem leads_eq_root (hshape : store.Shape) (hdots : ∀ s ∈ key, s ≠ ".")
    (hleads : store.leads rootInode key = some rootInode) : key = [] := by
  rcases List.eq_nil_or_concat' key with hnil | ⟨front, name, rfl⟩
  · exact hnil
  · obtain ⟨parent, -, hchild⟩ := hshape.parent_of_leads_concat (hdots name (by simp)) hleads
    exact absurd rfl (hshape.ne_root_of_child? hchild (hdots name (by simp)))

/-- No two keys lead to one node. -/
theorem leads_inj (hshape : store.Shape) (hdots : ∀ s ∈ key, s ≠ ".")
    (hdots' : ∀ s ∈ key', s ≠ ".") (hleads : store.leads rootInode key = some i)
    (hleads' : store.leads rootInode key' = some i) : key = key' := by
  induction key using List.reverseRecOn generalizing key' i with
  | nil =>
    obtain rfl := Option.some.inj hleads
    exact (hshape.leads_eq_root hdots' hleads').symm
  | append_singleton front name ih =>
    rcases List.eq_nil_or_concat' key' with rfl | ⟨front', name', rfl⟩
    · obtain rfl := Option.some.inj hleads'
      exact hshape.leads_eq_root hdots hleads
    · obtain ⟨parent, hparent, hchild⟩ :=
        hshape.parent_of_leads_concat (hdots name (by simp)) hleads
      obtain ⟨parent', hparent', hchild'⟩ :=
        hshape.parent_of_leads_concat (hdots' name' (by simp)) hleads'
      obtain ⟨rfl, rfl⟩ := hshape.place _ _ _ _ _ hchild hchild'
      rw [ih (fun s hs => hdots s (List.mem_append_left _ hs))
        (fun s hs => hdots' s (List.mem_append_left _ hs)) hparent hparent']

/-- Nor do two ways from one directory. -/
theorem leads_inj_of_node? (hshape : store.Shape) (hdir : (store.node? dir).isSome)
    (hdots : ∀ s ∈ key, s ≠ ".") (hdots' : ∀ s ∈ key', s ≠ ".")
    (hleads : store.leads dir key = some i) (hleads' : store.leads dir key' = some i) :
    key = key' := by
  obtain ⟨base, hbase, hleadsDir⟩ := hshape.reached dir hdir
  have hwhole : ∀ key, store.leads rootInode (base ++ key) = store.leads dir key := by
    intro key
    rw [leads_append, hleadsDir, Option.bind_some]
  exact List.append_cancel_left (hshape.leads_inj (List.forall_mem_append.mpr ⟨hbase, hdots⟩)
    (List.forall_mem_append.mpr ⟨hbase, hdots'⟩) ((hwhole key).trans hleads)
    ((hwhole key').trans hleads'))

/-- What names lead to from a directory is there. -/
theorem node?_isSome_of_leads (hshape : store.Shape) (hdir : (store.node? i).isSome)
    (hleads : store.leads i key = some j) : (store.node? j).isSome := by
  induction key generalizing i with
  | nil =>
    simp only [leads_nil, Option.some.injEq] at hleads
    rwa [← hleads]
  | cons name rest ih =>
    rw [leads_cons] at hleads
    obtain ⟨child, hchild, hrest⟩ := Option.bind_eq_some_iff.mp hleads
    refine ih ?_ hrest
    cases child with
    | node k => exact (hshape.edge _ _ _ hchild).2.1
    | dot k =>
      obtain rfl := hshape.dot _ _ _ hchild
      have hself := hshape.self i (dir?_isSome_of_child? hchild)
      rw [hself, Option.some.injEq] at hchild
      rwa [← hchild]

end Shape

theorem SameForms.shape (hforms : SameForms store store') (hshape : store.Shape) :
    store'.Shape where
  root := by
    rw [hforms.isSome_dir?]
    exact hshape.root
  self := by
    intro i hdir
    rw [hforms.child?_eq]
    exact hshape.self i (by rwa [hforms.isSome_dir?] at hdir)
  dot := by
    intro i name j hchild
    rw [hforms.child?_eq] at hchild
    exact hshape.dot i name j hchild
  edge := by
    intro i name j hchild
    rw [hforms.child?_eq] at hchild
    rw [hforms.isSome_node?]
    exact hshape.edge i name j hchild
  place := by
    intro i name i' name' j hchild hchild'
    rw [hforms.child?_eq] at hchild hchild'
    exact hshape.place i name i' name' j hchild hchild'
  reached := by
    intro i hnode
    rw [hforms.isSome_node?] at hnode
    obtain ⟨key, hkey, hleads⟩ := hshape.reached i hnode
    exact ⟨key, hkey, (hforms.leads_eq key).trans hleads⟩
  sorted := by
    intro i d' hdir'
    have hi := hforms.dir? (i := i)
    rw [hdir'] at hi
    obtain ⟨d, hdir, heq⟩ := Option.map_eq_some_iff.mp hi.symm
    rw [← (Prod.mk.inj heq).1]
    exact hshape.sorted i d hdir
  kind := by
    intro i node' hnode'
    have hi := hforms i
    rw [hnode'] at hi
    obtain ⟨node, hnode, heq⟩ := Option.map_eq_some_iff.mp hi.symm
    have hkind := hshape.kind i node hnode
    cases node <;> cases node' <;> simp_all [Node.form, Node.entry, Node.isDir]
  dirSize := by
    intro i d' hdir'
    have hi := hforms.dir? (i := i)
    rw [hdir'] at hi
    obtain ⟨d, hdir, heq⟩ := Option.map_eq_some_iff.mp hi.symm
    rw [← (Prod.mk.inj heq).2]
    exact hshape.dirSize i d hdir

section

variable {parent inode : Nat} {name : String} {node : Node}

/-- The way to a new node is that to its parent and its name; all other ways are as before. -/
theorem leads_addNode (hshape : store.Shape) {key : List String} (hkey : ∀ s ∈ key, s ≠ ".")
    (hparentKey : store.leads rootInode key = some parent) (hparent : (store.dir? parent).isSome)
    (hfree : store.child? parent name = none) (hfresh : ∀ d, node = .dir d →
      d = .empty store.nextInode d.entry) {query : List String} (hquery : ∀ s ∈ query, s ≠ ".") :
    (store.addNode parent name node).leads rootInode query =
      if query = key ++ [name] then some store.nextInode else store.leads rootInode query := by
  induction query using List.reverseRecOn with
  | nil => simp
  | append_singleton front last ih =>
    have hlast : last ≠ "." := hquery last (by simp)
    have hfront : ∀ s ∈ front, s ≠ "." := fun s hs => hquery s (List.mem_append_left _ hs)
    rw [leads_concat, ih hfront]
    by_cases hnew : front = key ++ [name]
    · -- The new node has no child but itself, and there was nothing below it before.
      have hchild : (store.addNode parent name node).child? store.nextInode last = none := by
        rw [child?_addNode node hparent hfree, if_pos rfl]
        cases node with
        | file c => rfl
        | dir d =>
          rw [hfresh d rfl]
          simp [hlast]
      have hlonger : front ++ [last] ≠ key ++ [name] := by
        intro heq
        have hlength := congrArg List.length heq
        simp [hnew] at hlength
      rw [if_pos hnew, Option.bind_some, hchild, if_neg hlonger, leads_concat, hnew, leads_concat,
        hparentKey, Option.bind_some, hfree]
      rfl
    · rw [if_neg hnew, leads_concat]
      cases hleads : store.leads rootInode front with
      | none =>
        have hother : front ++ [last] ≠ key ++ [name] := by
          intro heq
          obtain ⟨rfl, -⟩ := List.append_inj' heq rfl
          simp [hparentKey] at hleads
        rw [if_neg hother]
        rfl
      | some i =>
        have hnode := hshape.node?_isSome_of_leads
          (store.isSome_node?_of_dir? hshape.root) hleads
        have hold : i ≠ store.nextInode := store.ne_nextInode_of_node? hnode
        simp only [Option.bind_some]
        rw [child?_addNode node hparent hfree, if_neg hold]
        by_cases hplace : parent = i ∧ last = name
        · obtain ⟨rfl, rfl⟩ := hplace
          rw [if_pos ⟨rfl, rfl⟩, hshape.leads_inj hfront hkey hleads hparentKey, if_pos rfl]
          rfl
        · have hother : front ++ [last] ≠ key ++ [name] := by
            intro heq
            obtain ⟨rfl, hnames⟩ := List.append_inj' heq rfl
            rw [hparentKey, Option.some.injEq] at hleads
            exact hplace ⟨hleads, by simpa using hnames⟩
          rw [if_neg hplace, if_neg hother]

/-- An edge of the tree with the new node is the one to that node or one that was there. -/
theorem Shape.edge_addNode (hshape : store.Shape) (hparent : (store.dir? parent).isSome)
    (hfree : store.child? parent name = none)
    (hfresh : ∀ d, node = .dir d → d = .empty store.nextInode d.entry) {i j : Nat} {query : String}
    (hchild : (store.addNode parent name node).child? i query = some (.node j)) :
    (i = parent ∧ query = name ∧ j = store.nextInode) ∨
      j ≠ store.nextInode ∧ store.child? i query = some (.node j) := by
  rcases child?_addNode_cases hparent hfree hfresh hchild with
    ⟨hi, hquery, hsame⟩ | ⟨-, hdot⟩ | hbefore
  · exact .inl ⟨hi, hquery, Child.node.inj hsame⟩
  · cases hdot
  · exact .inr ⟨store.ne_nextInode_of_node? (hshape.edge _ _ _ hbefore).2.1, hbefore⟩

/-- A tree keeps its shape when a node is added under a free name. -/
theorem Shape.addNode (hshape : store.Shape) (hparent : (store.dir? parent).isSome)
    (hfree : store.child? parent name = none) (hkind : node.entry.isDir = node.isDir)
    (hfresh : ∀ d, node = .dir d → d = .empty store.nextInode d.entry ∧ d.entry.size = 0) :
    (store.addNode parent name node).Shape := by
  have hdot : name ≠ "." := by
    rintro rfl
    rw [hshape.self parent hparent] at hfree
    cases hfree
  have hold : ∀ {i query child}, store.child? i query = some child →
      (store.addNode parent name node).child? i query = some child :=
    child?_addNode_of_eq_some hparent hfree
  have hnew : (store.addNode parent name node).child? parent name = some (.node store.nextInode) :=
    child?_addNode_self hparent hfree
  have hempty : ∀ d, node = .dir d → d = .empty store.nextInode d.entry := fun d hd =>
    (hfresh d hd).1
  have hedge : ∀ {i query j},
      (store.addNode parent name node).child? i query = some (.node j) →
      (i = parent ∧ query = name ∧ j = store.nextInode) ∨
        j ≠ store.nextInode ∧ store.child? i query = some (.node j) :=
    hshape.edge_addNode hparent hfree hempty
  constructor
  case root =>
    exact dir?_isSome_of_child? (hold (hshape.self _ hshape.root))
  case self =>
    intro i hdir
    obtain ⟨d, hd⟩ := Option.isSome_iff_exists.mp hdir
    rcases dir?_addNode_cases hparent hd with
      ⟨rfl, rfl⟩ | ⟨old, hparentDir, rfl, -⟩ | hbefore
    · rw [child?, hd, hempty d rfl]
      simp
    · exact hold (hshape.self i hparent)
    · exact hold (hshape.self i (by rw [hbefore]; rfl))
  case dot =>
    intro i query j hlook
    rcases child?_addNode_cases hparent hfree hempty hlook with
      ⟨-, -, hchild⟩ | ⟨hquery, -⟩ | hbefore
    · cases hchild
    · exact hquery
    · exact hshape.dot i query j hbefore
  case edge =>
    intro i query j hlook
    rw [isSome_node?_addNode hparent]
    rcases hedge hlook with ⟨rfl, rfl, rfl⟩ | ⟨-, hbefore⟩
    · exact ⟨store.lt_nextInode_of_node? (store.isSome_node?_of_dir? hparent), .inl rfl, hdot⟩
    · obtain ⟨hlt, hnode, hquery⟩ := hshape.edge i query j hbefore
      exact ⟨hlt, .inr hnode, hquery⟩
  case place =>
    intro i query i' query' j hlook hlook'
    rcases hedge hlook with ⟨rfl, rfl, rfl⟩ | ⟨hne, hbefore⟩
    · rcases hedge hlook' with ⟨rfl, rfl, -⟩ | ⟨hne, -⟩
      · exact ⟨rfl, rfl⟩
      · exact absurd rfl hne
    · rcases hedge hlook' with ⟨-, -, rfl⟩ | ⟨-, hbefore'⟩
      · exact absurd rfl hne
      · exact hshape.place _ _ _ _ _ hbefore hbefore'
  case reached =>
    intro i hnode
    rcases (isSome_node?_addNode hparent i).mp hnode with rfl | hbefore
    · obtain ⟨key, hkey, hleads⟩ := hshape.reached parent (store.isSome_node?_of_dir? hparent)
      refine ⟨key ++ [name], Path.forall_mem_concat hkey hdot, ?_⟩
      rw [leads_concat_of_leads (leads_mono (fun _ _ _ => hold) hleads), hnew]
      rfl
    · obtain ⟨key, hkey, hleads⟩ := hshape.reached i hbefore
      exact ⟨key, hkey, leads_mono (fun _ _ _ => hold) hleads⟩
  case sorted =>
    intro i d hdir
    rcases dir?_addNode_cases hparent hdir with
      ⟨-, rfl⟩ | ⟨old, hparentDir, rfl, rfl⟩ | hbefore
    · rw [hempty d rfl]
      simp [Directory.empty, Children.Sorted]
    · apply (hshape.sorted i old hparentDir).insert
      simpa [child?, hparentDir, Directory.child?] using hfree
    · exact hshape.sorted i d hbefore
  case kind =>
    intro i found hfound
    rcases node?_addNode_cases hparent hfound with ⟨-, rfl⟩ | ⟨old, hbefore, hentry, hisDir⟩
    · exact hkind
    · rw [← hentry, ← hisDir]
      exact hshape.kind i old hbefore
  case dirSize =>
    intro i d hdir
    rcases dir?_addNode_cases hparent hdir with
      ⟨-, rfl⟩ | ⟨old, hparentDir, rfl, rfl⟩ | hbefore
    · exact (hfresh d rfl).2
    · exact hshape.dirSize i old hparentDir
    · exact hshape.dirSize i d hbefore

end

theorem Change.shape {named : String → Prop} (hstep : Change named store store')
    (hshape : store.Shape) : store'.Shape := by
  rcases hstep.sameForms_or_addNode with
    hforms | ⟨parent, name, node, _, rfl, hparent, -, hfree, -, hkind, hfresh⟩
  · exact hforms.shape hshape
  · exact hshape.addNode hparent hfree hkind hfresh

theorem Changes.shape {named : String → Prop} (hchanges : Changes named store store')
    (hshape : store.Shape) : store'.Shape :=
  hchanges.preserves (fun hstep => hstep.shape) hshape

/-- A new tree has its root alone. -/
theorem node?_create {config : Config} {rules : PathRules} {now : Time} {i : Nat} {node : Node}
    (hnode : (Store.create config rules now).node? i = some node) : i = rootInode ∧
      node = .dir (.empty rootInode (.root (.createdAt now (.dir config.dirMode) rootInode))) := by
  match i with
  | 0 => cases hnode
  | 1 => exact ⟨rfl, (Option.some.inj hnode).symm⟩
  | _ + 2 => cases hnode

theorem shape_create (config : Config) (rules : PathRules) (now : Time) :
    (Store.create config rules now).Shape := by
  have hdir : ∀ {i d}, (Store.create config rules now).dir? i = some d → i = rootInode ∧
      d = .empty rootInode (.root (.createdAt now (.dir config.dirMode) rootInode)) := by
    intro i d hd
    obtain ⟨hi, hnode⟩ := node?_create ((dir?_eq_some_iff _).mp hd)
    exact ⟨hi, Node.dir.inj hnode⟩
  have hchild : ∀ {i name child}, (Store.create config rules now).child? i name = some child →
      name = "." ∧ child = .dot rootInode := by
    intro i name child hlook
    obtain ⟨d, hd⟩ := Option.isSome_iff_exists.mp (dir?_isSome_of_child? hlook)
    obtain ⟨rfl, rfl⟩ := hdir hd
    rw [child?, hd, Option.bind_some, Directory.child?_empty] at hlook
    split at hlook
    · next hname => exact ⟨hname, (Option.some.inj hlook).symm⟩
    · cases hlook
  constructor
  case root => rfl
  case self =>
    intro i hsome
    obtain ⟨d, hd⟩ := Option.isSome_iff_exists.mp hsome
    obtain ⟨rfl, rfl⟩ := hdir hd
    rfl
  case dot =>
    intro i name j hlook
    exact (hchild hlook).1
  case edge =>
    intro i name j hlook
    cases (hchild hlook).2
  case place =>
    intro i name i' name' j hlook
    cases (hchild hlook).2
  case reached =>
    intro i hnode
    obtain ⟨node, hnode⟩ := Option.isSome_iff_exists.mp hnode
    obtain ⟨rfl, -⟩ := node?_create hnode
    exact ⟨[], List.forall_mem_nil _, rfl⟩
  case sorted =>
    intro i d hd
    rw [(hdir hd).2]
    simp [Directory.empty, Children.Sorted]
  case kind =>
    intro i node hnode
    rw [(node?_create hnode).2]
    exact FileMode.isDir_dir config.dirMode
  case dirSize =>
    intro i d hd
    rw [(hdir hd).2]
    rfl

end Store

variable {session : Session}

theorem Session.ReachableBy.shape {allowed : Session → Clock → Command → Prop}
    (hreach : ReachableBy allowed session) : session.store.Shape :=
  hreach.store_induction (fun hrooted _ => step_changes_segment hrooted _ _)
    (fun config rules now _ => Store.shape_create config rules now) fun hstep => hstep.shape

end VirtualFs.Tree
