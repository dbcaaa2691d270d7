import VirtualFs.Proofs.Tree.Descent
import VirtualFs.Proofs.Tree.Change

namespace VirtualFs.Tree

/-- What a change of content or times leaves as it is in a node. -/
def Node.form : Node → String × Bool × Option (Children × Nat)
  | .dir d => (d.entry.path, d.entry.isDir, some (d.children, d.entry.size))
  | .file c => (c.entry.path, c.entry.isDir, none)

namespace Store

variable {store store' : Store}

/-- The nodes of the two stores have the same forms. -/
def SameForms (store store' : Store) : Prop :=
  ∀ i, (store'.node? i).map Node.form = (store.node? i).map Node.form

namespace SameForms

variable {i : Nat}

theorem pathOf_eq (hforms : SameForms store store') : store'.pathOf i = store.pathOf i := by
  have hi := hforms i
  unfold pathOf
  rcases hnode : store.node? i with _ | (d | c) <;>
    rcases hnode' : store'.node? i with _ | (d' | c') <;>
    simp_all [Node.form, Node.entry]

theorem isSome_node? (hforms : SameForms store store') :
    (store'.node? i).isSome = (store.node? i).isSome := by
  have hi := congrArg Option.isSome (hforms i)
  simpa using hi

/-- A directory in one store is a directory with the same children and size in the other. -/
theorem dir? (hforms : SameForms store store') : (store'.dir? i).map
    (fun d => (d.children, d.entry.size)) = (store.dir? i).map
      fun d => (d.children, d.entry.size) := by
  have hi := hforms i
  unfold Store.dir?
  rcases hnode : store.node? i with _ | (d | c) <;>
    rcases hnode' : store'.node? i with _ | (d' | c') <;>
    simp_all [Node.form]

theorem child?_eq (hforms : SameForms store store') (name : String) :
    store'.child? i name = store.child? i name := by
  have hchild : ∀ s : Store, s.child? i name =
      ((s.dir? i).map fun d => (d.children, d.entry.size)).bind
        fun form => form.1.lookup name := by
    intro s
    unfold child?
    cases s.dir? i <;> rfl
  rw [hchild, hchild, hforms.dir?]

theorem leads_eq (hforms : SameForms store store') (key : List String) :
    store'.leads i key = store.leads i key := by
  induction key generalizing i with
  | nil => rfl
  | cons name rest ih =>
    rw [leads_cons, leads_cons, hforms.child?_eq]
    congr
    funext child
    exact ih

theorem isSome_dir? (hforms : SameForms store store') :
    (store'.dir? i).isSome = (store.dir? i).isSome := by
  have hi := congrArg Option.isSome (hforms.dir? (i := i))
  simpa using hi

end SameForms

/-- What became of a cell by a write has its path and its type. -/
theorem form_writeAt (config : Config) (now : Time) (c : Cell) (offset : Nat) (data : Bytes) :
    Node.form (.file (c.writeAt config now offset data).2) = Node.form (.file c) := by
  unfold Cell.writeAt
  split
  · rfl
  split
  · rfl
  split
  · rfl
  next roomy hmade =>
  obtain ⟨hentry, -⟩ := Cell.makeRoom_keeps hmade
  split
  · simp only [Node.form, hentry]
  · next entry hset =>
    obtain ⟨rfl, _, _⟩ := Entry.setModTime_eq_ok hset
    simp only [Node.form, Cell.patch, Entry.path_setSize, Entry.isDir_setSize, hentry]
    rfl

theorem sameForms_touch {inode : Nat} {d : Directory} {now : Time} {entry : Entry}
    (hdir : store.dir? inode = some d) (hentry : d.entry.setModTime now = .ok entry) :
    SameForms store (store.modifyDir inode fun d => { d with entry := entry }) := by
  obtain ⟨rfl, -, -⟩ := Entry.setModTime_eq_ok hentry
  intro i
  have hnode := (store.dir?_eq_some_iff).mp hdir
  rw [node?_modifyDir]
  split
  · next other hother =>
    split
    · next hi =>
      subst hi
      rw [hnode] at hother
      obtain rfl := Node.dir.inj (Option.some.inj hother)
      rw [hnode]
      rfl
    · rw [hother]
  · rfl

theorem touch_sameForms (store : Store) (inode : Nat) (now : Time) :
    SameForms store (store.touch inode now).2 := by
  unfold touch
  split
  · exact fun _ => rfl
  next d hdir =>
  split
  · next entry hentry => exact sameForms_touch hdir hentry
  · exact fun _ => rfl

theorem sameForms_modifyCell {inode : Nat} {change : Cell → Cell}
    (hform : ∀ c, store.cell? inode = some c →
      Node.form (.file (change c)) = Node.form (.file c)) :
    SameForms store (store.modifyCell inode change) := by
  intro i
  rw [node?_modifyCell]
  split
  · next c hc =>
    rw [hc]
    split
    · next hi =>
      subst hi
      rw [Option.map_some, Option.map_some, hform c ((store.cell?_eq_some_iff).mpr hc)]
    · rfl
  · rfl

section

variable {parent inode : Nat} {name : String} {node : Node}

theorem child?_addNode (node : Node) (hparent : (store.dir? parent).isSome)
    (hfree : store.child? parent name = none) (i : Nat) (query : String) :
    (store.addNode parent name node).child? i query =
      if i = store.nextInode then
        match node with
        | .dir d => d.child? query
        | .file _ => none
      else if parent = i ∧ query = name then some (.node store.nextInode)
      else store.child? i query := by
  unfold child?
  rw [store.dir?_addNode hparent]
  by_cases hi : i = store.nextInode
  · rw [if_pos hi, if_pos hi]
    cases node <;> rfl
  rw [if_neg hi, if_neg hi]
  by_cases hp : parent = i
  · subst hp
    obtain ⟨d, hd⟩ := Option.isSome_iff_exists.mp hparent
    have hlookup : d.children.lookup name = none := by
      simpa [child?, hd, Directory.child?] using hfree
    simp only [if_true, hd, Option.map_some, Option.bind_some, Directory.child?,
      Children.lookup_insert hlookup, true_and]
  · rw [if_neg hp, if_neg fun h => hp h.1]

/-- What is found under a name in a directory that grew by a node of that name. -/
theorem child?_addNode_self (hparent : (store.dir? parent).isSome)
    (hfree : store.child? parent name = none) :
    (store.addNode parent name node).child? parent name = some (.node store.nextInode) := by
  have hold : parent ≠ store.nextInode := store.ne_nextInode_of_dir? hparent
  rw [child?_addNode node hparent hfree, if_neg hold, if_pos ⟨rfl, rfl⟩]

theorem pathOf_addNode (hparent : (store.dir? parent).isSome) (i : Nat) :
    (store.addNode parent name node).pathOf i =
      if i = store.nextInode then node.entry.path else store.pathOf i := by
  unfold pathOf
  rw [store.node?_addNode hparent]
  by_cases hi : i = store.nextInode
  · rw [if_pos hi, if_pos hi]
  · rw [if_neg hi, if_neg hi]
    rcases store.node? i with _ | (d | c)
    · rfl
    · simp only [Node.entry]
      split <;> rfl
    · rfl

theorem isSome_node?_addNode (hparent : (store.dir? parent).isSome) (i : Nat) :
    ((store.addNode parent name node).node? i).isSome ↔
      i = store.nextInode ∨ (store.node? i).isSome := by
  rw [store.node?_addNode hparent]
  by_cases hi : i = store.nextInode
  · simp [hi]
  · rw [if_neg hi]
    rcases store.node? i with _ | (d | c) <;> simp [hi]

theorem child?_nextInode (query : String) : store.child? store.nextInode query = none := by
  have hdir : store.dir? store.nextInode = none := by
    unfold dir?
    rw [store.node?_nextInode]
  simp [child?, hdir]

/-- What names led to before a node was added they lead to still. -/
theorem child?_addNode_of_eq_some (hparent : (store.dir? parent).isSome)
    (hfree : store.child? parent name = none) {i : Nat} {query : String} {child : Child}
    (hchild : store.child? i query = some child) :
    (store.addNode parent name node).child? i query = some child := by
  have hi : i ≠ store.nextInode := by
    rintro rfl
    rw [child?_nextInode] at hchild
    cases hchild
  have hother : ¬ (parent = i ∧ query = name) := by
    rintro ⟨rfl, rfl⟩
    rw [hfree] at hchild
    cases hchild
  rw [child?_addNode node hparent hfree, if_neg hi, if_neg hother, hchild]

/-- What names lead to after a node was added: the node stands under its name, and under `"."` in
itself if it is a directory. -/
theorem child?_addNode_cases {i : Nat} {query : String} {child : Child}
    (hparent : (store.dir? parent).isSome) (hfree : store.child? parent name = none)
    (hfresh : ∀ d, node = .dir d → d = .empty store.nextInode d.entry)
    (hlook : (store.addNode parent name node).child? i query = some child) :
    (i = parent ∧ query = name ∧ child = .node store.nextInode) ∨
      (query = "." ∧ child = .dot store.nextInode) ∨ store.child? i query = some child := by
  rw [child?_addNode node hparent hfree] at hlook
  by_cases hi : i = store.nextInode
  · rw [if_pos hi] at hlook
    cases node with
    | file c => cases hlook
    | dir d =>
      rw [hfresh d rfl] at hlook
      simp only [Directory.child?_empty] at hlook
      split at hlook
      · next hquery => exact .inr (.inl ⟨hquery, (Option.some.inj hlook).symm⟩)
      · cases hlook
  · rw [if_neg hi] at hlook
    split at hlook
    · next hplace => exact .inl ⟨hplace.1.symm, hplace.2, (Option.some.inj hlook).symm⟩
    · exact .inr (.inr hlook)

/-- The directories after a node was added: the node, its parent with one more child, and those that
were there. -/
theorem dir?_addNode_cases {i : Nat} {d : Directory} (hparent : (store.dir? parent).isSome)
    (hdir : (store.addNode parent name node).dir? i = some d) :
    (i = store.nextInode ∧ node = .dir d) ∨
      (∃ old, store.dir? parent = some old ∧ i = parent ∧
        d = { old with children := old.children.insert name (.node store.nextInode) }) ∨
      store.dir? i = some d := by
  rw [store.dir?_addNode hparent] at hdir
  by_cases hi : i = store.nextInode
  · rw [if_pos hi] at hdir
    cases node with
    | file c => cases hdir
    | dir fresh => exact .inl ⟨hi, congrArg Node.dir (Option.some.inj hdir)⟩
  · rw [if_neg hi] at hdir
    split at hdir
    · next hp =>
      subst hp
      obtain ⟨old, hold, heq⟩ := Option.map_eq_some_iff.mp hdir
      exact .inr (.inl ⟨old, hold, rfl, heq.symm⟩)
    · exact .inr (.inr hdir)

/-- The nodes after a node was added: it, and those that were there with the entries that they had. -/
theorem node?_addNode_cases {i : Nat} {found : Node} (hparent : (store.dir? parent).isSome)
    (hfound : (store.addNode parent name node).node? i = some found) :
    (i = store.nextInode ∧ found = node) ∨
      ∃ old, store.node? i = some old ∧ old.entry = found.entry ∧ old.isDir = found.isDir := by
  rw [store.node?_addNode hparent] at hfound
  split at hfound
  · next hi => exact .inl ⟨hi, (Option.some.inj hfound).symm⟩
  right
  split at hfound
  · next d hd =>
    obtain rfl := Option.some.inj hfound
    refine ⟨_, hd, ?_, rfl⟩
    simp only [Node.entry]
    split <;> rfl
  · exact ⟨found, hfound, rfl, rfl⟩

end

/-- A primitive step leaves the forms of all nodes as they are, or it puts a node under a new
number and a free name of a directory. -/
theorem Change.sameForms_or_addNode {named : String → Prop} (hstep : Change named store store') :
    SameForms store store' ∨
      ∃ parent name node attrs, store' = store.addNode parent name node ∧
        (store.dir? parent).isSome ∧ named name ∧ store.child? parent name = none ∧
        Entry.create (Path.join (store.pathOf parent) name) attrs store.rules = .ok node.entry ∧
        node.entry.isDir = node.isDir ∧
        ∀ d, node = .dir d → d = .empty store.nextInode d.entry ∧ d.entry.size = 0 := by
  cases hstep with
  | reserve => exact .inl fun i => by rw [node?_reserve]
  | addDir hparent hname hdot hfree hentry =>
    have hattrs := Entry.attrs_of_create hentry
    refine .inr ⟨_, _, _, _, rfl, hparent, hname, hfree, hentry, ?_, ?_⟩
    · simp [Node.entry, Directory.empty, Entry.isDir, hattrs, Attributes.createdAt, Node.isDir]
    · rintro d hd
      obtain rfl := Node.dir.inj hd
      exact ⟨rfl, by simp [Directory.empty, Entry.size, hattrs, Attributes.createdAt]⟩
  | addFile hparent hname hfree hentry =>
    have hattrs := Entry.attrs_of_create hentry
    refine .inr ⟨_, _, _, _, rfl, hparent, hname, hfree, hentry, ?_, ?_⟩
    · simp [Node.entry, Cell.empty, Entry.isDir, hattrs, Attributes.createdAt, Node.isDir]
    · rintro d hd
      cases hd
  | touch hdir hentry => exact .inl (sameForms_touch hdir hentry)
  | truncate hcell =>
    exact .inl (sameForms_modifyCell fun c _ => by simp [Node.form, Cell.truncate])
  | write hcell now offset data =>
    refine .inl (sameForms_modifyCell fun c hc => ?_)
    obtain rfl := Option.some.inj (hcell.symm.trans hc)
    exact form_writeAt _ now _ offset data
  | close => exact .inl fun i => by cases i <;> rfl

/-- Whatever names lead to they lead to ever after. -/
theorem Change.child?_eq_some {named : String → Prop} (hstep : Change named store store') {i : Nat}
    {name : String} {child : Child} (hchild : store.child? i name = some child) :
    store'.child? i name = some child := by
  rcases hstep.sameForms_or_addNode with
    hforms | ⟨parent, query, node, _, rfl, hparent, -, hfree, _⟩
  · rw [hforms.child?_eq, hchild]
  · exact child?_addNode_of_eq_some hparent hfree hchild

theorem Changes.leads_eq_some {named : String → Prop} (hchanges : Changes named store store')
    {dir i : Nat} {key : List String} (hleads : store.leads dir key = some i) :
    store'.leads dir key = some i :=
  leads_mono (fun j name child hchild => hchanges.preserves
    (P := fun s => s.child? j name = some child) (fun hstep => hstep.child?_eq_some) hchild) hleads

/-- The path of a node never changes. -/
theorem Change.pathOf_eq {named : String → Prop} (hstep : Change named store store') {i : Nat}
    (hnode : (store.node? i).isSome) : store'.pathOf i = store.pathOf i := by
  rcases hstep.sameForms_or_addNode with hforms | ⟨parent, name, node, _, rfl, hparent, _⟩
  · exact hforms.pathOf_eq
  · rw [pathOf_addNode hparent, if_neg (store.ne_nextInode_of_node? hnode)]

theorem Changes.pathOf_eq {named : String → Prop} (hchanges : Changes named store store') {i : Nat}
    (hnode : (store.node? i).isSome) : store'.pathOf i = store.pathOf i := by
  have hkept := hchanges.preserves
    (P := fun s => (s.node? i).isSome ∧ s.pathOf i = store.pathOf i)
    (fun hstep h => ⟨hstep.node?_isSome h.1, (hstep.pathOf_eq h.1).trans h.2⟩) ⟨hnode, rfl⟩
  exact hkept.2

end Store

end VirtualFs.Tree
