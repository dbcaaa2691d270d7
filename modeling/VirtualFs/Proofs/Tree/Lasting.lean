import VirtualFs.Proofs.Tree.Shape

namespace VirtualFs

namespace Entry

/-- What of an entry lasts: everything but its modification time and its size. -/
def lasting (entry : Entry) : Entry :=
  { entry with attrs.mtime := entry.attrs.ctime, attrs.size := 0 }

@[simp] theorem lasting_setSize (entry : Entry) (size : Nat) :
    (entry.setSize size).lasting = entry.lasting := by
  unfold setSize
  split <;> rfl

theorem lasting_of_setModTime {entry entry' : Entry} {now : Time}
    (hset : entry.setModTime now = .ok entry') : entry'.lasting = entry.lasting := by
  obtain ⟨rfl, -, -⟩ := setModTime_eq_ok hset
  rfl

@[simp] theorem attrs_rebased (entry : Entry) (base : String) :
    (entry.rebased base).attrs = entry.attrs := by
  unfold rebased
  split <;> rfl

section

variable {entry entry' : Entry}

theorem path_of_lasting (h : entry'.lasting = entry.lasting) : entry'.path = entry.path :=
  (Entry.mk.inj h).1

theorem mode_of_lasting (h : entry'.lasting = entry.lasting) : entry'.mode = entry.mode :=
  congrArg (·.attrs.mode) h

theorem inode_of_lasting (h : entry'.lasting = entry.lasting) :
    entry'.attrs.inode = entry.attrs.inode :=
  congrArg (·.attrs.inode) h

/-- The path that is seen from a base lasts with the path. -/
theorem lasting_rebased (h : entry'.lasting = entry.lasting) (base : String) :
    (entry'.rebased base).lasting = (entry.rebased base).lasting := by
  have hpath := path_of_lasting h
  have hattrs := congrArg Entry.attrs h
  unfold rebased
  rw [hpath]
  split
  · exact congrArg (Entry.mk _) hattrs
  · exact h

end

end Entry

namespace Tree

/-- What of a node lasts, its kind included. -/
def Node.lasting (node : Node) : Bool × Entry :=
  (node.isDir, node.entry.lasting)

/-- A write changes nothing that lasts, whether it was refused or not. -/
theorem Cell.lasting_writeAt (config : Config) (now : Time) (c : Cell) (offset : Nat)
    (data : Bytes) : (c.writeAt config now offset data).2.entry.lasting = c.entry.lasting := by
  unfold writeAt
  split
  · rfl
  split
  · rfl
  split
  · rfl
  next roomy hmade =>
  obtain ⟨hentry, -⟩ := makeRoom_keeps hmade
  split
  · rw [hentry]
  · next entry hset =>
    rw [hentry] at hset
    rw [patch, Entry.lasting_setSize, Entry.lasting_of_setModTime hset]

namespace Store

variable {named : String → Prop} {store middle store' : Store} {i : Nat} {node node' : Node}

/-- The nodes of one store are in the other too, with everything of them that lasts. -/
def Lasts (store store' : Store) : Prop :=
  ∀ i node, store.node? i = some node →
    ∃ node', store'.node? i = some node' ∧ node'.lasting = node.lasting

theorem Lasts.refl (store : Store) : Lasts store store :=
  fun _ node hnode => ⟨node, hnode, rfl⟩

theorem Lasts.trans (hfirst : Lasts store middle) (hsecond : Lasts middle store') :
    Lasts store store' := by
  intro i node hnode
  obtain ⟨node', hnode', heq⟩ := hfirst i node hnode
  obtain ⟨node'', hnode'', heq'⟩ := hsecond i node' hnode'
  exact ⟨node'', hnode'', heq'.trans heq⟩

/-- A new node is created with the number that it gets and a mode of its kind. -/
def CreatedAs (store : Store) (i : Nat) (node : Node) : Prop :=
  i = store.nextInode ∧ ∃ now bits, node.entry.attrs =
    .createdAt now (if node.isDir then .dir bits else .file bits) i

theorem lasting_of_modifyCell {inode : Nat} {change : Cell → Cell}
    (hchange : ∀ c, store.cell? inode = some c → (change c).entry.lasting = c.entry.lasting)
    (hnode : (store.modifyCell inode change).node? i = some node') :
    ∃ node, store.node? i = some node ∧ node'.lasting = node.lasting := by
  rw [node?_modifyCell] at hnode
  split at hnode
  · next c hc =>
    obtain rfl := Option.some.inj hnode
    refine ⟨_, hc, ?_⟩
    split
    · next hi =>
      subst hi
      exact congrArg (Prod.mk false) (hchange c ((store.cell?_eq_some_iff).mpr hc))
    · rfl
  · exact ⟨node', hnode, rfl⟩

theorem lasting_of_touch {inode : Nat} {d : Directory} {now : Time} {entry : Entry}
    (hdir : store.dir? inode = some d) (hentry : d.entry.setModTime now = .ok entry)
    (hnode : (store.modifyDir inode fun d => { d with entry := entry }).node? i = some node') :
    ∃ node, store.node? i = some node ∧ node'.lasting = node.lasting := by
  rw [node?_modifyDir] at hnode
  split at hnode
  · next other hother =>
    obtain rfl := Option.some.inj hnode
    refine ⟨_, hother, ?_⟩
    split
    · next hi =>
      subst hi
      rw [(store.dir?_eq_some_iff).mp hdir] at hother
      obtain rfl := Node.dir.inj (Option.some.inj hother)
      exact congrArg (Prod.mk true) (Entry.lasting_of_setModTime hentry)
    · rfl
  · exact ⟨node', hnode, rfl⟩

/-- All that a primitive step does to nodes: those that were there last, and a node that was not
there is new. -/
theorem Change.node?_cases (hstep : Change named store store')
    (hnode : store'.node? i = some node') :
    (∃ node, store.node? i = some node ∧ node'.lasting = node.lasting) ∨
      store.CreatedAs i node' := by
  have hadded : ∀ {parent name new}, (store.dir? parent).isSome →
      (store.addNode parent name new).node? i = some node' →
      store.CreatedAs store.nextInode new →
      (∃ node, store.node? i = some node ∧ node'.lasting = node.lasting) ∨
        store.CreatedAs i node' := by
    intro parent name new hparent hfound hcreated
    rcases node?_addNode_cases hparent hfound with ⟨rfl, rfl⟩ | ⟨old, hold, hentry, hisDir⟩
    · exact .inr hcreated
    · exact .inl ⟨old, hold, by rw [Node.lasting, Node.lasting, hentry, hisDir]⟩
  cases hstep with
  | reserve => exact .inl ⟨node', by rwa [node?_reserve] at hnode, rfl⟩
  | @addDir _ _ now mode _ hparent _ _ _ hentry =>
    exact hadded hparent hnode ⟨rfl, now, mode.bits, Entry.attrs_of_create hentry⟩
  | @addFile _ _ now mode _ hparent _ _ hentry =>
    exact hadded hparent hnode ⟨rfl, now, mode.bits, Entry.attrs_of_create hentry⟩
  | touch hdir hentry => exact .inl (lasting_of_touch hdir hentry hnode)
  | truncate hcell =>
    exact .inl (lasting_of_modifyCell (fun c _ => Entry.lasting_setSize c.entry 0) hnode)
  | write hcell now offset data =>
    refine .inl (lasting_of_modifyCell (fun c hc => ?_) hnode)
    obtain rfl := Option.some.inj (hcell.symm.trans hc)
    exact Cell.lasting_writeAt _ now _ offset data
  | close => exact .inl ⟨node', hnode, rfl⟩

theorem Change.lasts (hstep : Change named store store') : Lasts store store' := by
  intro i node hnode
  have hsome : (store.node? i).isSome := by rw [hnode]; rfl
  obtain ⟨node', hnode'⟩ := Option.isSome_iff_exists.mp (hstep.node?_isSome hsome)
  rcases hstep.node?_cases hnode' with ⟨old, hold, heq⟩ | ⟨hfresh, -⟩
  · obtain rfl := Option.some.inj (hnode.symm.trans hold)
    exact ⟨node', hnode', heq⟩
  · exact absurd hfresh (store.ne_nextInode_of_node? hsome)

/-- Whatever happens to a store, its nodes last. -/
theorem Changes.lasts (hchanges : Changes named store store') : Lasts store store' :=
  hchanges.preserves (P := fun s => Lasts store s) (fun hstep h => h.trans hstep.lasts)
    (.refl store)

/-- Every entry carries the number under which its node stands, and the type of the node with
permission bits and no others for its mode. -/
structure Labelled (store : Store) : Prop where
  inode : ∀ i node, store.node? i = some node → node.entry.attrs.inode = i
  mode : ∀ i node, store.node? i = some node →
    ∃ bits, node.entry.mode = if node.isDir then .dir bits else .file bits

theorem Change.labelled (hstep : Change named store store') (hlabelled : store.Labelled) :
    store'.Labelled where
  inode := by
    intro i node' hnode'
    rcases hstep.node?_cases hnode' with ⟨node, hnode, heq⟩ | ⟨-, now, bits, hattrs⟩
    · rw [Entry.inode_of_lasting (Prod.mk.inj heq).2, hlabelled.inode i node hnode]
    · rw [hattrs]
      rfl
  mode := by
    intro i node' hnode'
    rcases hstep.node?_cases hnode' with ⟨node, hnode, heq⟩ | ⟨-, now, bits, hattrs⟩
    · obtain ⟨bits, hmode⟩ := hlabelled.mode i node hnode
      obtain ⟨hkind, hentry⟩ := Prod.mk.inj heq
      exact ⟨bits, by rw [Entry.mode_of_lasting hentry, hkind, hmode]⟩
    · exact ⟨bits, congrArg Attributes.mode hattrs⟩

theorem labelled_create (config : Config) (rules : PathRules) (now : Time) :
    (Store.create config rules now).Labelled where
  inode := by
    intro i node hnode
    obtain ⟨rfl, rfl⟩ := node?_create hnode
    rfl
  mode := by
    intro i node hnode
    obtain ⟨-, rfl⟩ := node?_create hnode
    exact ⟨config.dirMode, rfl⟩

end Store

theorem Session.ReachableBy.labelled {session : Session}
    {allowed : Session → Clock → Command → Prop} (hreach : ReachableBy allowed session) :
    session.store.Labelled :=
  hreach.store_induction (fun hrooted _ => step_changes_segment hrooted _ _)
    (fun config rules now _ => Store.labelled_create config rules now) fun hstep => hstep.labelled

end Tree

end VirtualFs
