import VirtualFs.Proofs.Tree.Run
import VirtualFs.Proofs.Tree.Shape
import VirtualFs.Proofs.Tree.TidyPath

namespace VirtualFs.Tree.Store

/-- The names along which a path leads. -/
def way (path : String) : List String :=
  moving (Path.segments (Path.cleaned path))

/-- The segments of a path before its last one. -/
def parents (path : String) : List String :=
  (Path.segments (Path.cleaned path)).dropLast

/-- Tidy names stay as they are when they are joined and taken apart again. -/
theorem way_joinAll {segments : List String} (hsegments : ∀ s ∈ segments, Path.IsTidyName s) :
    way (Path.joinAll segments) = moving segments := by
  rw [way, Path.cleaned_joinAll hsegments, Path.segments_joinAll fun s hs => (hsegments s hs).1]

/-- A store after nodes were made along names from a directory. -/
structure GrownAlong (store grown : Store) (dir : Nat) (names : List String) : Prop where
  changes : Changes (fun _ => True) store grown
  cells : ∀ i c, store.cell? i = some c → grown.cell? i = some c
  /-- What is new stands along the names. -/
  fresh : ∀ i, (grown.node? i).isSome → (store.node? i).isSome ∨
    ∃ front, front <+: names ∧ grown.leads dir front = some i

variable {store middle grown : Store} {clock : Clock} {dir parent inode : Nat}
variable {names front back : List String} {name : String} {mode : FileMode}

namespace GrownAlong

theorem refl (store : Store) (dir : Nat) (names : List String) : GrownAlong store store dir names :=
  ⟨.refl store, fun _ _ hcell => hcell, fun _ hnode => .inl hnode⟩

/-- Following names further grows the store along all of them. -/
theorem trans (hfirst : GrownAlong store middle dir front)
    (hleads : middle.leads dir front = some inode) (hsecond : GrownAlong middle grown inode back) :
    GrownAlong store grown dir (front ++ back) where
  changes := hfirst.changes.trans hsecond.changes
  cells := fun i c hcell => hsecond.cells i c (hfirst.cells i c hcell)
  fresh := by
    intro i hnode
    rcases hsecond.fresh i hnode with hmiddle | ⟨way, hway, hfound⟩
    · rcases hfirst.fresh i hmiddle with hold | ⟨way, hway, hfound⟩
      · exact .inl hold
      · exact .inr ⟨way, hway.trans (List.prefix_append _ _),
          hsecond.changes.leads_eq_some hfound⟩
    · refine .inr ⟨front ++ way, (List.prefix_append_right_inj front).mpr hway, ?_⟩
      rw [leads_append, hsecond.changes.leads_eq_some hleads, Option.bind_some]
      exact hfound

/-- What is found afterwards was there before or stands along the names. -/
theorem leads_old_or_prefix (hgrown : GrownAlong store grown dir names) (hshape : store.Shape)
    (hdir : (store.node? dir).isSome) (hnames : ∀ s ∈ names, s ≠ ".") {key : List String}
    (hkey : ∀ s ∈ key, s ≠ ".") (hleads : grown.leads dir key = some inode) :
    store.leads dir key = some inode ∨ key <+: names := by
  have hshape' := hgrown.changes.shape hshape
  have hdir' := hgrown.changes.preserves (P := fun s => (s.node? dir).isSome)
    (fun hstep => hstep.node?_isSome) hdir
  rcases hgrown.fresh inode (hshape'.node?_isSome_of_leads hdir' hleads) with
    hold | ⟨front, hfront, hfound⟩
  · obtain ⟨base, hbase, hleadsDir⟩ := hshape.reached dir hdir
    obtain ⟨key', hkey', hleads'⟩ := hshape.reached inode hold
    have hwhole : grown.leads rootInode (base ++ key) = some inode := by
      rw [leads_append, hgrown.changes.leads_eq_some hleadsDir, Option.bind_some, hleads]
    obtain rfl := hshape'.leads_inj (List.forall_mem_append.mpr ⟨hbase, hkey⟩) hkey' hwhole
      (hgrown.changes.leads_eq_some hleads')
    rw [leads_append, hleadsDir, Option.bind_some] at hleads'
    exact .inl hleads'
  · have hdots : ∀ s ∈ front, s ≠ "." := fun s hs => hnames s (hfront.mem hs)
    rw [hshape'.leads_inj_of_node? hdir' hkey hdots hleads hfound]
    exact .inr hfront

/-- What was there keeps its size. -/
theorem size_eq (hgrown : GrownAlong store grown dir names) (hshape : store.Shape) {i : Nat}
    (hold : (store.node? i).isSome) :
    (grown.node? i).map (·.entry.size) = (store.node? i).map (·.entry.size) := by
  rcases (store.node?_isSome_iff).mp hold with hdir | hcell
  · obtain ⟨d, hd⟩ := Option.isSome_iff_exists.mp hdir
    obtain ⟨d', hd'⟩ := Option.isSome_iff_exists.mp (hgrown.changes.dir?_isSome hdir)
    have hsize := hshape.dirSize i d hd
    have hsize' := (hgrown.changes.shape hshape).dirSize i d' hd'
    rw [(store.dir?_eq_some_iff).mp hd, (grown.dir?_eq_some_iff).mp hd']
    simp only [Option.map_some, Node.entry, hsize, hsize']
  · obtain ⟨c, hc⟩ := Option.isSome_iff_exists.mp hcell
    rw [(store.cell?_eq_some_iff).mp hc, (grown.cell?_eq_some_iff).mp (hgrown.cells i c hc)]

end GrownAlong

/-- A step that keeps all cells and makes one node in a directory grows the store along its name. -/
theorem GrownAlong.of_child (hchanges : Changes (fun _ => True) store grown)
    (hcells : ∀ i c, store.cell? i = some c → grown.cell? i = some c)
    (hchild : grown.child? parent name = some (.node inode))
    (hfresh : ∀ i, (grown.node? i).isSome → (store.node? i).isSome ∨ i = inode) :
    GrownAlong store grown parent [name] where
  changes := hchanges
  cells := hcells
  fresh := by
    intro i hnode
    refine (hfresh i hnode).imp_right fun heq => ⟨[name], List.prefix_refl _, ?_⟩
    rw [leads_cons, hchild, heq]
    rfl

theorem cell?_addNode_of_eq_some {node : Node} {c : Cell} {i : Nat}
    (hparent : (store.dir? parent).isSome) (hcell : store.cell? i = some c) :
    (store.addNode parent name node).cell? i = some c := by
  have hold : i ≠ store.nextInode := by
    refine store.ne_nextInode_of_node? ((store.node?_isSome_iff).mpr (.inr ?_))
    rw [hcell]
    rfl
  rw [store.cell?_addNode hparent, if_neg hold, hcell]

theorem cell?_touch (store : Store) (dir : Nat) (now : Time) (i : Nat) :
    (store.touch dir now).2.cell? i = store.cell? i := by
  unfold touch
  split
  · rfl
  · split
    · exact store.cell?_modifyDir _ _ _
    · rfl

/-- What making a directory comes to: a new node, and a parent whose time was set. -/
theorem mkdirIn_eq_ok (hmade : store.mkdirIn clock parent name mode = (.ok inode, grown)) :
    inode = store.nextInode ∧ name ≠ "." ∧ store.child? parent name = none ∧
      ∃ entry, entry.attrs.mode = mode.asDir ∧
        (store.addNode parent name (.dir (.empty store.nextInode entry))).touch parent
          (clock (store.stage + 1)) = (.ok (), grown) := by
  unfold mkdirIn at hmade
  split at hmade
  · cases hmade
  next hdot =>
  dsimp only at hmade
  split at hmade
  · cases hmade
  next hfree =>
  split at hmade
  · cases hmade
  next entry hentry =>
  split at hmade
  · next htouch =>
    obtain ⟨hinode, rfl⟩ := Prod.mk.inj hmade
    refine ⟨(Except.ok.inj hinode).symm, hdot, by simpa using hfree, entry, ?_, htouch⟩
    rw [Entry.attrs_of_create hentry]
    rfl
  · cases hmade

/-- A new directory grows the store along its name, whether its parent is touched in time or not. -/
theorem grownAlong_touch_addDir {entry : Entry} {now : Time} (hparent : (store.dir? parent).isSome)
    (hfree : store.child? parent name = none)
    (hgrown : grown = ((store.addNode parent name (.dir (.empty store.nextInode entry))).touch
      parent now).2)
    (hchanges : Changes (fun _ => True) store grown) :
    GrownAlong store grown parent [name] ∧ grown.leads parent [name] = some store.nextInode := by
  have hforms := touch_sameForms
    (store.addNode parent name (.dir (.empty store.nextInode entry))) parent now
  rw [← hgrown] at hforms
  have hchild : grown.child? parent name = some (.node store.nextInode) := by
    rw [hforms.child?_eq, child?_addNode_self hparent hfree]
  refine ⟨.of_child hchanges ?_ hchild ?_, by rw [leads_cons, hchild]; rfl⟩
  · intro i c hcell
    rw [hgrown, cell?_touch, cell?_addNode_of_eq_some hparent hcell]
  · intro i hnode
    rw [hforms.isSome_node?, isSome_node?_addNode hparent] at hnode
    exact hnode.symm

theorem mkdirIn_grownAlong (hparent : (store.dir? parent).isSome)
    (hmade : store.mkdirIn clock parent name mode = (.ok inode, grown)) :
    GrownAlong store grown parent [name] ∧ grown.leads parent [name] = some inode := by
  obtain ⟨rfl, -, hfree, entry, -, htouch⟩ := mkdirIn_eq_ok hmade
  have hchanges : Changes (fun _ => True) store (store.mkdirIn clock parent name mode).2 :=
    store.mkdirIn_changes clock mode hparent trivial
  rw [hmade] at hchanges
  exact grownAlong_touch_addDir hparent hfree (by rw [htouch]) hchanges

/-- Making directories along segments grows the store along those that move. -/
theorem mkdirAlong_grownAlong {segments : List String} (hdir : (store.dir? dir).isSome)
    (hmade : store.mkdirAlong clock dir mode segments = (.ok inode, grown)) :
    GrownAlong store grown dir (moving segments) ∧
      grown.leads dir (moving segments) = some inode := by
  induction segments generalizing store dir with
  | nil =>
    obtain ⟨hinode, rfl⟩ := Prod.mk.inj hmade
    obtain rfl := Except.ok.inj hinode
    exact ⟨.refl _ _ _, rfl⟩
  | cons name rest ih =>
    unfold mkdirAlong at hmade
    by_cases hdot : name = "."
    · subst hdot
      rw [if_pos rfl] at hmade
      exact ih hdir hmade
    have hmoving : moving (name :: rest) = [name] ++ moving rest := by simp [moving, hdot]
    rw [if_neg hdot] at hmade
    rw [hmoving]
    cases hchild : store.child? dir name with
    | some child =>
      rw [hchild] at hmade
      simp only at hmade
      cases hchildDir : store.dir? child.inode with
      | none =>
        rw [hchildDir] at hmade
        cases hmade
      | some d =>
        rw [hchildDir] at hmade
        obtain ⟨hgrown, hleads⟩ := ih (by rw [hchildDir]; rfl) hmade
        have hway : store.leads dir [name] = some child.inode := by
          rw [leads_cons, hchild]
          rfl
        refine ⟨GrownAlong.trans (.refl store dir [name]) hway hgrown, ?_⟩
        rw [leads_append, hgrown.changes.leads_eq_some hway]
        exact hleads
    | none =>
      rw [hchild] at hmade
      simp only at hmade
      rcases hstep : store.mkdirIn clock dir name mode with ⟨e | next, middle⟩
      · rw [hstep] at hmade
        cases hmade
      · rw [hstep] at hmade
        obtain ⟨hmiddle, hway⟩ := mkdirIn_grownAlong hdir hstep
        obtain ⟨hgrown, hleads⟩ := ih (dir?_of_mkdirIn hdir hstep) hmade
        refine ⟨hmiddle.trans hway hgrown, ?_⟩
        rw [leads_append, hgrown.changes.leads_eq_some hway]
        exact hleads

theorem mkdirAlong_of_mkdirAll {path : String}
    (hmade : store.mkdirAll clock dir path mode = (.ok inode, grown)) :
    store.mkdirAlong clock dir mode (Path.segments (Path.cleaned path)) = (.ok inode, grown) := by
  unfold mkdirAll at hmade
  split at hmade
  · cases hmade
  next segments hsplit =>
  rwa [PathRules.segments_of_split _ hsplit] at hmade

theorem mkdirAll_grownAlong {path : String} (hroot : (store.dir? dir).isSome)
    (hmade : store.mkdirAll clock dir path mode = (.ok inode, grown)) :
    GrownAlong store grown dir (way path) ∧ grown.leads dir (way path) = some inode :=
  mkdirAlong_grownAlong hroot (mkdirAlong_of_mkdirAll hmade)

/-- Making a file that is missing grows the store along its name. -/
theorem findOrCreate_grownAlong (hparent : (store.dir? parent).isSome)
    (hmade : store.findOrCreate clock parent name mode = (.ok inode, grown)) :
    GrownAlong store grown parent [name] ∧ grown.leads parent [name] = some inode := by
  have hchanges : Changes (fun _ => True) store (store.findOrCreate clock parent name mode).2 :=
    store.findOrCreate_changes clock mode hparent trivial
  rw [hmade] at hchanges
  unfold findOrCreate at hmade
  cases hchild : store.child? parent name with
  | some child =>
    rw [hchild] at hmade
    obtain ⟨hinode, rfl⟩ := Prod.mk.inj hmade
    obtain rfl := Except.ok.inj hinode
    exact ⟨.refl _ _ _, by rw [leads_cons, hchild]; rfl⟩
  | none =>
    rw [hchild] at hmade
    dsimp only at hmade
    split at hmade
    · cases hmade
    · obtain ⟨hinode, rfl⟩ := Prod.mk.inj hmade
      obtain rfl := Except.ok.inj hinode
      refine ⟨.of_child hchanges (fun i c hcell => cell?_addNode_of_eq_some hparent hcell)
        (child?_addNode_self hparent hchild)
        fun i hnode => ((isSome_node?_addNode hparent i).mp hnode).symm, ?_⟩
      rw [leads_cons, child?_addNode_self hparent hchild]
      rfl

/-- With the mode of a directory it is one that is found or made. -/
theorem dir?_of_createAt {path : String} (hroot : (store.dir? dir).isSome)
    (hmode : mode.isDir = true)
    (hmade : store.createAt clock dir path mode = (.ok inode, grown)) :
    (grown.dir? inode).isSome := by
  rw [createAt, if_pos hmode] at hmade
  exact dir?_of_mkdirAll hroot hmade

/-- What making a file comes to: its parents, if it has any, are made, and then its last segment is
found or made. -/
theorem createAt_eq_ok {path : String} (hmode : mode.isDir = false)
    (hmade : store.createAt clock dir path mode = (.ok inode, grown)) :
    ∃ name parent middle, (Path.segments (Path.cleaned path)).getLast? = some name ∧
      (parents path = [] ∧ parent = dir ∧ middle = store ∨
        store.mkdirAll clock dir (Path.joinAll (parents path)) mode = (.ok parent, middle)) ∧
      middle.findOrCreate clock parent name mode = (.ok inode, grown) := by
  unfold createAt at hmade
  rw [if_neg (by simp [hmode])] at hmade
  split at hmade
  · cases hmade
  next segments hsplit =>
  rw [PathRules.segments_of_split _ hsplit] at hmade
  split at hmade
  · cases hmade
  next name hlast =>
  dsimp only at hmade
  split at hmade
  · cases hmade
  next parent middle hparents =>
  refine ⟨name, parent, middle, hlast, ?_, hmade⟩
  split at hparents
  · next hnil =>
    obtain ⟨hparent, hmiddle⟩ := Prod.mk.inj hparents
    exact .inl ⟨hnil, (Except.ok.inj hparent).symm, hmiddle.symm⟩
  · exact .inr hparents

/-- A new file stands behind its parents as they were joined and taken apart again. -/
theorem createAt_grownAlong {path : String} (hroot : (store.dir? dir).isSome)
    (hmode : mode.isDir = false)
    (hmade : store.createAt clock dir path mode = (.ok inode, grown)) :
    ∃ name, (Path.segments (Path.cleaned path)).getLast? = some name ∧
      GrownAlong store grown dir (way (Path.joinAll (parents path)) ++ [name]) ∧
      grown.leads dir (way (Path.joinAll (parents path)) ++ [name]) = some inode := by
  obtain ⟨name, parent, middle, hlast, hparents, hmade⟩ := createAt_eq_ok hmode hmade
  refine ⟨name, hlast, ?_⟩
  have hmiddle : GrownAlong store middle dir (way (Path.joinAll (parents path))) ∧
      middle.leads dir (way (Path.joinAll (parents path))) = some parent ∧
      (middle.dir? parent).isSome := by
    rcases hparents with ⟨hnil, rfl, rfl⟩ | hparents
    · have hnone : way (Path.joinAll (parents path)) = [] := by
        rw [hnil, way_joinAll (List.forall_mem_nil _)]
        rfl
      rw [hnone]
      exact ⟨.refl _ _ _, rfl, hroot⟩
    · obtain ⟨hgrown, hleads⟩ := mkdirAll_grownAlong hroot hparents
      exact ⟨hgrown, hleads, dir?_of_mkdirAll hroot hparents⟩
  obtain ⟨hgrown, hleads, hparent⟩ := hmiddle
  obtain ⟨hlastGrown, hlastLeads⟩ := findOrCreate_grownAlong hparent hmade
  refine ⟨hgrown.trans hleads hlastGrown, ?_⟩
  rw [leads_append, hlastGrown.changes.leads_eq_some hleads]
  exact hlastLeads

end VirtualFs.Tree.Store
